import SparqlTree.Proofs.Visit.Collect

/-!
# Retargeting a query

Setting the graphs of a query reaches every graph field of it and touches nothing else
(`Query.assignGraph_exact`). Replacing a graph changes the fields that held it, and the graphs that
the query names afterwards are the ones to be expected (`Query.replaceGraph_exact`). The fields of a
query are its outer graph and those of the nodes in its outline, which lists attached WHERE bodies
and everything in them as well.
-/

namespace SparqlTree

theorem retarget_self (old : Text) (new : Option Text) : retarget old new (some old) = new :=
  if_pos rfl

theorem graphNamed_eq_some {iri x : Text} : graphNamed iri = some x ↔ x = iri ∧ iri ≠ [] := by
  unfold graphNamed
  split
  · next h => simp [h]
  · next h => simp [h, eq_comm]

namespace Query

/-- Every graph field of the query: the outer one, then those of the nodes in preorder. -/
def graphFields (q : Query) : List (Option Text) := q.graph :: graphFieldsOf q.outline

/-- The query with every graph field emptied. -/
def withoutGraphs (q : Query) : Query :=
  { q with graph := none, statements := Statement.withoutGraphsAll q.statements }

/-- The graphs of a query are those that stand in its graph fields. -/
theorem mem_graphs {q : Query} {x : Text} : x ∈ q.graphs ↔ some x ∈ q.graphFields := by
  rw [graphs, graphFields, NameSet.mem_union, NameSet.mem_ofOption, List.mem_cons, outline,
    Statement.mem_graphsAll_outline (fun s _ => s.mem_graphs_outline) 0, eq_comm]

variable (f : Option Text → Option Text) (q : Query)

theorem graphFields_mapGraph : (q.mapGraph f).graphFields = q.graphFields.map f := by
  have houtline : (q.mapGraph f).outline = Statement.mapGraphOutline f q.outline :=
    Statement.outlineAll_map f (fun s _ => s.outline_mapGraph f) 0
  rw [graphFields, houtline, Statement.graphFieldsOf_mapGraphOutline]
  rfl

theorem withoutGraphs_mapGraph : (q.mapGraph f).withoutGraphs = q.withoutGraphs := by
  have hall : Statement.withoutGraphsAll (q.statements.map (Statement.mapGraph f)) =
      Statement.withoutGraphsAll q.statements :=
    Statement.withoutGraphsAll_map fun s _ => s.withoutGraphs_mapGraph f
  rw [withoutGraphs, withoutGraphs, mapGraph, hall]

theorem unknowns_mapGraph : (q.mapGraph f).unknowns = q.unknowns :=
  Statement.unknownsAll_map fun s _ => s.unknowns_mapGraph f

theorem graphFields_assignGraph (g : Text) {field : Option Text}
    (h : field ∈ (q.assignGraph g).graphFields) : field = graphNamed g := by
  rw [assignGraph, graphFields_mapGraph] at h
  obtain ⟨_, _, rfl⟩ := List.mem_map.1 h
  rfl

theorem graphs_assignGraph (g : Text) : (q.assignGraph g).graphs = .ofOption (graphNamed g) := by
  ext x
  have houter : graphNamed g ∈ (q.assignGraph g).graphFields := List.mem_cons_self
  rw [mem_graphs, NameSet.mem_ofOption]
  exact ⟨fun h => (q.graphFields_assignGraph g h).symm, fun h => h ▸ houter⟩

/-- Setting the graphs of a query reaches every graph field and touches nothing else. The query
then names the one graph, or none for the empty IRI, and mentions the variables that it did. It is
the query with its outer graph set and with the graphs of each statement set, and it is what a
retargeting visit leaves. -/
theorem assignGraph_exact (g : Text) :
    (∀ field ∈ (q.assignGraph g).graphFields, field = graphNamed g) ∧
    (q.assignGraph g).graphs = .ofOption (graphNamed g) ∧
    (q.assignGraph g).withoutGraphs = q.withoutGraphs ∧
    (q.assignGraph g).unknowns = q.unknowns ∧
    q.assignGraph g =
      { q.setGraph g with statements := q.statements.map (Statement.assignGraph g) } ∧
    q.retargeted (fun _ => graphNamed g) = q.assignGraph g ∧
    (∀ s state, (Visitor.retargeter fun _ => graphNamed g).visit s state =
      ⟨s.assignGraph g, (), none⟩) ∧
    (q.assignGraph g).collectGraphs ∅ = .ofOption (graphNamed g) ∧
    (q.assignGraph g).collectVariables ∅ = q.collectVariables ∅ := by
  have hgraphs := q.graphs_assignGraph g
  have hunknowns : (q.assignGraph g).unknowns = q.unknowns := q.unknowns_mapGraph _
  refine ⟨fun _ => q.graphFields_assignGraph g, hgraphs, q.withoutGraphs_mapGraph _, hunknowns, rfl,
    q.retargeted_eq _, Visitor.visit_retargeter _, ?_, ?_⟩
  · rw [collectGraphs_eq, hgraphs, NameSet.empty_union]
  · rw [collectVariables_eq, collectVariables_eq, hunknowns]

/-- The graphs named afterwards: `old` gives way to `new`, if it was named and `new` names one. -/
theorem mem_graphs_replaceGraph (old new : Text) {x : Text} :
    x ∈ (q.replaceGraph old new).graphs ↔
      (x ∈ q.graphs ∧ x ≠ old) ∨ (x = new ∧ new ≠ [] ∧ old ∈ q.graphs) := by
  rw [mem_graphs, mem_graphs, mem_graphs, replaceGraph, graphFields_mapGraph, List.mem_map]
  constructor
  · rintro ⟨field, hfield, heq⟩
    by_cases hold : field = some old
    · rw [hold, retarget_self, graphNamed_eq_some] at heq
      exact .inr ⟨heq.1, heq.2, hold ▸ hfield⟩
    · rw [retarget, if_neg hold] at heq
      exact .inl ⟨heq ▸ hfield, fun h => hold (by rw [heq, h])⟩
  · rintro (⟨hx, hne⟩ | ⟨rfl, hnew, hold⟩)
    · exact ⟨some x, hx, if_neg fun h => hne (Option.some.inj h)⟩
    · exact ⟨some old, hold, by rw [retarget_self, graphNamed, if_neg hnew]⟩

/-- Replacing a graph changes exactly the graph fields that held it: each of them holds `new`
afterwards, or nothing if `new` is empty, and the rest of the query is as before. So the graphs that
the query names are the ones from before without `old`, and `new` if it took the place of `old`. A
retargeting visit leaves the same query. -/
theorem replaceGraph_exact (old new : Text) :
    (q.replaceGraph old new).graphFields = q.graphFields.map (fun field =>
      if field = some old then if new = [] then none else some new else field) ∧
    (q.replaceGraph old new).withoutGraphs = q.withoutGraphs ∧
    (∀ x, x ∈ (q.replaceGraph old new).graphs ↔
      (x ∈ q.graphs ∧ x ≠ old) ∨ (x = new ∧ new ≠ [] ∧ old ∈ q.graphs)) ∧
    q.retargeted (retarget old (graphNamed new)) = q.replaceGraph old new ∧
    (q.replaceGraph old new).collectGraphs ∅ = (q.replaceGraph old new).graphs := by
  refine ⟨q.graphFields_mapGraph _, q.withoutGraphs_mapGraph _,
    fun _ => q.mem_graphs_replaceGraph old new, q.retargeted_eq _, ?_⟩
  rw [collectGraphs_eq, NameSet.empty_union]

end Query

end SparqlTree
