import SparqlTree.Proofs.Visit.Collect

/-!
# Collections as unions

What a visit gathers is the union of what the nodes of the tree have themselves, at any depth, in
templates and attached WHERE bodies as well. The union can be taken by nodes, by statements, or by
queries, and in any order.
-/

namespace SparqlTree

namespace NameSet

/-- The names of any of the sets. -/
def unionAll (sets : List NameSet) : NameSet := sets.foldr (· ∪ ·) ∅

@[simp] theorem unionAll_nil : unionAll [] = ∅ := rfl

@[simp] theorem unionAll_cons (s : NameSet) (sets : List NameSet) :
    unionAll (s :: sets) = s ∪ unionAll sets := rfl

theorem unionAll_append (sets others : List NameSet) :
    unionAll (sets ++ others) = unionAll sets ∪ unionAll others := by
  induction sets with
  | nil => exact (empty_union _).symm
  | cons s sets ih => rw [List.cons_append, unionAll_cons, unionAll_cons, ih, union_assoc]

end NameSet

namespace Node

/-- The names that a node itself has, those of its text or of its head. -/
def names (ofText : Text → NameSet) (ofHead : Head → NameSet) : Node → NameSet
  | simple text => ofText text
  | block head => ofHead head
  | update .. | attached => ∅

theorem names_variableNames (node : Node) :
    node.names Text.variableNames Head.variableNames = node.variableNames := by
  cases node <;> rfl

theorem names_graph? (node : Node) :
    node.names (fun _ => ∅) (fun head => .ofOption head.graph?) = .ofOption node.graph? := by
  cases node <;> rfl

end Node

namespace Statement

/-- The node of a statement, without what stands below it. -/
def node : Statement → Node
  | simple text => .simple text
  | block head _ => .block head
  | update head _ attached => .update head attached.isSome

/-- The statements right below a node: those of its body, and those of the WHERE body attached to
it. -/
def children : Statement → List Statement
  | simple _ => []
  | block _ body => body
  | update _ template attached => template ++ attached.getD []

end Statement

namespace Visitor.Gathered

open Statement NameSet

variable {ofText : Text → NameSet} {ofHead : Head → NameSet} {names : Statement → NameSet}
  {namesAll : List Statement → NameSet}

theorem namesAll_eq (g : Gathered ofText ofHead names namesAll) (ss : List Statement) :
    namesAll ss = unionAll (ss.map names) := by
  induction ss with
  | nil => exact g.nil
  | cons s ss ih => rw [g.cons, ih, List.map_cons, unionAll_cons]

/-- The names of a tree are those of its uppermost node, joined with those of the trees right below
it. -/
theorem names_eq_node (g : Gathered ofText ofHead names namesAll) (s : Statement) :
    names s = s.node.names ofText ofHead ∪ unionAll (s.children.map names) := by
  cases s with
  | simple text =>
    rw [g.simple, node, Node.names, children, List.map_nil, unionAll_nil, union_empty]
  | block head body => rw [g.block, g.namesAll_eq, node, Node.names, children]
  | update head template attached =>
    rw [g.update, g.namesAll_eq, node, Node.names, children, List.map_append, unionAll_append,
      empty_union]
    cases attached with
    | none => rfl
    | some body => rw [Option.elim_some, g.namesAll_eq, Option.getD_some]

theorem namesAll_eq_outlineAll (g : Gathered ofText ofHead names namesAll) {ss : List Statement}
    (h : ∀ s ∈ ss, ∀ depth,
      names s = unionAll ((s.outline depth).map fun entry => entry.node.names ofText ofHead))
    (depth : Nat) :
    namesAll ss =
      unionAll ((outlineAll depth ss).map fun entry => entry.node.names ofText ofHead) := by
  induction ss with
  | nil => exact g.nil
  | cons s ss ih =>
    rw [g.cons, outlineAll, List.map_append, unionAll_append, ← h s (by simp),
      ← ih fun t ht => h t (List.mem_cons_of_mem _ ht)]

/-- The names of a tree are those of its nodes, at any depth. -/
theorem names_eq_outline (g : Gathered ofText ofHead names namesAll) (s : Statement) (depth : Nat) :
    names s = unionAll ((s.outline depth).map fun entry => entry.node.names ofText ofHead) := by
  induction s using Statement.induct generalizing depth with
  | simple text =>
    rw [g.simple, outline, List.map_singleton, unionAll_cons, unionAll_nil, union_empty, Node.names]
  | block head body ih =>
    rw [g.block, outline, List.map_cons, unionAll_cons, Node.names, ← g.namesAll_eq_outlineAll ih]
  | update head template attached ih₁ ih₂ =>
    have htemplate := g.namesAll_eq_outlineAll ih₁ (depth + 1)
    cases attached with
    | none =>
      simp [g.update, htemplate, outline, Node.names, empty_union, union_empty]
    | some body =>
      -- The entry of the attached body itself has no names.
      have hbody := g.namesAll_eq_outlineAll (ih₂ body rfl) (depth + 2)
      simp [g.update, htemplate, hbody, outline, Node.names, empty_union, unionAll_append]

end Visitor.Gathered

/-! ## Several collections one after another -/

/-- A collection that is carried on from one tree to the next ends with the names of all. -/
theorem NameSet.mem_foldl_union {α : Type} {x : Text} {collect : α → NameSet → NameSet}
    {names : α → NameSet} (h : ∀ a seen, collect a seen = seen ∪ names a) (as : List α)
    (seen : NameSet) :
    x ∈ as.foldl (fun seen a => collect a seen) seen ↔ x ∈ seen ∨ ∃ a ∈ as, x ∈ names a := by
  induction as generalizing seen with
  | nil => simp
  | cons a as ih =>
    rw [List.foldl_cons, ih, h, mem_union, or_assoc]
    simp only [List.mem_cons, exists_eq_or_imp]

namespace Query

open NameSet

theorem unknowns_eq_outline (q : Query) :
    q.unknowns = unionAll (q.outline.map fun entry => entry.node.variableNames) := by
  rw [unknowns, Visitor.gathered_unknowns.namesAll_eq_outlineAll
    (fun s _ => Visitor.gathered_unknowns.names_eq_outline s) 0]
  simp only [Node.names_variableNames, outline]

theorem graphs_eq_outline (q : Query) :
    q.graphs = .ofOption q.graph ∪
      unionAll (q.outline.map fun entry => .ofOption entry.node.graph?) := by
  rw [graphs, Visitor.gathered_graphs.namesAll_eq_outlineAll
    (fun s _ => Visitor.gathered_graphs.names_eq_outline s) 0]
  simp only [Node.names_graph?, outline]

/-- What the collecting visits gather. The variables of a query are those of its texts, projections
and templates, and its graphs are the outer one and those of its groups and projections, at any
depth; both are gathered statement by statement as well. The variables of a statement are its own
and those of the statements right below it. A collection carried on through several queries ends
with what any of them has, whatever their order. -/
theorem collections_exact :
    (∀ q : Query, q.collectVariables ∅ = q.unknowns ∧
      q.unknowns = unionAll (q.outline.map fun entry => entry.node.variableNames) ∧
      q.unknowns = unionAll (q.statements.map Statement.unknowns)) ∧
    (∀ q : Query, q.collectGraphs ∅ = q.graphs ∧
      q.graphs = .ofOption q.graph ∪
        unionAll (q.outline.map fun entry => .ofOption entry.node.graph?) ∧
      q.graphs = .ofOption q.graph ∪ unionAll (q.statements.map Statement.graphs)) ∧
    (∀ s : Statement, (Visitor.variableCollector.visit s ∅).state = s.unknowns ∧
      s.unknowns = s.node.variableNames ∪ unionAll (s.children.map Statement.unknowns)) ∧
    ∀ (qs : List Query) (x : Text),
      (x ∈ qs.foldl (fun seen q => q.collectVariables seen) ∅ ↔ ∃ q ∈ qs, x ∈ q.unknowns) ∧
      (x ∈ qs.foldl (fun seen q => q.collectGraphs seen) ∅ ↔ ∃ q ∈ qs, x ∈ q.graphs) := by
  refine ⟨fun q => ⟨?_, q.unknowns_eq_outline, Visitor.gathered_unknowns.namesAll_eq _⟩,
    fun q => ⟨?_, q.graphs_eq_outline, ?_⟩, fun s => ⟨?_, ?_⟩, fun qs x => ⟨?_, ?_⟩⟩
  · rw [collectVariables_eq, empty_union]
  · rw [collectGraphs_eq, empty_union]
  · rw [graphs, Visitor.gathered_graphs.namesAll_eq]
  · rw [Visitor.visit_gathers Visitor.gathered_unknowns Visitor.walks_variableCollector,
      empty_union]
  · rw [Visitor.gathered_unknowns.names_eq_node, Node.names_variableNames]
  · simp [mem_foldl_union fun q seen => collectVariables_eq q seen]
  · simp [mem_foldl_union fun q seen => collectGraphs_eq q seen]

end Query

end SparqlTree
