import SparqlTree.Proofs.Query.Retargeting

/-!
# Graph edits one after another

Setting the graphs of a query forgets every edit before it. A replacement can be taken back, and two
that follow on each other are one, if the graph that was put in was not named before. Replacements
can change places if neither finds anything to do that the other left (`Query.graphEdits_laws`).
Edits change every graph field by itself, and two edits are the same if they do the same to the
fields that are there (`Query.mapGraph_congr`), so these are laws of single fields.
-/

namespace SparqlTree

/-- A change to the graphs of a query. -/
inductive GraphEdit where
  /-- Sets every graph. -/
  | assign (new : Text)
  /-- Puts a graph in the place of the graph `old`. -/
  | replace (old new : Text)

/-- What an edit does to a graph field. -/
def GraphEdit.change : GraphEdit → Option Text → Option Text
  | assign new => fun _ => graphNamed new
  | replace old new => retarget old (graphNamed new)

namespace Query

/-- The query after an edit of its graphs. -/
def edit (q : Query) : GraphEdit → Query
  | .assign new => q.assignGraph new
  | .replace old new => q.replaceGraph old new

/-- The query after several edits of its graphs, the first one first. -/
def editAll (q : Query) (edits : List GraphEdit) : Query := edits.foldl edit q

end Query

/-! ## 1. Single fields -/

theorem graphNamed_of_ne_nil {iri : Text} (h : iri ≠ []) : graphNamed iri = some iri := if_neg h

theorem retarget_of_ne {old : Text} {field : Option Text} (h : field ≠ some old)
    (new : Option Text) : retarget old new field = field := if_neg h

theorem retarget_some_self (a : Text) (field : Option Text) :
    retarget a (some a) field = field := by
  by_cases h : field = some a
  · rw [h, retarget_self]
  · exact retarget_of_ne h _

/-- A graph that was put in is the only one that the next replacement finds. -/
theorem retarget_retarget {b : Text} {field : Option Text} (hb : b ≠ []) (hfield : field ≠ some b)
    (a : Text) (new : Option Text) :
    retarget b new (retarget a (graphNamed b) field) = retarget a new field := by
  by_cases h : field = some a
  · rw [h, retarget_self, retarget_self, graphNamed_of_ne_nil hb, retarget_self]
  · rw [retarget_of_ne h, retarget_of_ne h, retarget_of_ne hfield]

/-- A replacement leaves alone what another one puts in. -/
theorem retarget_graphNamed {b c : Text} (h : b ≠ c) (new : Option Text) :
    retarget c new (graphNamed b) = graphNamed b :=
  retarget_of_ne (fun hb => h (graphNamed_eq_some.1 hb).1.symm) new

theorem retarget_comm {a b c d : Text} (hac : a ≠ c) (hbc : b ≠ c) (hda : d ≠ a)
    (field : Option Text) :
    retarget c (graphNamed d) (retarget a (graphNamed b) field) =
      retarget a (graphNamed b) (retarget c (graphNamed d) field) := by
  by_cases ha : field = some a
  · have hc : some a ≠ some c := fun h => hac (Option.some.inj h)
    rw [ha, retarget_self, retarget_graphNamed hbc, retarget_of_ne hc, retarget_self]
  · by_cases hc : field = some c
    · rw [retarget_of_ne ha, hc, retarget_self, retarget_graphNamed hda]
    · rw [retarget_of_ne ha, retarget_of_ne hc, retarget_of_ne ha]

/-! ## 2. All fields of a query -/

namespace Query

theorem edit_eq_mapGraph (q : Query) (e : GraphEdit) : q.edit e = q.mapGraph e.change := by
  cases e <;> rfl

variable (q : Query)

theorem mapGraph_mapGraph (f g : Option Text → Option Text) :
    (q.mapGraph f).mapGraph g = q.mapGraph (g ∘ f) := by
  have hss : (q.statements.map (Statement.mapGraph f)).map (Statement.mapGraph g) =
      q.statements.map (Statement.mapGraph (g ∘ f)) :=
    List.map_map.trans (List.map_congr_left fun s _ => s.mapGraph_mapGraph f g)
  exact congrArg (fun statements => { q with graph := g (f q.graph), statements }) hss

theorem mapGraph_id : q.mapGraph id = q := by
  have hss : q.statements.map (Statement.mapGraph id) = q.statements :=
    (List.map_congr_left fun s _ => s.mapGraph_id).trans (List.map_id' _)
  exact congrArg (fun statements => { q with statements }) hss

variable {q}

/-- What a change does to a query is what it does to its graph fields. -/
theorem mapGraph_congr {f g : Option Text → Option Text}
    (h : ∀ field ∈ q.graphFields, f field = g field) : q.mapGraph f = q.mapGraph g := by
  have houter : f q.graph = g q.graph := h q.graph List.mem_cons_self
  have hss : q.statements.map (Statement.mapGraph f) = q.statements.map (Statement.mapGraph g) :=
    Statement.map_mapGraph_congr (fun s _ => s.mapGraph_congr) 0 fun field hfield =>
      h field (List.mem_cons_of_mem _ hfield)
  rw [mapGraph, mapGraph, houter, hss]

variable (q)

theorem assignGraph_edit (e : GraphEdit) (new : Text) :
    (q.edit e).assignGraph new = q.assignGraph new := by
  rw [edit_eq_mapGraph]
  exact q.mapGraph_mapGraph _ _

theorem assignGraph_editAll (edits : List GraphEdit) (new : Text) :
    (q.editAll edits).assignGraph new = q.assignGraph new := by
  induction edits generalizing q with
  | nil => rfl
  | cons e edits ih => exact (ih (q.edit e)).trans (q.assignGraph_edit e new)

theorem replaceGraph_self {a : Text} (ha : a ≠ []) : q.replaceGraph a a = q := by
  rw [replaceGraph, graphNamed_of_ne_nil ha,
    mapGraph_congr fun field _ => retarget_some_self a field]
  exact q.mapGraph_id

theorem replaceGraph_replaceGraph {b : Text} (hb : b ≠ []) (h : b ∉ q.graphs) (a c : Text) :
    (q.replaceGraph a b).replaceGraph b c = q.replaceGraph a c := by
  rw [replaceGraph, replaceGraph, mapGraph_mapGraph]
  refine mapGraph_congr fun field hfield => retarget_retarget hb ?_ a _
  rintro rfl
  exact h (mem_graphs.2 hfield)

/-- A replacement cannot be taken back if the graph that it puts in was named before. -/
theorem eq_or_not_mem_graphs {a b : Text} (ha : a ≠ []) (hb : b ≠ [])
    (h : (q.replaceGraph a b).replaceGraph b a = q) : a = b ∨ b ∉ q.graphs := by
  by_cases hmem : b ∈ q.graphs
  · left
    have hfields := congrArg graphFields h
    rw [replaceGraph, replaceGraph, graphFields_mapGraph, graphFields_mapGraph,
      List.map_map] at hfields
    -- Where `b` stood there is now `a`.
    have hba := List.map_inj_left.1 (hfields.trans (List.map_id _).symm) (some b)
      (mem_graphs.1 hmem)
    rw [Function.comp, graphNamed_of_ne_nil hb, graphNamed_of_ne_nil ha] at hba
    by_cases hab : some b = some a
    · exact (Option.some.inj hab).symm
    · rw [retarget_of_ne hab, retarget_self] at hba
      exact Option.some.inj hba
  · exact .inr hmem

/-- The laws of graph edits. An edit is what a retargeting visit leaves. Setting the graphs forgets
all edits before it. A replacement can be taken back exactly if it puts in a graph that was not
named before; then it can also be made together with the next one. Two replacements can change
places if they are for different graphs and neither puts in what the other one is for. -/
theorem graphEdits_laws :
    (∀ e : GraphEdit, q.retargeted e.change = q.edit e) ∧
    (∀ edits new, (q.editAll edits).assignGraph new = q.assignGraph new) ∧
    (∀ a b, a ≠ [] → b ≠ [] →
      ((q.replaceGraph a b).replaceGraph b a = q ↔ a = b ∨ b ∉ q.graphs) ∧
      (b ∉ q.graphs → ∀ c, (q.replaceGraph a b).replaceGraph b c = q.replaceGraph a c)) ∧
    ∀ a b c d, a ≠ c → b ≠ c → d ≠ a →
      (q.replaceGraph a b).replaceGraph c d = (q.replaceGraph c d).replaceGraph a b := by
  refine ⟨fun e => ?_, q.assignGraph_editAll, fun a b ha hb => ⟨⟨?_, ?_⟩, ?_⟩, ?_⟩
  · rw [retargeted_eq, edit_eq_mapGraph]
  · exact q.eq_or_not_mem_graphs ha hb
  · rintro (rfl | h)
    · rw [q.replaceGraph_self ha, q.replaceGraph_self ha]
    · rw [q.replaceGraph_replaceGraph hb h, q.replaceGraph_self ha]
  · exact fun h => q.replaceGraph_replaceGraph hb h a
  · intro a b c d hac hbc hda
    simp only [replaceGraph, mapGraph_mapGraph]
    exact mapGraph_congr fun field _ => retarget_comm hac hbc hda field

/-- In `INSERT { GRAPH <> { } } WHERE { OPTIONAL { } }`, with a graph on the optional group and
another one on a sub-select in it, a graph is replaced by one that was not named. -/
theorem graphEdits_laws_insertWhere :
    let inner : Statement := .block (.select { projected := "?x".toList, graph := some ['c'] }) []
    let q : Query := { form := .update, statements := [.update ⟨.insert, false⟩
      [.block (.group (some []) false) []] (some [.block (.group (some ['a']) true) [inner]])] }
    ['b'] ∉ q.graphs ∧ (q.replaceGraph ['a'] ['b']).replaceGraph ['b'] ['a'] = q ∧
      (q.replaceGraph ['a'] ['b']).replaceGraph ['b'] [] = q.replaceGraph ['a'] [] ∧
      (q.replaceGraph ['a'] ['b']).replaceGraph ['c'] [] =
        (q.replaceGraph ['c'] []).replaceGraph ['a'] ['b'] := by
  intro inner q
  have hb : ['b'] ∉ q.graphs := by decide
  obtain ⟨-, -, hreplace, hplaces⟩ := q.graphEdits_laws
  obtain ⟨hback, hnext⟩ := hreplace ['a'] ['b'] (by decide) (by decide)
  exact ⟨hb, hback.2 (.inr hb), hnext hb [],
    hplaces _ _ _ _ (by decide) (by decide) (by decide)⟩

end Query

end SparqlTree
