import SparqlTree.Statement.Graphs
import SparqlTree.Statement.Variables

/-!
# The texts of a tree

Simple statements and CONSTRUCT templates hold text of which the tree knows nothing. `mapText`
changes these texts and nothing else, so a tree keeps its graphs, and it keeps its variables if the
texts keep theirs.
-/

namespace SparqlTree

/-- The head with its template changed, if it has one. -/
def Head.mapText (f : Text → Text) : Head → Head
  | construct template modifiers => construct (f template) modifiers
  | head => head

namespace Statement

mutual

/-- Changes the text of every simple statement and template of a tree. -/
def mapText (f : Text → Text) : Statement → Statement
  | simple text => simple (f text)
  | block head body => block (head.mapText f) (mapTextAll f body)
  | update head template attached =>
    update head (mapTextAll f template)
      (match attached with
      | some body => some (mapTextAll f body)
      | none => none)

/-- Changes the text of every simple statement and template of several trees. -/
def mapTextAll (f : Text → Text) : List Statement → List Statement
  | [] => []
  | s :: ss => mapText f s :: mapTextAll f ss

end

theorem mapTextAll_eq_map (f : Text → Text) (ss : List Statement) :
    mapTextAll f ss = ss.map (mapText f) := by
  induction ss with
  | nil => rfl
  | cons s ss ih => rw [mapTextAll, ih, List.map_cons]

theorem mapText_block (f : Text → Text) (head : Head) (body : List Statement) :
    mapText f (block head body) = block (head.mapText f) (body.map (mapText f)) := by
  rw [mapText, mapTextAll_eq_map]

theorem mapText_update (f : Text → Text) (head : UpdateHead) (template : List Statement)
    (attached : Option (List Statement)) : mapText f (update head template attached) =
      update head (template.map (mapText f)) (attached.map (·.map (mapText f))) := by
  cases attached <;> simp [mapText, mapTextAll_eq_map]

theorem mapText_id (s : Statement) : mapText id s = s := by
  induction s using Statement.induct with
  | simple text => rfl
  | block head body ih =>
    have hhead : head.mapText id = head := by cases head <;> rfl
    rw [mapText_block, hhead, List.map_congr_left ih, List.map_id']
  | update head template attached ih₁ ih₂ =>
    rw [mapText_update, List.map_congr_left ih₁, List.map_id']
    cases attached with
    | none => rfl
    | some body => rw [Option.map_some, List.map_congr_left (ih₂ body rfl), List.map_id']

theorem map_mapText_id (ss : List Statement) : ss.map (mapText id) = ss := by
  rw [List.map_congr_left fun s _ => mapText_id s, List.map_id']

variable {f : Text → Text}

theorem graphs_mapText (s : Statement) : (mapText f s).graphs = s.graphs := by
  induction s using Statement.induct with
  | simple text => rfl
  | block head body ih =>
    have hhead : (head.mapText f).graph? = head.graph? := by cases head <;> rfl
    rw [mapText_block, graphs, graphs, hhead, graphsAll_map ih]
  | update head template attached ih₁ ih₂ =>
    rw [mapText_update]
    cases attached with
    | none =>
      show graphsAll (template.map _) ∪ ∅ = graphsAll template ∪ ∅
      rw [graphsAll_map ih₁]
    | some body =>
      show graphsAll (template.map _) ∪ graphsAll (body.map _) = graphsAll template ∪ graphsAll body
      rw [graphsAll_map ih₁, graphsAll_map (ih₂ body rfl)]

theorem unknowns_mapText (hf : ∀ t, (f t).variableNames = t.variableNames) (s : Statement) :
    (mapText f s).unknowns = s.unknowns := by
  induction s using Statement.induct with
  | simple text => exact hf text
  | block head body ih =>
    have hhead : (head.mapText f).variableNames = head.variableNames := by
      cases head with
      | construct template modifiers => exact hf template
      | _ => rfl
    rw [mapText_block, unknowns, unknowns, hhead, unknownsAll_map ih]
  | update head template attached ih₁ ih₂ =>
    rw [mapText_update]
    cases attached with
    | none =>
      show unknownsAll (template.map _) ∪ ∅ = unknownsAll template ∪ ∅
      rw [unknownsAll_map ih₁]
    | some body =>
      show unknownsAll (template.map _) ∪ unknownsAll (body.map _) =
        unknownsAll template ∪ unknownsAll body
      rw [unknownsAll_map ih₁, unknownsAll_map (ih₂ body rfl)]

/-- Trees that differ in their texts only name the same graphs. -/
theorem graphsAll_eq_of_map {ss ts : List Statement}
    (h : ss.map (mapText f) = ts.map (mapText f)) : graphsAll ss = graphsAll ts := by
  rw [← graphsAll_map fun s _ => graphs_mapText (f := f) s, h,
    graphsAll_map fun s _ => graphs_mapText s]

theorem unknownsAll_eq_of_map (hf : ∀ t, (f t).variableNames = t.variableNames)
    {ss ts : List Statement} (h : ss.map (mapText f) = ts.map (mapText f)) :
    unknownsAll ss = unknownsAll ts := by
  rw [← unknownsAll_map fun s _ => unknowns_mapText hf s, h,
    unknownsAll_map fun s _ => unknowns_mapText hf s]

end Statement

end SparqlTree
