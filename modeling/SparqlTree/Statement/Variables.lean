import SparqlTree.Statement.Basic
import SparqlTree.Variable

/-!
# The variables of a tree

Simple statements, projections and CONSTRUCT templates mention variables. Those of a node are its
own and those of everything below it, also of an attached WHERE body. Solution modifiers do not
count.
-/

namespace SparqlTree

/-- The variables that a head mentions. -/
def Head.variableNames : Head → NameSet
  | select p | describe p => p.projected.variableNames
  | construct template _ => template.variableNames
  | _ => ∅

namespace Statement

mutual

/-- The variables that a node and everything below it mention. -/
def unknowns : Statement → NameSet
  | simple text => text.variableNames
  | block head body => head.variableNames ∪ unknownsAll body
  | update _ template attached =>
    unknownsAll template ∪
      match attached with
      | some body => unknownsAll body
      | none => ∅

/-- The variables that several nodes and everything below them mention. -/
def unknownsAll : List Statement → NameSet
  | [] => ∅
  | s :: ss => unknowns s ∪ unknownsAll ss

end

theorem mem_unknownsAll {x : Text} {ss : List Statement} :
    x ∈ unknownsAll ss ↔ ∃ s ∈ ss, x ∈ s.unknowns := by
  induction ss with
  | nil => simp [unknownsAll]
  | cons s ss ih => simp [unknownsAll, ih]

theorem unknownsAll_map {f : Statement → Statement} {ss : List Statement}
    (h : ∀ s ∈ ss, (f s).unknowns = s.unknowns) : unknownsAll (ss.map f) = unknownsAll ss := by
  induction ss with
  | nil => rfl
  | cons s ss ih =>
    rw [List.map_cons, unknownsAll, unknownsAll, h s (by simp),
      ih fun t ht => h t (List.mem_cons_of_mem _ ht)]

end Statement

end SparqlTree
