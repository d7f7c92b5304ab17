import SparqlTree.Text.Order

/-!
# Prefix maps

The declared prefixes of a query: a finite map from labels to IRIs, kept as a list that ascends by
label and holds each label once. A later declaration of a label takes the place of the earlier one.
-/

namespace SparqlTree

/-- A finite map from prefix labels to IRIs. -/
structure PrefixMap where
  /-- The declarations in ascending order of their labels. -/
  toList : List (Text × Text)
  ascending : toList.Pairwise (Text.before ·.1 ·.1)

namespace PrefixMap

instance : DecidableEq PrefixMap := fun a b =>
  decidable_of_iff (a.toList = b.toList) (by cases a; cases b; simp)

/-- The map without declarations. -/
def empty : PrefixMap := ⟨[], .nil⟩

instance : EmptyCollection PrefixMap := ⟨empty⟩

instance : Inhabited PrefixMap := ⟨empty⟩

/-- The IRI declared for a label. -/
def get? (m : PrefixMap) (label : Text) : Option Text := m.toList.lookup label

/-- Puts a declaration at its place in an ascending list, over one of the same label. -/
def place (label iri : Text) : List (Text × Text) → List (Text × Text)
  | [] => [(label, iri)]
  | p :: ps =>
    if Text.before label p.1 then (label, iri) :: p :: ps
    else if label = p.1 then (label, iri) :: ps
    else p :: place label iri ps

theorem mem_place {label iri : Text} {p : Text × Text} {ps : List (Text × Text)}
    (h : p ∈ place label iri ps) : p = (label, iri) ∨ p ∈ ps := by
  induction ps with
  | nil => simpa [place] using h
  | cons q qs ih =>
    unfold place at h
    split at h
    · simpa using h
    · split at h
      · simp only [List.mem_cons] at h ⊢; grind
      · simp only [List.mem_cons] at h ⊢; grind

theorem ascending_place (label iri : Text) {ps : List (Text × Text)}
    (h : ps.Pairwise (Text.before ·.1 ·.1)) :
    (place label iri ps).Pairwise (Text.before ·.1 ·.1) := by
  induction ps with
  | nil => simp [place]
  | cons p ps ih =>
    obtain ⟨hp, hps⟩ := List.pairwise_cons.1 h
    unfold place
    split
    · next hlt =>
      refine List.pairwise_cons.2 ⟨fun q hq => ?_, h⟩
      rcases List.mem_cons.1 hq with rfl | hq
      · exact hlt
      · exact Text.before_trans hlt (hp q hq)
    · split
      · next heq => exact List.pairwise_cons.2 ⟨fun q hq => heq ▸ hp q hq, hps⟩
      · next hlt hne =>
        refine List.pairwise_cons.2 ⟨fun q hq => ?_, ih hps⟩
        rcases mem_place hq with rfl | hq
        · exact Text.before_of_ne hne (by simpa using hlt)
        · exact hp q hq

/-- Declares a label, over an earlier declaration of the same label. -/
def insert (label iri : Text) (m : PrefixMap) : PrefixMap :=
  ⟨place label iri m.toList, ascending_place label iri m.ascending⟩

/-- Withdraws the declaration of a label, if there is one. -/
def erase (label : Text) (m : PrefixMap) : PrefixMap :=
  ⟨m.toList.filter (·.1 != label), m.ascending.filter _⟩

end PrefixMap

end SparqlTree
