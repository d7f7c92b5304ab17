import SparqlTree.Text.Order

/-!
# Sets of names

A finite set of texts, kept as an ascending list without repetitions, so that equal sets are equal
values and listing a set needs no further sorting.
-/

namespace SparqlTree

/-- A finite set of names. -/
structure NameSet where
  /-- The members in ascending order. -/
  toList : List Text
  ascending : toList.Pairwise (Text.before · ·)

namespace NameSet

instance : DecidableEq NameSet := fun a b =>
  decidable_of_iff (a.toList = b.toList) (by cases a; cases b; simp)

instance : Membership Text NameSet := ⟨fun s x => x ∈ s.toList⟩

instance (x : Text) (s : NameSet) : Decidable (x ∈ s) := inferInstanceAs (Decidable (x ∈ s.toList))

theorem mem_def {x : Text} {s : NameSet} : x ∈ s ↔ x ∈ s.toList := Iff.rfl

/-- The set without members. -/
def empty : NameSet := ⟨[], .nil⟩

instance : EmptyCollection NameSet := ⟨empty⟩

instance : Inhabited NameSet := ⟨empty⟩

/-- True of the set without members. -/
def isEmpty (s : NameSet) : Bool := s.toList.isEmpty

/-- The number of members. -/
def size (s : NameSet) : Nat := s.toList.length

/-- Puts a name at its place in an ascending list, unless it is there already. -/
def place (x : Text) : List Text → List Text
  | [] => [x]
  | y :: ys => if Text.before x y then x :: y :: ys else if x = y then y :: ys else y :: place x ys

theorem mem_place {x z : Text} {ys : List Text} : z ∈ place x ys ↔ z = x ∨ z ∈ ys := by
  induction ys with
  | nil => simp [place]
  | cons y ys ih =>
    unfold place
    split
    · simp
    · split
      · simp_all
      · simp only [List.mem_cons, ih]
        grind

theorem ascending_place (x : Text) {ys : List Text} (h : ys.Pairwise (Text.before · ·)) :
    (place x ys).Pairwise (Text.before · ·) := by
  induction ys with
  | nil => simp [place]
  | cons y ys ih =>
    obtain ⟨hy, hys⟩ := List.pairwise_cons.1 h
    unfold place
    split
    · next hxy =>
      refine List.pairwise_cons.2 ⟨fun z hz => ?_, h⟩
      rcases List.mem_cons.1 hz with rfl | hz
      · exact hxy
      · exact Text.before_trans hxy (hy z hz)
    · split
      · exact h
      · next hxy hne =>
        refine List.pairwise_cons.2 ⟨fun z hz => ?_, ih hys⟩
        rcases mem_place.1 hz with rfl | hz
        · exact Text.before_of_ne hne (by simpa using hxy)
        · exact hy z hz

/-- Adds one name. -/
def insert (x : Text) (s : NameSet) : NameSet := ⟨place x s.toList, ascending_place x s.ascending⟩

/-- All names of either set. -/
def union (s t : NameSet) : NameSet := t.toList.foldl (fun acc x => acc.insert x) s

instance : Union NameSet := ⟨union⟩

/-- The set of the names in a list. -/
def ofList (xs : List Text) : NameSet := xs.foldl (fun acc x => acc.insert x) ∅

/-- The set of the name that is there, if any. -/
def ofOption (x : Option Text) : NameSet := ofList x.toList

/-! ## Members -/

@[simp] theorem not_mem_empty (x : Text) : ¬ x ∈ (∅ : NameSet) := by
  simp [mem_def, EmptyCollection.emptyCollection, empty]

@[simp] theorem mem_insert {x y : Text} {s : NameSet} : y ∈ s.insert x ↔ y = x ∨ y ∈ s :=
  mem_place

theorem mem_foldl_insert {y : Text} {xs : List Text} {s : NameSet} :
    y ∈ xs.foldl (fun acc x => acc.insert x) s ↔ y ∈ s ∨ y ∈ xs := by
  induction xs generalizing s with
  | nil => simp
  | cons x xs ih => rw [List.foldl_cons, ih, mem_insert, List.mem_cons]; grind

@[simp] theorem mem_union {y : Text} {s t : NameSet} : y ∈ s ∪ t ↔ y ∈ s ∨ y ∈ t :=
  mem_foldl_insert

@[simp] theorem mem_ofList {y : Text} {xs : List Text} : y ∈ ofList xs ↔ y ∈ xs := by
  simp [ofList, mem_foldl_insert]

@[simp] theorem mem_ofOption {y : Text} {x : Option Text} : y ∈ ofOption x ↔ x = some y := by
  simp [ofOption]

/-- Two ascending lists with the same members are the same list. -/
theorem eq_of_ascending {xs ys : List Text} (hx : xs.Pairwise (Text.before · ·))
    (hy : ys.Pairwise (Text.before · ·)) (h : ∀ z, z ∈ xs ↔ z ∈ ys) : xs = ys := by
  induction xs generalizing ys with
  | nil =>
    cases ys with
    | nil => rfl
    | cons y ys => exact absurd ((h y).2 (by simp)) (by simp)
  | cons x xs ih =>
    cases ys with
    | nil => exact absurd ((h x).1 (by simp)) (by simp)
    | cons y ys =>
      obtain ⟨hx1, hx2⟩ := List.pairwise_cons.1 hx
      obtain ⟨hy1, hy2⟩ := List.pairwise_cons.1 hy
      have hxy : x = y := by
        rcases List.mem_cons.1 ((h x).1 (by simp)) with e | hm
        · exact e
        · rcases List.mem_cons.1 ((h y).2 (by simp)) with e | hm'
          · exact e.symm
          · exact absurd rfl (Text.ne_of_before (Text.before_trans (hy1 x hm) (hx1 y hm')))
      subst hxy
      congr 1
      refine ih hx2 hy2 fun z => ⟨fun hz => ?_, fun hz => ?_⟩
      · rcases List.mem_cons.1 ((h z).1 (List.mem_cons_of_mem _ hz)) with e | hm
        · exact absurd e.symm (Text.ne_of_before (hx1 z hz))
        · exact hm
      · rcases List.mem_cons.1 ((h z).2 (List.mem_cons_of_mem _ hz)) with e | hm
        · exact absurd e.symm (Text.ne_of_before (hy1 z hz))
        · exact hm

/-- Sets with the same members are equal. -/
@[ext] theorem ext {s t : NameSet} (h : ∀ x, x ∈ s ↔ x ∈ t) : s = t := by
  have e : s.toList = t.toList := eq_of_ascending s.ascending t.ascending h
  cases s; cases t; simp_all

end NameSet

end SparqlTree
