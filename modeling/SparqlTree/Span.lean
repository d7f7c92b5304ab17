/-!
# Spans

A stretch of query text, given by the byte positions of its two ends.
-/

namespace SparqlTree

/-- The bytes from `first` up to, not including, `last`. Nothing forces the ends to be in order. -/
structure Span where
  first : Nat
  last : Nat
deriving DecidableEq, Repr, Inhabited

namespace Span

/-- The number of bytes in the span; none if its ends are out of order. -/
def length (s : Span) : Nat := s.last - s.first

/-- Moves both ends into a text of `size` bytes and puts them in order. -/
def clamp (size : Nat) (s : Span) : Span :=
  let first := min s.first size
  ⟨first, max (min s.last size) first⟩

/-! ## Spans in a text -/

variable {size : Nat} {s t : Span}

theorem first_clamp_le_last (size : Nat) (s : Span) : (s.clamp size).first ≤ (s.clamp size).last :=
  Nat.le_max_right _ _

theorem last_clamp_le (size : Nat) (s : Span) : (s.clamp size).last ≤ size :=
  Nat.max_le.2 ⟨Nat.min_le_right _ _, Nat.min_le_right _ _⟩

/-- A span that lies in the text stays where it is. -/
theorem clamp_of_le (h : s.first ≤ s.last) (hs : s.last ≤ size) : s.clamp size = s := by
  rw [clamp, Nat.min_eq_left (Nat.le_trans h hs), Nat.min_eq_left hs, Nat.max_eq_left h]

theorem clamp_clamp (size : Nat) (s : Span) : (s.clamp size).clamp size = s.clamp size :=
  clamp_of_le (first_clamp_le_last size s) (last_clamp_le size s)

theorem first_clamp_mono (h : s.first ≤ t.first) : (s.clamp size).first ≤ (t.clamp size).first := by
  show min s.first size ≤ min t.first size
  omega

theorem last_clamp_mono (hfirst : s.first ≤ t.first) (hlast : s.last ≤ t.last) :
    (s.clamp size).last ≤ (t.clamp size).last := by
  show max (min s.last size) (min s.first size) ≤ max (min t.last size) (min t.first size)
  omega

end Span

end SparqlTree
