import SparqlTree.Text.Basic

/-!
# The order of texts

Texts are ordered like words in a dictionary, characters by their code points. The bytes of the
texts in UTF-8 are in the same order. The order is strict and total.
-/

namespace SparqlTree.Text

/-- True if the first text comes before the second. -/
def before : Text → Text → Bool
  | [], t => !t.isEmpty
  | _ :: _, [] => false
  | a :: s, b :: t => a.toNat < b.toNat || (a == b && before s t)

theorem before_cons {a b : Char} {s t : Text} :
    before (a :: s) (b :: t) = true ↔ a.toNat < b.toNat ∨ (a = b ∧ before s t = true) := by
  simp [before]

theorem not_before_self (s : Text) : before s s = false := by
  induction s with
  | nil => rfl
  | cons a s ih => simp [before, ih]

theorem before_trans {s t u : Text} (hst : before s t = true) (htu : before t u = true) :
    before s u = true := by
  induction s generalizing t u with
  | nil => cases t <;> cases u <;> simp_all [before]
  | cons a s ih =>
    cases t with
    | nil => simp [before] at hst
    | cons b t =>
      cases u with
      | nil => simp [before] at htu
      | cons c u =>
        rw [before_cons] at hst htu ⊢
        rcases hst with hab | ⟨rfl, hst⟩
        · rcases htu with hbc | ⟨rfl, -⟩
          · exact .inl (Nat.lt_trans hab hbc)
          · exact .inl hab
        · rcases htu with hbc | ⟨rfl, htu⟩
          · exact .inl hbc
          · exact .inr ⟨rfl, ih hst htu⟩

/-- Of two different texts one comes before the other. -/
theorem before_of_ne {s t : Text} (hne : s ≠ t) (hst : before s t = false) :
    before t s = true := by
  induction s generalizing t with
  | nil => cases t <;> simp_all [before]
  | cons a s ih =>
    cases t with
    | nil => rfl
    | cons b t =>
      have hnot : ¬(a.toNat < b.toNat ∨ (a = b ∧ before s t = true)) := by
        rw [← before_cons, hst]
        simp
      rw [before_cons]
      by_cases hab : a = b
      · subst hab
        refine .inr ⟨rfl, ih (fun h => hne (h ▸ rfl)) ?_⟩
        simpa using fun h => hnot (.inr ⟨rfl, h⟩)
      · refine .inl ?_
        have hle : ¬a.toNat < b.toNat := fun h => hnot (.inl h)
        have hval : a.toNat ≠ b.toNat := fun h => hab (Char.toNat_inj.1 h)
        omega

theorem ne_of_before {s t : Text} (h : before s t = true) : s ≠ t := by
  rintro rfl
  rw [not_before_self] at h
  nomatch h

end SparqlTree.Text
