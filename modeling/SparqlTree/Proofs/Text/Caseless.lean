import SparqlTree.Keyword
import SparqlTree.Proofs.Text.Written

/-!
# Letter case and tokens

Capitalising a letter makes no token out of a word and no word out of a token. So whatever has the
letters of a keyword is a word, and it is one keyword at most.
-/

namespace SparqlTree

namespace Text

/-- Only the letters a to z are changed. -/
theorem toUpper_cases (c : Char) : c.toUpper = c ∨ ∃ i < 26, c = Char.ofNat (97 + i) := by
  by_cases h : 'a'.val ≤ c.val ∧ c.val ≤ 'z'.val
  · have h1 : 97 ≤ c.val.toNat := h.1
    have h2 : c.val.toNat ≤ 122 := h.2
    refine .inr ⟨c.val.toNat - 97, by omega, ?_⟩
    rw [Nat.add_sub_cancel' h1]
    exact (Char.ofNat_toNat c).symm
  · exact .inl (dif_neg h)

theorem continuesWord_toUpper (c : Char) : continuesWord c.toUpper = continuesWord c := by
  rcases toUpper_cases c with h | ⟨i, hi, rfl⟩
  · rw [h]
  · revert i
    decide

theorem isBlank_toUpper (c : Char) : isBlank c.toUpper = isBlank c := by
  rcases toUpper_cases c with h | ⟨i, hi, rfl⟩
  · rw [h]
  · revert i
    decide

/-- Texts with the same letters have the same characters where no letter stands. -/
theorem forall_of_sameLetters {p : Char → Bool} (hp : ∀ c : Char, p c.toUpper = p c) {s t : Text}
    (h : sameLetters s t = true) (ht : ∀ c ∈ t, p c = true) : ∀ c ∈ s, p c = true := by
  rw [sameLetters_iff] at h
  intro c hc
  have hm : c.toUpper ∈ upper t := h ▸ List.mem_map_of_mem hc
  obtain ⟨d, hd, he⟩ := List.mem_map.1 hm
  rw [← hp, ← he, hp]
  exact ht d hd

theorem utf8Size_toUpper (c : Char) : c.toUpper.utf8Size = c.utf8Size := by
  rcases toUpper_cases c with h | ⟨i, hi, rfl⟩
  · rw [h]
  · revert i
    decide

theorem byteLength_upper (t : Text) : byteLength (upper t) = byteLength t := by
  induction t with
  | nil => rfl
  | cons c t ih =>
    show c.toUpper.utf8Size + byteLength (upper t) = c.utf8Size + byteLength t
    rw [utf8Size_toUpper, ih]

/-- Texts with the same letters are equally long in bytes. -/
theorem byteLength_eq_of_sameLetters {s t : Text} (h : sameLetters s t = true) :
    byteLength s = byteLength t := by
  rw [← byteLength_upper s, sameLetters_iff.1 h, byteLength_upper]

/-- Only a line feed has the letters of a line feed. -/
theorem newline_mem_of_sameLetters {s t : Text} (h : sameLetters s t = true) (hs : '\n' ∈ s) :
    '\n' ∈ t := by
  by_cases ht : '\n' ∈ t
  · exact ht
  · have hp : ∀ c : Char, (c.toUpper != '\n') = (c != '\n') := by
      intro c
      rcases toUpper_cases c with hc | ⟨i, hi, rfl⟩
      · rw [hc]
      · revert i
        decide
    have hall : ∀ c ∈ t, (c != '\n') = true := fun c hc => bne_iff_ne.2 fun he => ht (he ▸ hc)
    exact absurd rfl (bne_iff_ne.1 (forall_of_sameLetters hp h hall '\n' hs))

theorem sameLetters_refl (t : Text) : sameLetters t t = true := sameLetters_iff.2 rfl

end Text

namespace Keyword

theorem name_ne_nil (k : Keyword) : k.name ≠ [] := by cases k <;> decide

theorem word_name (k : Keyword) : ∀ c ∈ k.name, Text.continuesWord c = true := by
  rw [← List.all_eq_true]
  cases k <;> decide

theorem solid_name (k : Keyword) : ∀ c ∈ k.name, (!isBlank c) = true := by
  rw [← List.all_eq_true]
  cases k <;> decide

variable {k : Keyword} {w : Text}

theorem spells_name (k : Keyword) : k.spells k.name = true := Text.sameLetters_refl _

/-- What spells a keyword is a word. -/
theorem word_of_spells (h : k.spells w = true) : ∀ c ∈ w, Text.continuesWord c = true :=
  Text.forall_of_sameLetters Text.continuesWord_toUpper h k.word_name

theorem solid_of_spells (h : k.spells w = true) : ∀ c ∈ w, (!isBlank c) = true :=
  Text.forall_of_sameLetters (fun c => by rw [Text.isBlank_toUpper]) h k.solid_name

theorem ne_nil_of_spells (h : k.spells w = true) : w ≠ [] := by
  rintro rfl
  have hlen := Text.length_eq_of_sameLetters h
  exact k.name_ne_nil (List.length_eq_zero_iff.1 hlen.symm)

theorem isToken_of_spells (h : k.spells w = true) : Text.IsToken w :=
  .word w (ne_nil_of_spells h) (word_of_spells h)

theorem isBreak_of_spells (h : k.spells w = true) : Text.isBreak w = false :=
  Text.isBreak_of_word (word_of_spells h)

theorem upper_name (k : Keyword) : Text.upper k.name = k.name := by cases k <;> decide

theorem name_injective {j k : Keyword} (h : j.name = k.name) : j = k := by
  revert h
  cases j <;> cases k <;> decide

/-- A text spells one keyword at most. -/
theorem spells_unique {j k : Keyword} (hj : j.spells w = true) (hk : k.spells w = true) :
    j = k := by
  apply name_injective
  rw [← upper_name j, ← upper_name k, ← Text.sameLetters_iff.1 hj, Text.sameLetters_iff.1 hk]

theorem spells_eq_false {j k : Keyword} (hj : j.spells w = true) (hne : k ≠ j) :
    k.spells w = false := by
  rw [← Bool.not_eq_true]
  exact fun hk => hne (spells_unique hk hj)

theorem ofText?_eq_some : ofText? w = some k ↔ k.spells w = true := by
  constructor
  · intro h
    have := List.find?_some h
    rw [spells, Text.sameLetters_iff, upper_name]
    simpa using (beq_iff_eq.1 this).symm
  · intro h
    rw [ofText?]
    cases hf : all.find? fun j => j.name == Text.upper w with
    | none =>
      have := List.find?_eq_none.1 hf k (mem_all k)
      rw [Text.sameLetters_iff.1 h, upper_name] at this
      simp at this
    | some j =>
      have hj := List.find?_some hf
      rw [beq_iff_eq, Text.sameLetters_iff.1 h, upper_name] at hj
      rw [name_injective hj]

/-- A keyword that a text spells also leads it. -/
theorem leads_of_spells (h : k.spells w = true) : k.leads w = true := by
  have hlen := Text.length_eq_of_sameLetters h
  rw [leads, ← hlen, List.take_length, List.drop_length, Bool.and_eq_true]
  exact ⟨h, rfl⟩

end Keyword

end SparqlTree
