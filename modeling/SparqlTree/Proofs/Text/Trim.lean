import SparqlTree.Text.Blank

/-!
# Trimming

Blanks are dropped from the ends of a text and nowhere else. The two appending rules,
`trimStart_append` and `trimEnd_append`, say what trimming does to a text that is put together from
pieces; everything else here follows from them.
-/

namespace SparqlTree.Text

/-- True of texts in which there is nothing but blanks. -/
def AllBlank (t : Text) : Prop := ∀ c ∈ t, isBlank c = true

/-! ## 1. At the start -/

@[simp] theorem trimStart_nil : trimStart [] = [] := rfl

theorem trimStart_cons_blank {c : Char} {t : Text} (hc : isBlank c = true) :
    trimStart (c :: t) = trimStart t := by
  rw [trimStart, List.dropWhile_cons_of_pos hc]
  rfl

theorem trimStart_cons_letter {c : Char} {t : Text} (hc : isBlank c = false) :
    trimStart (c :: t) = c :: t := by
  rw [trimStart, List.dropWhile_cons_of_neg (by rw [hc]; decide)]

theorem trimStart_eq_nil {t : Text} : trimStart t = [] ↔ AllBlank t := by
  induction t with
  | nil => simp [AllBlank]
  | cons c t ih =>
    by_cases hc : isBlank c = true
    · rw [trimStart_cons_blank hc, ih]
      simp [AllBlank, hc]
    · rw [trimStart_cons_letter (by simpa using hc)]
      simp [AllBlank, hc]

theorem trimStart_append (s t : Text) :
    trimStart (s ++ t) = if trimStart s = [] then trimStart t else trimStart s ++ t := by
  have h : trimStart (s ++ t) =
      if (trimStart s).isEmpty then trimStart t else trimStart s ++ t := List.dropWhile_append
  rw [h]
  by_cases hs : trimStart s = []
  · rw [if_pos hs, if_pos (by rw [hs]; rfl)]
  · rw [if_neg hs, if_neg (by rwa [List.isEmpty_iff])]

/-- What is left begins with a letter. -/
theorem head_trimStart {c : Char} {t u : Text} (h : trimStart t = c :: u) : isBlank c = false := by
  have hd := List.head?_dropWhile_not isBlank t
  rw [show t.dropWhile isBlank = c :: u from h] at hd
  simpa using hd

theorem trimStart_trimStart (t : Text) : trimStart (trimStart t) = trimStart t := by
  cases h : trimStart t with
  | nil => rfl
  | cons c u => exact trimStart_cons_letter (head_trimStart h)

/-- What is dropped is blank. -/
theorem exists_append_trimStart (t : Text) : ∃ b, AllBlank b ∧ t = b ++ trimStart t :=
  ⟨t.takeWhile isBlank, fun _ hc => List.all_eq_true.1 List.all_takeWhile _ hc,
    List.takeWhile_append_dropWhile.symm⟩

theorem mem_of_mem_trimStart {c : Char} {t : Text} (h : c ∈ trimStart t) : c ∈ t :=
  (List.dropWhile_sublist isBlank).subset h

/-! ## 2. At the end -/

@[simp] theorem trimEnd_nil : trimEnd [] = [] := rfl

theorem trimEnd_eq_reverse (t : Text) : trimEnd t = (trimStart t.reverse).reverse := rfl

theorem trimEnd_eq_nil {t : Text} : trimEnd t = [] ↔ AllBlank t := by
  rw [trimEnd_eq_reverse, List.reverse_eq_nil_iff, trimStart_eq_nil]
  simp [AllBlank]

theorem trimEnd_append (s t : Text) :
    trimEnd (s ++ t) = if trimEnd t = [] then trimEnd s else s ++ trimEnd t := by
  rw [trimEnd_eq_reverse, List.reverse_append, trimStart_append, trimEnd_eq_reverse t]
  by_cases ht : trimStart t.reverse = []
  · rw [if_pos ht, if_pos (by rw [ht]; rfl), trimEnd_eq_reverse]
  · rw [if_neg ht, if_neg (by rwa [List.reverse_eq_nil_iff]), List.reverse_append,
      List.reverse_reverse]

theorem trimEnd_append_letter (s : Text) {c : Char} (hc : isBlank c = false) :
    trimEnd (s ++ [c]) = s ++ [c] := by
  rw [trimEnd_eq_reverse, List.reverse_append, List.reverse_singleton, List.singleton_append,
    trimStart_cons_letter hc, List.reverse_cons, List.reverse_reverse]

theorem trimEnd_append_blank (s : Text) {c : Char} (hc : isBlank c = true) :
    trimEnd (s ++ [c]) = trimEnd s := by
  rw [trimEnd_append, if_pos (trimEnd_eq_nil.2 (by simpa [AllBlank] using hc))]

/-- A letter at the start is not lost at the end. -/
theorem trimEnd_cons_letter {c : Char} {t : Text} (hc : isBlank c = false) :
    trimEnd (c :: t) = c :: trimEnd t := by
  rw [← List.singleton_append, trimEnd_append]
  split
  · next h => rw [h]; exact trimEnd_append_letter [] hc
  · rfl

theorem trimEnd_trimEnd (t : Text) : trimEnd (trimEnd t) = trimEnd t := by
  rw [trimEnd_eq_reverse, trimEnd_eq_reverse t, List.reverse_reverse, trimStart_trimStart]

/-- What is dropped is blank. -/
theorem exists_trimEnd_append (t : Text) : ∃ b, AllBlank b ∧ t = trimEnd t ++ b := by
  obtain ⟨b, hb, ht⟩ := exists_append_trimStart t.reverse
  refine ⟨b.reverse, by simpa [AllBlank] using hb, ?_⟩
  rw [trimEnd_eq_reverse, ← List.reverse_append, ← ht, List.reverse_reverse]

/-- What is left ends with a letter. -/
theorem getLast_trimEnd {c : Char} {t u : Text} (h : trimEnd t = u ++ [c]) : isBlank c = false := by
  have hr : trimStart t.reverse = c :: u.reverse := by
    rw [← List.reverse_reverse (trimStart t.reverse), ← trimEnd_eq_reverse, h]
    simp
  exact head_trimStart hr

theorem mem_of_mem_trimEnd {c : Char} {t : Text} (h : c ∈ trimEnd t) : c ∈ t := by
  rw [trimEnd_eq_reverse, List.mem_reverse] at h
  exact List.mem_reverse.1 (mem_of_mem_trimStart h)

/-! ## 3. At both ends -/

theorem trim_cons_blank {c : Char} {t : Text} (hc : isBlank c = true) : trim (c :: t) = trim t := by
  rw [trim, trimStart_cons_blank hc, trim]

theorem trim_eq_nil {t : Text} : trim t = [] ↔ AllBlank t := by
  rw [trim, trimEnd_eq_nil, ← trimStart_eq_nil, trimStart_trimStart, trimStart_eq_nil]

theorem trim_trim (t : Text) : trim (trim t) = trim t := by
  rw [trim, trim]
  cases h : trimStart t with
  | nil => rfl
  | cons c u =>
    have hc := head_trimStart h
    rw [trimEnd_cons_letter hc, trimStart_cons_letter hc, ← trimEnd_cons_letter hc, trimEnd_trimEnd]

end SparqlTree.Text
