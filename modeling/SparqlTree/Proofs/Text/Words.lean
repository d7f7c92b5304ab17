import Mathlib.Data.List.TakeWhile
import SparqlTree.Variable
import SparqlTree.Proofs.Text.Trim

/-!
# The words of a text

How blanks are written between words, and how many of them, does not change the words
(`words_append_blank`). The words of a text are its longest runs of characters that are not blank
(`mem_words_iff`). A text can be written again with one space between its words and nothing around
them (`respaced`); that tells two texts apart exactly if they have different words.
-/

namespace SparqlTree.Text

/-- The words of a text with a single space between neighbours. -/
def respaced (t : Text) : Text := spaced t.words

/-- True of the longest runs of characters of a text that are not blank: next to one there is a
blank, or an end of the text. -/
def IsWordOf (w t : Text) : Prop :=
  ∃ before after, t = before ++ w ++ after ∧ w ≠ [] ∧ (∀ c ∈ w, isBlank c = false) ∧
    (∀ c ∈ before.getLast?, isBlank c = true) ∧ ∀ c ∈ after.head?, isBlank c = true

/-! ## 1. Words and blanks -/

@[simp] theorem words_nil : words [] = [] := by rw [words]

theorem words_cons_blank {c : Char} (hc : isBlank c = true) (t : Text) :
    words (c :: t) = words t := by rw [words, if_pos hc]

theorem words_cons_letter {c : Char} (hc : isBlank c = false) (t : Text) :
    words (c :: t) = (c :: t.takeWhile (!isBlank ·)) :: words (t.dropWhile (!isBlank ·)) := by
  rw [words, if_neg (by rw [hc]; decide)]

/-- A word ends before a blank. -/
theorem takeWhile_append_blank (s : Text) {c : Char} (hc : isBlank c = true) (t : Text) :
    (s ++ c :: t).takeWhile (!isBlank ·) = s.takeWhile (!isBlank ·) ∧
      (s ++ c :: t).dropWhile (!isBlank ·) = s.dropWhile (!isBlank ·) ++ c :: t := by
  induction s with
  | nil => simp [hc]
  | cons d s ih => by_cases hd : isBlank d = true <;> simp [hd, ih]

/-- A blank divides the words before it from those behind it. -/
theorem words_append_blank (s : Text) {c : Char} (hc : isBlank c = true) (t : Text) :
    words (s ++ c :: t) = words s ++ words t := by
  induction s using words.induct with
  | case1 => rw [List.nil_append, words_cons_blank hc, words_nil, List.nil_append]
  | case2 d s hd ih => rw [List.cons_append, words_cons_blank hd, ih, words_cons_blank hd]
  | case3 d s hd ih =>
    rw [Bool.not_eq_true] at hd
    obtain ⟨htake, hdrop⟩ := takeWhile_append_blank s hc t
    rw [List.cons_append, words_cons_letter hd, htake, hdrop, ih, words_cons_letter hd,
      List.cons_append]

theorem words_of_allBlank {b : Text} (hb : AllBlank b) : words b = [] := by
  induction b with
  | nil => exact words_nil
  | cons c b ih =>
    obtain ⟨hc, hb⟩ := List.forall_mem_cons.1 hb
    rw [words_cons_blank hc, ih hb]

theorem words_blank_append {b : Text} (hb : AllBlank b) (t : Text) :
    words (b ++ t) = words t := by
  induction b with
  | nil => rfl
  | cons c b ih =>
    obtain ⟨hc, hb⟩ := List.forall_mem_cons.1 hb
    rw [List.cons_append, words_cons_blank hc, ih hb]

theorem words_append_allBlank {b : Text} (hb : AllBlank b) (t : Text) :
    words (t ++ b) = words t := by
  cases b with
  | nil => rw [List.append_nil]
  | cons c b =>
    obtain ⟨hc, hb⟩ := List.forall_mem_cons.1 hb
    rw [words_append_blank t hc, words_of_allBlank hb, List.append_nil]

theorem words_trim (t : Text) : words (trim t) = words t := by
  obtain ⟨b, hb, ht⟩ := exists_append_trimStart t
  obtain ⟨b', hb', ht'⟩ := exists_trimEnd_append (trimStart t)
  calc words (trim t) = words (trim t ++ b') := (words_append_allBlank hb' _).symm
    _ = words (trimStart t) := by rw [trim, ← ht']
    _ = words (b ++ trimStart t) := (words_blank_append hb _).symm
    _ = words t := by rw [← ht]

/-- Only blank texts have no words. -/
theorem words_eq_nil {t : Text} : words t = [] ↔ trim t = [] := by
  rw [trim_eq_nil]
  refine ⟨fun h => ?_, words_of_allBlank⟩
  induction t with
  | nil => exact fun _ hc => nomatch hc
  | cons c t ih =>
    by_cases hc : isBlank c = true
    · rw [words_cons_blank hc] at h
      exact List.forall_mem_cons.2 ⟨hc, ih h⟩
    · rw [Bool.not_eq_true] at hc
      rw [words_cons_letter hc] at h
      nomatch h

/-! ## 2. Longest runs -/

theorem mem_words {t w : Text} (h : w ∈ words t) : w ≠ [] ∧ ∀ c ∈ w, isBlank c = false := by
  induction t using words.induct with
  | case1 =>
    rw [words_nil] at h
    nomatch h
  | case2 d t hd ih =>
    rw [words_cons_blank hd] at h
    exact ih h
  | case3 d t hd ih =>
    rw [Bool.not_eq_true] at hd
    rw [words_cons_letter hd] at h
    rcases List.mem_cons.1 h with rfl | h
    · refine ⟨List.cons_ne_nil _ _, List.forall_mem_cons.2 ⟨hd, fun c hc => ?_⟩⟩
      simpa using List.all_eq_true.1 List.all_takeWhile c hc
    · exact ih h

theorem words_word {w : Text} (hne : w ≠ []) (hw : ∀ c ∈ w, isBlank c = false) :
    words w = [w] := by
  cases w with
  | nil => exact absurd rfl hne
  | cons c w =>
    obtain ⟨hc, hw⟩ := List.forall_mem_cons.1 hw
    have hall : ∀ d ∈ w, (!isBlank d) = true := fun d hd => by rw [hw d hd]; rfl
    rw [words_cons_letter hc, List.takeWhile_eq_self_iff.2 hall, List.dropWhile_eq_nil_iff.2 hall,
      words_nil]

/-- A word can be found again in a longer text, if a blank is what is written next to it. -/
theorem IsWordOf.append_left {s t w : Text} (h : IsWordOf w t)
    (hblank : (∀ c ∈ s.getLast?, isBlank c = true) ∨ ∀ c ∈ t.head?, isBlank c = true) :
    IsWordOf w (s ++ t) := by
  obtain ⟨before, after, rfl, hne, hw, hbefore, hafter⟩ := h
  refine ⟨s ++ before, after, by simp only [List.append_assoc], hne, hw, fun c hc => ?_, hafter⟩
  cases before with
  | nil =>
    rw [List.append_nil] at hc
    rcases hblank with hs | ht
    · exact hs c hc
    · -- The text begins with the word, and so not with a blank.
      obtain ⟨d, w, rfl⟩ := List.exists_cons_of_ne_nil hne
      have hd := hw d List.mem_cons_self
      rw [ht d rfl] at hd
      nomatch hd
  | cons d before =>
    rw [List.getLast?_append, List.getLast?_eq_some_getLast (List.cons_ne_nil d before),
      Option.some_or, ← List.getLast?_eq_some_getLast] at hc
    exact hbefore c hc

theorem isWordOf_of_mem_words {w t : Text} (h : w ∈ words t) : IsWordOf w t := by
  induction t using words.induct with
  | case1 =>
    rw [words_nil] at h
    nomatch h
  | case2 d t hd ih =>
    rw [words_cons_blank hd] at h
    refine (ih h).append_left (s := [d]) (.inl fun c hc => ?_)
    rwa [← Option.some.inj hc]
  | case3 d t hd ih =>
    have hnot := mem_words h
    rw [Bool.not_eq_true] at hd
    have hsplit : d :: t = d :: t.takeWhile (!isBlank ·) ++ t.dropWhile (!isBlank ·) := by
      rw [List.cons_append, List.takeWhile_append_dropWhile]
    have hdrop : ∀ c ∈ (t.dropWhile (!isBlank ·)).head?, isBlank c = true := by
      intro c hc
      have hstop := List.head?_dropWhile_not (!isBlank ·) t
      rw [Option.mem_def.1 hc] at hstop
      simpa using hstop
    rw [words_cons_letter hd] at h
    rcases List.mem_cons.1 h with rfl | h
    · exact ⟨[], _, hsplit, hnot.1, hnot.2, (fun _ hc => nomatch hc), hdrop⟩
    · rw [hsplit]
      exact (ih h).append_left (.inr hdrop)

/-- Two texts put together have the words of both, if a blank is written where they meet. -/
theorem words_append {s t : Text}
    (h : (∀ c ∈ s.getLast?, isBlank c = true) ∨ ∀ c ∈ t.head?, isBlank c = true) :
    words (s ++ t) = words s ++ words t := by
  rcases h with hs | ht
  · obtain rfl | ⟨s, c, rfl⟩ := List.eq_nil_or_concat s
    · rw [List.nil_append, words_nil, List.nil_append]
    · rw [List.concat_eq_append] at hs ⊢
      have hc : isBlank c = true := hs c (by rw [List.getLast?_concat]; rfl)
      rw [List.append_assoc, List.singleton_append, words_append_blank s hc,
        words_append_blank s hc, words_nil, List.append_nil]
  · cases t with
    | nil => rw [List.append_nil, words_nil, List.append_nil]
    | cons c t => rw [words_append_blank s (ht c rfl), words_cons_blank (ht c rfl)]

/-- The words of a text are the longest runs of characters that are not blank. -/
theorem mem_words_iff {w t : Text} : w ∈ words t ↔ IsWordOf w t := by
  refine ⟨isWordOf_of_mem_words, ?_⟩
  rintro ⟨before, after, rfl, hne, hw, hbefore, hafter⟩
  rw [words_append (.inr hafter), words_append (.inl hbefore), words_word hne hw]
  simp

/-! ## 3. Writing words again -/

theorem words_spaced {ws : List Text} (h : ∀ w ∈ ws, w ≠ [] ∧ ∀ c ∈ w, isBlank c = false) :
    words (spaced ws) = ws := by
  induction ws with
  | nil => exact words_nil
  | cons w ws ih =>
    obtain ⟨⟨hne, hw⟩, h⟩ := List.forall_mem_cons.1 h
    cases ws with
    | nil => rw [spaced_singleton, words_word hne hw]
    | cons v vs =>
      rw [spaced_cons (List.cons_ne_nil v vs), words_append_blank w (by decide),
        words_word hne hw, ih h]
      rfl

theorem words_respaced (t : Text) : words (respaced t) = words t :=
  words_spaced fun _ hw => mem_words hw

/-- Texts are respaced alike exactly if they have the same words. -/
theorem respaced_eq_iff {s t : Text} : respaced s = respaced t ↔ words s = words t := by
  constructor
  · intro h
    rw [← words_respaced s, h, words_respaced]
  · intro h
    rw [respaced, h, respaced]

theorem variableNames_respaced (t : Text) : (respaced t).variableNames = t.variableNames := by
  rw [variableNames, words_respaced, variableNames]

end SparqlTree.Text
