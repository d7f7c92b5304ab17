import SparqlTree.Proofs.Text.Words
import SparqlTree.Statement.Variables

/-!
# The variables of a text

A text mentions the variables that its words mention, and what a word mentions can be read off how
it is put together (`mentioned?_eq_some`): opening parentheses and exclamation marks, a question
mark, the name, and something that does not go on with the name. Words end at blanks, so the
variables of a text can be collected from its parts (`variableNames_append_blank`).
-/

namespace SparqlTree

/-- True of texts that can be the name of a variable. -/
def IsName (name : Text) : Prop := name ≠ [] ∧ ∀ c ∈ name, isNameChar c = true

namespace Text

/-- The words that mention the variable of this name. -/
inductive MentionsVariable (name : Text) : Text → Prop
  | mk {opening rest : Text} : (∀ c ∈ opening, c = '(' ∨ c = '!') → IsName name →
    (∀ c ∈ rest.head?, isNameChar c = false) →
    MentionsVariable name (opening ++ '?' :: (name ++ rest))

variable {name w : Text}

/-! ## 1. The variable of a word -/

theorem opensVariable_iff {c : Char} : opensVariable c = true ↔ c = '(' ∨ c = '!' := by
  rw [opensVariable, Bool.or_eq_true, beq_iff_eq, beq_iff_eq]

theorem mentioned?_append {opening : Text} (h : ∀ c ∈ opening, opensVariable c = true) (w : Text) :
    mentioned? (opening ++ w) = mentioned? w := by
  rw [mentioned?, List.dropWhile_append_of_pos h, mentioned?]

theorem mentioned?_sigil (t : Text) : mentioned? ('?' :: t) =
    if t.takeWhile isNameChar = [] then none else some (t.takeWhile isNameChar) := by
  rw [mentioned?, List.dropWhile_cons_of_neg (by decide)]
  rfl

/-- A name ends before the first character that cannot be part of it. -/
theorem takeWhile_isNameChar {rest : Text} (h : IsName name)
    (hrest : ∀ c ∈ rest.head?, isNameChar c = false) :
    (name ++ rest).takeWhile isNameChar = name := by
  rw [List.takeWhile_append_of_pos h.2]
  cases rest with
  | nil => rw [List.takeWhile_nil, List.append_nil]
  | cons c rest =>
    rw [List.takeWhile_cons_of_neg (by rw [hrest c rfl]; decide), List.append_nil]

theorem mentioned?_of_mentionsVariable (h : MentionsVariable name w) :
    mentioned? w = some name := by
  obtain ⟨hopening, hname, hrest⟩ := h
  rw [mentioned?_append fun c hc => opensVariable_iff.2 (hopening c hc), mentioned?_sigil,
    takeWhile_isNameChar hname hrest, if_neg hname.1]

theorem mentionsVariable_of_mentioned? (h : mentioned? w = some name) :
    MentionsVariable name w := by
  have hopening : ∀ c ∈ w.takeWhile opensVariable, c = '(' ∨ c = '!' := fun c hc =>
    opensVariable_iff.1 (List.all_eq_true.1 List.all_takeWhile c hc)
  rw [mentioned?] at h
  split at h
  · next t ht =>
    by_cases hne : t.takeWhile isNameChar = []
    · rw [if_pos hne] at h
      nomatch h
    · rw [if_neg hne] at h
      obtain rfl := Option.some.inj h
      -- The word is what was dropped in front, the question mark, the name and what is left.
      have hw : w = w.takeWhile opensVariable ++
          '?' :: (t.takeWhile isNameChar ++ t.dropWhile isNameChar) := by
        rw [List.takeWhile_append_dropWhile, ← ht, List.takeWhile_append_dropWhile]
      have hrest : ∀ c ∈ (t.dropWhile isNameChar).head?, isNameChar c = false := by
        intro c hc
        have hstop := List.head?_dropWhile_not isNameChar t
        rw [Option.mem_def.1 hc] at hstop
        simpa using hstop
      rw [hw]
      exact .mk hopening ⟨hne, fun c hc => List.all_eq_true.1 List.all_takeWhile c hc⟩ hrest
  · nomatch h

/-- What a word mentions is the variable that it is written for. -/
theorem mentioned?_eq_some : mentioned? w = some name ↔ MentionsVariable name w :=
  ⟨mentionsVariable_of_mentioned?, mentioned?_of_mentionsVariable⟩

/-! ## 2. The variables of a text -/

theorem mem_variableNames_iff {t : Text} :
    name ∈ t.variableNames ↔ ∃ w, IsWordOf w t ∧ MentionsVariable name w := by
  rw [variableNames, NameSet.mem_ofList, List.mem_filterMap]
  simp only [mem_words_iff, mentioned?_eq_some]

/-- The variables on the two sides of a blank are collected separately. -/
theorem variableNames_append_blank (s : Text) {c : Char} (hc : isBlank c = true) (t : Text) :
    (s ++ c :: t).variableNames = s.variableNames ∪ t.variableNames := by
  ext x
  rw [NameSet.mem_union, variableNames, words_append_blank s hc, List.filterMap_append,
    NameSet.mem_ofList, List.mem_append, variableNames, NameSet.mem_ofList, variableNames,
    NameSet.mem_ofList]

theorem variableNames_trim (t : Text) : t.trim.variableNames = t.variableNames := by
  rw [variableNames, words_trim, variableNames]

/-- The variables of a text are those that one of its words is written for; those of two texts with
a blank between are those of either text, and a statement has those of the text it is made of. -/
theorem variableNames_laws :
    (∀ t name : Text, name ∈ t.variableNames ↔ ∃ w, IsWordOf w t ∧ MentionsVariable name w) ∧
      (∀ (s : Text) (c : Char) (t : Text), isBlank c = true →
        (s ++ c :: t).variableNames = s.variableNames ∪ t.variableNames) ∧
      ∀ t : Text, (Statement.ofText t).unknowns = t.variableNames := by
  refine ⟨fun _ _ => mem_variableNames_iff, fun s c t hc => variableNames_append_blank s hc t, ?_⟩
  intro t
  rw [Statement.ofText, Statement.unknowns, variableNames_trim]

/-- A no-break space ends the first word, a comma the name in the second. -/
theorem variableNames_laws_filter : isBlank '\u00a0' = true ∧
    variableNames ("(!?age".toList ++ '\u00a0' :: "?b_1,?c".toList) =
      .ofList ["age".toList, "b_1".toList] := by
  have hblank : isBlank '\u00a0' = true := by decide
  refine ⟨hblank, ?_⟩
  rw [variableNames_laws.2.1 _ _ _ hblank]
  decide +kernel

end Text

end SparqlTree
