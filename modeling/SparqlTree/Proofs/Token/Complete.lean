import SparqlTree.Lexeme
import SparqlTree.Proofs.Text.Trim

/-!
# Complete and open tokens

The texts that tokens can have. A token is complete unless it is a string or IRI reference that
the text ends in; so in a list of tokens that were read from a text only the last one can be open.
-/

namespace SparqlTree.Text

/-- The texts of complete tokens. -/
inductive IsToken : Text → Prop
  | openBrace : IsToken ['\x7b']
  | closeBrace : IsToken ['\x7d']
  | newline : IsToken ['\n']
  | carriageReturn : IsToken ['\r']
  | string (t : Text) : '"' ∉ t → IsToken ('"' :: t ++ ['"'])
  | iri (t : Text) : '>' ∉ t → IsToken ('<' :: t ++ ['>'])
  | word (w : Text) : w ≠ [] → (∀ c ∈ w, continuesWord c = true) → IsToken w

/-- The texts that begin a string or an IRI reference and do not end it. -/
inductive Unclosed : Text → Prop
  | string (t : Text) : '"' ∉ t → Unclosed ('"' :: t)
  | iri (t : Text) : '>' ∉ t → Unclosed ('<' :: t)

/-- The texts of tokens that were left open. -/
def IsOpen (w : Text) : Prop := Unclosed w ∧ trimEnd w = w

/-- A list of tokens as it can be read from a text. -/
inductive Scanned : List Text → Prop
  | nil : Scanned []
  | leftOpen {w : Text} : IsOpen w → Scanned [w]
  | cons {w : Text} {ws : List Text} : IsToken w → Scanned ws → Scanned (w :: ws)

/-- True of the two line breaks. -/
def isBreak (w : Text) : Bool := (TokenKind.classify w).isLineBreak

/-- True of texts that do not go on with a word that ends before them. -/
def Apart (t : Text) : Prop := ∀ c ∈ t.head?, continuesWord c = false

theorem apart_nil : Apart [] := fun _ hc => nomatch hc

theorem apart_cons {c : Char} (hc : continuesWord c = false) (t : Text) : Apart (c :: t) := by
  intro d hd
  rwa [← Option.some.inj hd]

/-! ## 1. Complete tokens -/

theorem IsToken.ne_nil {w : Text} (h : IsToken w) : w ≠ [] := by
  cases h with
  | word _ hne => exact hne
  | _ => exact List.cons_ne_nil _ _

/-- A token that begins with a word character is a word. -/
theorem IsToken.word_of_head {c : Char} {w : Text} (h : IsToken (c :: w))
    (hc : continuesWord c = true) : ∀ d ∈ c :: w, continuesWord d = true := by
  generalize hw : c :: w = v at h
  cases h with
  | word _ _ hall => exact hall
  | _ =>
    obtain ⟨rfl, -⟩ := List.cons_eq_cons.1 hw
    exact absurd hc (by decide)

/-- A token that ends with a word character is a word, unless that is the end of an IRI. -/
theorem IsToken.word_of_getLast {c : Char} {w : Text} (h : IsToken w) (hlast : w.getLast? = some c)
    (hc : continuesWord c = true) (hne : c ≠ '>') : ∀ d ∈ w, continuesWord d = true := by
  cases h with
  | word _ _ hall => exact hall
  | iri t =>
    rw [List.getLast?_concat] at hlast
    exact absurd (Option.some.inj hlast).symm hne
  | string t =>
    rw [List.getLast?_concat] at hlast
    obtain rfl := Option.some.inj hlast
    exact absurd hc (by decide)
  | _ =>
    obtain rfl := Option.some.inj hlast
    exact absurd hc (by decide)

theorem not_unclosed_of_isToken {w : Text} (h : IsToken w) : ¬ Unclosed w := by
  intro hu
  cases hu with
  | string t ht =>
    generalize hw : '"' :: t = v at h
    cases h with
    | string u hu =>
      obtain rfl : t = u ++ ['"'] := (List.cons_eq_cons.1 hw).2
      exact ht (by simp)
    | iri => nomatch hw
    | word _ _ hall => exact absurd (hall '"' (by simp [← hw])) (by decide)
    | _ => nomatch hw
  | iri t ht =>
    generalize hw : '<' :: t = v at h
    cases h with
    | string => nomatch hw
    | iri u hu =>
      obtain rfl : t = u ++ ['>'] := (List.cons_eq_cons.1 hw).2
      exact ht (by simp)
    | word _ _ hall => exact absurd (hall '<' (by simp [← hw])) (by decide)
    | _ => nomatch hw

/-- Only words have blanks at their ends, line breaks apart. -/
theorem IsToken.trimStart_eq {w : Text} (h : IsToken w) (hb : isBreak w = false) :
    trimStart w = w ∨ ∀ c ∈ w, continuesWord c = true := by
  cases h with
  | newline => nomatch hb
  | carriageReturn => nomatch hb
  | word _ _ hall => exact .inr hall
  | _ => exact .inl (trimStart_cons_letter (by decide))

theorem IsToken.trimEnd_eq {w : Text} (h : IsToken w) (hb : isBreak w = false) :
    trimEnd w = w ∨ ∀ c ∈ w, continuesWord c = true := by
  cases h with
  | newline => nomatch hb
  | carriageReturn => nomatch hb
  | word _ _ hall => exact .inr hall
  | openBrace => exact .inl (trimEnd_append_letter [] (by decide))
  | closeBrace => exact .inl (trimEnd_append_letter [] (by decide))
  | string t => exact .inl (trimEnd_append_letter ('"' :: t) (by decide))
  | iri t => exact .inl (trimEnd_append_letter ('<' :: t) (by decide))

theorem IsToken.trimStart {w : Text} (h : IsToken w) (hb : isBreak w = false)
    (hne : trimStart w ≠ []) : IsToken (trimStart w) := by
  rcases h.trimStart_eq hb with he | hall
  · rwa [he]
  · exact .word _ hne fun c hc => hall c (mem_of_mem_trimStart hc)

theorem IsToken.trimEnd {w : Text} (h : IsToken w) (hb : isBreak w = false)
    (hne : trimEnd w ≠ []) : IsToken (trimEnd w) := by
  rcases h.trimEnd_eq hb with he | hall
  · rwa [he]
  · exact .word _ hne fun c hc => hall c (mem_of_mem_trimEnd hc)

/-! ## 2. Kinds -/

theorem isBreak_iff {w : Text} : isBreak w = true ↔ w = ['\n'] ∨ w = ['\r'] := by
  constructor
  · intro h
    rw [isBreak, TokenKind.classify.eq_def] at h
    split at h
    all_goals first | exact .inl rfl | exact .inr rfl | nomatch h
  · rintro (rfl | rfl) <;> rfl

/-- A word is classified as one. -/
theorem classify_word {c : Char} {w : Text} (hc : continuesWord c = true) :
    TokenKind.classify (c :: w) = .word := by
  rw [TokenKind.classify.eq_def]
  split
  all_goals first | rfl | skip
  all_goals
    next h =>
      obtain ⟨rfl, -⟩ := List.cons_eq_cons.1 h
      exact absurd hc (by decide)

theorem classify_eq_openBrace {w : Text} : TokenKind.classify w = .openBrace ↔ w = ['\x7b'] := by
  constructor
  · intro h
    rw [TokenKind.classify.eq_def] at h
    split at h
    all_goals first | rfl | nomatch h
  · rintro rfl; rfl

theorem classify_eq_closeBrace {w : Text} :
    TokenKind.classify w = .closeBrace ↔ w = ['\x7d'] := by
  constructor
  · intro h
    rw [TokenKind.classify.eq_def] at h
    split at h
    all_goals first | rfl | nomatch h
  · rintro rfl; rfl

theorem classify_eq_newline {w : Text} : TokenKind.classify w = .newline ↔ w = ['\n'] := by
  constructor
  · intro h
    rw [TokenKind.classify.eq_def] at h
    split at h
    all_goals first | rfl | nomatch h
  · rintro rfl; rfl

theorem isBreak_of_word {w : Text} (hall : ∀ c ∈ w, continuesWord c = true) :
    isBreak w = false := by
  rw [← Bool.not_eq_true, isBreak_iff]
  rintro (rfl | rfl)
  · exact absurd (hall '\n' (by simp)) (by decide)
  · exact absurd (hall '\r' (by simp)) (by decide)

/-! ## 3. Lists of tokens -/

theorem Scanned.of_forall {ws : List Text} (h : ∀ w ∈ ws, IsToken w) : Scanned ws := by
  induction ws with
  | nil => exact .nil
  | cons w ws ih => exact .cons (h w (by simp)) (ih fun v hv => h v (by simp [hv]))

/-- Only the last token can be open. -/
theorem Scanned.head {w v : Text} {ws : List Text} (h : Scanned (w :: v :: ws)) : IsToken w := by
  cases h with
  | cons hw _ => exact hw

theorem Scanned.tail {w : Text} {ws : List Text} (h : Scanned (w :: ws)) : Scanned ws := by
  cases h with
  | leftOpen => exact .nil
  | cons _ hws => exact hws

theorem Scanned.isToken_or_isOpen {w : Text} {ws : List Text} (h : Scanned ws) (hw : w ∈ ws) :
    IsToken w ∨ IsOpen w := by
  induction h with
  | nil => nomatch hw
  | leftOpen hv =>
    rw [List.mem_singleton.1 hw]
    exact .inr hv
  | cons hv _ ih =>
    rcases List.mem_cons.1 hw with rfl | hw
    · exact .inl hv
    · exact ih hw

theorem Scanned.filter {ws : List Text} (h : Scanned ws) (p : Text → Bool) :
    Scanned (ws.filter p) := by
  induction h with
  | nil => exact .nil
  | @leftOpen w hw =>
    rw [List.filter_cons]
    split
    · exact .leftOpen hw
    · exact .nil
  | @cons w ws hw _ ih =>
    rw [List.filter_cons]
    split
    · exact .cons hw ih
    · exact ih

theorem Scanned.of_append_left {vs ws : List Text} (h : Scanned (vs ++ ws)) : Scanned vs := by
  induction vs with
  | nil => exact .nil
  | cons v vs ih =>
    cases vs with
    | nil =>
      cases h with
      | leftOpen hv => exact .leftOpen hv
      | cons hv _ => exact .cons hv .nil
    | cons u us => exact .cons h.head (ih h.tail)

theorem Scanned.of_append {vs ws : List Text} (h : Scanned (vs ++ ws)) : Scanned ws := by
  induction vs with
  | nil => exact h
  | cons v vs ih => exact ih h.tail

/-- What stands before other tokens is complete. -/
theorem Scanned.forall_of_append {vs ws : List Text} (h : Scanned (vs ++ ws)) (hne : ws ≠ []) :
    ∀ v ∈ vs, IsToken v := by
  induction vs with
  | nil => exact fun _ hv => nomatch hv
  | cons v vs ih =>
    have hv : IsToken v := by
      cases hr : vs ++ ws with
      | nil => exact absurd (List.append_eq_nil_iff.1 hr).2 hne
      | cons u us =>
        have h' : Scanned (v :: (vs ++ ws)) := h
        rw [hr] at h'
        exact h'.head
    rintro u hu
    rcases List.mem_cons.1 hu with rfl | hu
    · exact hv
    · exact ih h.tail u hu

end SparqlTree.Text
