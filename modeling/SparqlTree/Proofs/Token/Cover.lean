import SparqlTree.Proofs.Token.Lexing

/-!
# The tokens of a text cover it

Every token stands at its span, the spans are disjoint and in order, and whatever lies between them
is a blank, a comment or the white space cut off a string or IRI reference that is never closed.
A text is taken apart from its beginning: a piece in front, which is a blank, a comment or a
complete token, and the tokens of the rest, shifted by the length of that piece (`pieceCases`).
-/

namespace SparqlTree

namespace Text

/-- The characters at which a word ends. -/
def wordEnds : List Char := [' ', '\t', '\r', '\n', '\x7b', '\x7d', '"', '<', '#']

/-- No token of the list has the byte `n` in its span. -/
def Between (us : List Token) (n : Nat) : Prop :=
  ∀ u ∈ us, ¬ (u.span.first ≤ n ∧ n < u.span.last)

/-- Why the character `c` between `before` and `after` is in none of the tokens. -/
inductive Gap (us : List Token) (before : Text) (c : Char) (after : Text) : Prop
  | blank : c = ' ' ∨ c = '\t' → Gap us before c after
  /-- It is in a comment: at or behind a `#` outside of all tokens, in the same line. -/
  | comment {b s : Text} : before ++ [c] = b ++ '#' :: s → Between us (byteLength b) →
    (∀ d ∈ s, d ≠ '\r' ∧ d ≠ '\n') → Gap us before c after
  /-- It is in the white space behind a string or IRI reference that is never closed. -/
  | trimmed {b s : Text} {u : Token} : before = b ++ s → u ∈ us → Unclosed u.text →
    byteLength b = u.span.last → AllBlank (s ++ c :: after) → Gap us before c after

/-- A word with these texts before and after it cannot be made longer. To the left of it there may
only be something else than a character of a word, or the end of an IRI reference. -/
structure Isolated (us : List Token) (before after : Text) : Prop where
  left : ∀ c ∈ before.getLast?, c ∈ wordEnds ∨
    c = '>' ∧ ∃ u ∈ us, u.kind = .iri ∧ u.span.last = byteLength before
  right : ∀ c ∈ after.head?, c ∈ wordEnds

end Text

namespace TokenKind

/-- The texts that tokens of a kind have. -/
def Shape : TokenKind → Text → Prop
  | openBrace, w => w = ['\x7b']
  | closeBrace, w => w = ['\x7d']
  | newline, w => w = ['\n']
  | carriageReturn, w => w = ['\r']
  | string, w => ∃ x, '"' ∉ x ∧ (w = '"' :: x ∨ w = '"' :: x ++ ['"'])
  | iri, w => ∃ x, '>' ∉ x ∧ (w = '<' :: x ∨ w = '<' :: x ++ ['>'])
  | word, w => w ≠ [] ∧ ∀ c ∈ w, c ∉ Text.wordEnds

end TokenKind

namespace Token

/-- The token stands in a text between `before` and `after`. -/
structure At (t : Text) (u : Token) (before after : Text) : Prop where
  text : t = before ++ u.text ++ after
  first : u.span.first = Text.byteLength before
  last : u.span.last = Text.byteLength before + Text.byteLength u.text

/-- The token `n` bytes further on. -/
def shift (n : Nat) (u : Token) : Token := { u with span := ⟨n + u.span.first, n + u.span.last⟩ }

@[simp] theorem shift_kind (n : Nat) (u : Token) : (u.shift n).kind = u.kind := rfl

@[simp] theorem shift_text (n : Nat) (u : Token) : (u.shift n).text = u.text := rfl

@[simp] theorem shift_first (n : Nat) (u : Token) : (u.shift n).span.first = n + u.span.first := rfl

@[simp] theorem shift_last (n : Nat) (u : Token) : (u.shift n).span.last = n + u.span.last := rfl

theorem At.shift {t before after : Text} {u : Token} (h : u.At t before after) (g : Text) :
    (u.shift (Text.byteLength g)).At (g ++ t) (g ++ before) after where
  text := by rw [h.text, shift_text]; simp
  first := by rw [shift_first, h.first, Text.byteLength_append]
  last := by rw [shift_last, h.last, Text.byteLength_append, shift_text]; omega

end Token

/-- The tokens cover the text exactly. -/
structure Covers (us : List Token) (t : Text) : Prop where
  /-- No span is empty. -/
  nonempty : ∀ u ∈ us, u.span.first < u.span.last
  /-- Each span ends before the ones behind it begin. -/
  ordered : us.Pairwise fun u v => u.span.last ≤ v.span.first
  /-- Each token stands at its span, and each word has been read to its end. -/
  placed : ∀ u ∈ us, ∃ before after, u.At t before after ∧
    (u.kind = .word → Text.Isolated us before after)
  /-- Every byte that is in no span belongs to a character for which there is a reason. -/
  gaps : ∀ n < Text.byteLength t, Text.Between us n → ∃ before c after, t = before ++ c :: after ∧
    Text.byteLength before ≤ n ∧ n < Text.byteLength before + c.utf8Size ∧
    Text.Gap us before c after
  /-- A comment has no tokens in it. -/
  comments : ∀ b s c after, t = b ++ '#' :: s ++ c :: after → Text.Between us (Text.byteLength b) →
    (∀ d ∈ s ++ [c], d ≠ '\r' ∧ d ≠ '\n') → Text.Between us (Text.byteLength (b ++ '#' :: s))
  /-- The text of a token is one of those of its kind. -/
  shapes : ∀ u ∈ us, u.kind.Shape u.text
  /-- Only the last token can be a string or IRI reference that is never closed. -/
  closed : ∀ vs u ws, us = vs ++ u :: ws → Text.Unclosed u.text → ws = []

namespace Text

/-! ## 1. A piece and the rest -/

theorem place_shift (m n : Nat) (ls : List Lexeme) :
    Lexeme.place (m + n) ls = (Lexeme.place n ls).map (Token.shift m) := by
  induction ls generalizing n with
  | nil => rfl
  | cons l ls ih =>
    rw [Lexeme.place, Lexeme.place, Nat.add_assoc, ih]
    cases l.kind with
    | none => rfl
    | some k => simp [Token.shift, Nat.add_assoc]

/-- The texts `g` that may stand in front of a text `t` as its first piece, with the tokens in
them. -/
inductive Piece : List Token → Text → Text → Prop
  | blank {c : Char} {t : Text} : c = ' ' ∨ c = '\t' → Piece [] [c] t
  | comment {s t : Text} : (∀ c ∈ s, endsLine c = false) → (∀ c ∈ t.head?, endsLine c = true) →
    Piece [] ('#' :: s) t
  | token {w t : Text} : IsToken w → ((∀ c ∈ w, continuesWord c = true) → Apart t) →
    Piece [⟨TokenKind.classify w, w, ⟨0, byteLength w⟩⟩] w t

theorem tokenize_piece {us : List Token} {g t : Text} (h : Piece us g t) :
    tokenize (g ++ t) = us ++ (tokenize t).map (Token.shift (byteLength g)) := by
  cases h with
  | @blank c t hc =>
    rw [List.singleton_append, tokenize, ofText_blank hc, tokenize, ← place_shift]
    simp [Lexeme.place]
  | comment hs ht =>
    rw [tokenize, ofText_comment hs ht, tokenize, ← place_shift]
    simp [Lexeme.place]
  | token hw ht =>
    rw [tokenize, ofText_append hw ht, tokenize, ← place_shift, Lexeme.place]
    simp [kept_isToken hw]

theorem tokenize_unclosed {w : Text} (hw : Unclosed w) : tokenize w =
    [⟨TokenKind.classify w, trimEnd w, ⟨0, byteLength (trimEnd w)⟩⟩] := by
  rw [tokenize, ofText_unclosed hw, Lexeme.place]
  simp [kept_unclosed hw, Lexeme.place]

/-- Induction over a text and its tokens, one piece at a time. -/
theorem pieceCases {motive : Text → List Token → Prop} (nil : motive [] [])
    (piece : ∀ us g t, Piece us g t → motive t (tokenize t) →
      motive (g ++ t) (us ++ (tokenize t).map (Token.shift (byteLength g))))
    (unclosed : ∀ w, Unclosed w →
      motive w [⟨TokenKind.classify w, trimEnd w, ⟨0, byteLength (trimEnd w)⟩⟩])
    (t : Text) : motive t (tokenize t) := by
  induction t using lexCases with
  | nil => rwa [tokenize, Lexeme.ofText]
  | blank c t hc ih =>
    have h := tokenize_piece (.blank (t := t) hc)
    rw [List.singleton_append] at h
    rw [h]
    exact piece _ _ _ (.blank hc) ih
  | comment s t hs ht ih =>
    rw [tokenize_piece (.comment hs ht)]
    exact piece _ _ _ (.comment hs ht) ih
  | token w t hw ht ih =>
    rw [tokenize_piece (.token hw ht)]
    exact piece _ _ _ (.token hw ht) ih
  | unclosed w hw =>
    rw [tokenize_unclosed hw]
    exact unclosed w hw

/-- The token of a piece, if there is one, is all of it. -/
theorem Piece.span {us : List Token} {g t : Text} {u : Token} (h : Piece us g t) (hu : u ∈ us) :
    u.span = ⟨0, byteLength g⟩ := by
  cases h with
  | token =>
    rw [List.mem_singleton] at hu
    rw [hu]
  | _ => nomatch hu

/-- What is free behind a piece was free in the rest. -/
theorem Piece.between {us vs : List Token} {g t : Text} {n : Nat} (h : Piece us g t) :
    Between (us ++ vs.map (Token.shift (byteLength g))) (byteLength g + n) ↔ Between vs n := by
  constructor
  · intro hn v hv hin
    apply hn _ (List.mem_append_right _ (List.mem_map_of_mem hv))
    rw [Token.shift_first, Token.shift_last]
    omega
  · intro hn v hv hin
    rcases List.mem_append.1 hv with hv | hv
    · have hlast := hin.2
      rw [h.span hv] at hlast
      exact absurd hlast (Nat.not_lt.2 (Nat.le_add_right _ _))
    · obtain ⟨u, hu, rfl⟩ := List.mem_map.1 hv
      rw [Token.shift_first, Token.shift_last] at hin
      exact hn u hu (by omega)

/-! ## 2. The tokens stand at their spans -/

/-- Of two pieces that begin the same list, one begins the other. -/
theorem append_eq_append_cons {α : Type} {g t b s : List α} {c : α} (h : g ++ t = b ++ c :: s) :
    (∃ m, b = g ++ m ∧ t = m ++ c :: s) ∨ ∃ m, g = b ++ c :: m ∧ s = m ++ t := by
  rcases List.append_eq_append_iff.1 h with ⟨m, hb, ht⟩ | ⟨m, hg, hs⟩
  · exact .inl ⟨m, hb, ht⟩
  · cases m with
    | nil => exact .inl ⟨[], by simpa using hg.symm, by simpa using hs.symm⟩
    | cons d m =>
      obtain ⟨rfl, rfl⟩ := List.cons_eq_cons.1 hs
      exact .inr ⟨m, hg, rfl⟩

theorem byteLength_pos {t : Text} (h : t ≠ []) : 0 < byteLength t := by
  cases t with
  | nil => exact absurd rfl h
  | cons c t =>
    have := c.utf8Size_pos
    rw [byteLength_cons]
    omega

theorem ordered_tokenize (t : Text) :
    (tokenize t).Pairwise fun u v => u.span.last ≤ v.span.first := by
  induction t using pieceCases with
  | nil => exact .nil
  | piece us g t hp ih =>
    rw [List.pairwise_append]
    refine ⟨?_, ?_, ?_⟩
    · cases hp with
      | token => exact List.pairwise_singleton _ _
      | _ => exact .nil
    · rw [List.pairwise_map]
      exact ih.imp fun h => by simpa using h
    · intro u hu v hv
      obtain ⟨w, -, rfl⟩ := List.mem_map.1 hv
      rw [hp.span hu, Token.shift_first]
      exact Nat.le_add_right _ _
  | unclosed w => exact List.pairwise_singleton _ _

theorem wordEnds_iff {c : Char} : c ∈ wordEnds ↔ continuesWord c = false := by
  simp only [wordEnds, continuesWord, endsLine, List.mem_cons, List.not_mem_nil, or_false,
    Bool.not_eq_false', Bool.or_eq_true, beq_iff_eq]
  grind

/-- A piece in front of a word either ends with a character that ends words, or is an IRI. -/
theorem Piece.getLast {us : List Token} {g t : Text} {c d : Char} (h : Piece us g t)
    (hd : d ∈ t.head?) (hword : continuesWord d = true) (hc : c ∈ g.getLast?) :
    c ∈ wordEnds ∨ c = '>' ∧ ∃ u ∈ us, u.kind = .iri ∧ u.span.last = byteLength g := by
  cases h with
  | blank hb =>
    obtain rfl := Option.some.inj hc
    left
    rcases hb with rfl | rfl <;> decide
  | comment hs ht =>
    have he := ht d hd
    simp only [continuesWord, he] at hword
    simp at hword
  | token hw ht =>
    cases hw with
    | word w hne hall =>
      have hf := ht hall d hd
      rw [hword] at hf
      cases hf
    | iri x hx =>
      rw [Option.mem_def, List.getLast?_concat] at hc
      exact .inr ⟨(Option.some.inj hc).symm, _, List.mem_singleton_self _, rfl, rfl⟩
    | string x hx =>
      rw [Option.mem_def, List.getLast?_concat] at hc
      obtain rfl := Option.some.inj hc
      left
      decide
    | _ =>
      obtain rfl := Option.some.inj hc
      left
      decide

theorem Isolated.piece {us vs : List Token} {g t before after : Text} {u : Token}
    (hp : Piece us g t) (hat : u.At t before after) (hne : u.text ≠ [])
    (hword : ∀ c ∈ u.text, continuesWord c = true) (h : Isolated vs before after) :
    Isolated (us ++ vs.map (Token.shift (byteLength g))) (g ++ before) after := by
  refine ⟨fun c hc => ?_, h.right⟩
  cases hb : before with
  | nil =>
    -- the word begins the rest, so the piece in front of it is what counts
    obtain ⟨d, w, hw⟩ := List.exists_cons_of_ne_nil hne
    have hd : d ∈ t.head? := by
      rw [hat.text, hb, hw]
      rfl
    rw [hb, List.append_nil] at hc
    rw [List.append_nil]
    rcases hp.getLast hd (hword d (by simp [hw])) hc with hend | ⟨rfl, v, hv, hk, hl⟩
    · exact .inl hend
    · exact .inr ⟨rfl, v, List.mem_append_left _ hv, hk, hl⟩
  | cons b bs =>
    have hc : c ∈ before.getLast? := by
      rw [Option.mem_def, List.getLast?_append, hb, List.getLast?_cons, Option.some_or] at hc
      rw [hb, List.getLast?_cons]
      exact hc
    rw [← hb]
    rcases h.left c hc with hend | ⟨rfl, v, hv, hk, hl⟩
    · exact .inl hend
    · refine .inr ⟨rfl, _, List.mem_append_right _ (List.mem_map_of_mem hv), hk, ?_⟩
      rw [Token.shift_last, hl, byteLength_append]

/-- Words can be told by their first character. -/
theorem word_of_classify {w : Text} (hw : IsToken w) (hk : TokenKind.classify w = .word) :
    ∀ c ∈ w, continuesWord c = true := by
  cases hw with
  | word w hne hall => exact hall
  | _ => nomatch hk

theorem Unclosed.ne_nil {w : Text} (h : Unclosed w) : w ≠ [] := by
  cases h with
  | string x => exact List.cons_ne_nil _ _
  | iri x => exact List.cons_ne_nil _ _

theorem isToken_or_isOpen_of_mem {t : Text} {u : Token} (hu : u ∈ tokenize t) :
    IsToken u.text ∨ IsOpen u.text :=
  (scanned_tokens t).isToken_or_isOpen (List.mem_map_of_mem hu)

theorem ne_nil_of_mem {t : Text} {u : Token} (hu : u ∈ tokenize t) : u.text ≠ [] := by
  rcases isToken_or_isOpen_of_mem hu with h | ⟨h, -⟩
  · exact h.ne_nil
  · exact h.ne_nil

theorem word_of_mem {t : Text} {u : Token} (hu : u ∈ tokenize t) (hk : u.kind = .word) :
    ∀ c ∈ u.text, continuesWord c = true := by
  rw [kind_tokenize hu] at hk
  rcases isToken_or_isOpen_of_mem hu with hw | ⟨ho, -⟩
  · exact word_of_classify hw hk
  · generalize u.text = w at ho hk
    cases ho with
    | string => nomatch hk
    | iri => nomatch hk

theorem placed_tokenize (t : Text) : ∀ u ∈ tokenize t, ∃ before after, u.At t before after ∧
    (u.kind = .word → Isolated (tokenize t) before after) := by
  induction t using pieceCases with
  | nil => exact fun u hu => nomatch hu
  | piece us g t hp ih =>
    intro u hmem
    rcases List.mem_append.1 hmem with hu | hu
    · cases hp with
      | token hw ht =>
        rw [List.mem_singleton] at hu
        subst hu
        refine ⟨[], t, ⟨rfl, rfl, (Nat.zero_add _).symm⟩, fun hk => ⟨nofun, ?_⟩⟩
        exact fun c hc => wordEnds_iff.2 (ht (word_of_classify hw hk) c hc)
      | _ => nomatch hu
    · obtain ⟨v, hv, rfl⟩ := List.mem_map.1 hu
      obtain ⟨before, after, hat, hiso⟩ := ih v hv
      exact ⟨g ++ before, after, hat.shift g, fun hk =>
        .piece hp hat (ne_nil_of_mem hv) (word_of_mem hv hk) (hiso hk)⟩
  | unclosed w hw =>
    intro u hu
    rw [List.mem_singleton] at hu
    subst hu
    obtain ⟨b, -, hb⟩ := exists_trimEnd_append w
    refine ⟨[], b, ⟨hb, rfl, (Nat.zero_add _).symm⟩, fun hk => ?_⟩
    cases hw with
    | string => nomatch hk
    | iri => nomatch hk

/-! ## 3. What lies between them -/

theorem Gap.piece {us vs : List Token} {g t before after : Text} {c : Char} (hp : Piece us g t)
    (h : Gap vs before c after) :
    Gap (us ++ vs.map (Token.shift (byteLength g))) (g ++ before) c after := by
  cases h with
  | blank hc => exact .blank hc
  | @comment b s he hb hs =>
    refine .comment (b := g ++ b) (by rw [List.append_assoc, he, List.append_assoc]) ?_ hs
    rw [byteLength_append]
    exact hp.between.2 hb
  | @trimmed b s u he hu ho hl hblank =>
    refine .trimmed (b := g ++ b) (by rw [he, List.append_assoc])
      (List.mem_append_right _ (List.mem_map_of_mem hu)) ho ?_ hblank
    rw [byteLength_append, hl, Token.shift_last]

/-- In front of the rest, only what is in a piece without a token is between tokens. -/
theorem Piece.gap {us vs : List Token} {g t before after : Text} {c : Char} (h : Piece us g t)
    (hg : g = before ++ c :: after)
    (hn : Between (us ++ vs.map (Token.shift (byteLength g))) (byteLength before)) (rest : Text) :
    Gap (us ++ vs.map (Token.shift (byteLength g))) before c rest := by
  have hlt : byteLength before < byteLength g := by
    rw [hg, byteLength_append]
    have := byteLength_pos (List.cons_ne_nil c after)
    omega
  cases h with
  | blank hc =>
    cases before with
    | nil =>
      obtain ⟨rfl, -⟩ := List.cons_eq_cons.1 hg
      exact .blank hc
    | cons b bs => simp at hg
  | @comment s t hs ht =>
    cases before with
    | nil =>
      obtain ⟨rfl, -⟩ := List.cons_eq_cons.1 hg
      exact .comment (b := []) (s := []) rfl hn fun d hd => nomatch hd
    | cons b bs =>
      obtain ⟨rfl, rfl⟩ := List.cons_eq_cons.1 hg
      refine .comment (b := []) (s := bs ++ [c]) rfl ?_ fun d hd => ?_
      · -- the tokens of the rest are all behind the comment
        intro u hu hin
        obtain ⟨v, -, rfl⟩ := List.mem_map.1 hu
        rw [Token.shift_first, byteLength_nil] at hin
        omega
      · have hd := hs d (by grind)
        simpa [endsLine, and_comm] using hd
  | token =>
    refine absurd ⟨Nat.zero_le _, hlt⟩ (hn _ (List.mem_append_left _ (List.mem_singleton_self _)))

theorem gap_tokenize {t before after : Text} {c : Char} (he : t = before ++ c :: after)
    (hn : Between (tokenize t) (byteLength before)) : Gap (tokenize t) before c after := by
  induction t using pieceCases generalizing before with
  | nil => simp at he
  | piece us g t hp ih =>
    rcases append_eq_append_cons he with ⟨m, rfl, ht⟩ | ⟨m, hg, -⟩
    · rw [byteLength_append] at hn
      exact (ih ht (hp.between.1 hn)).piece hp
    · exact hp.gap hg hn after
  | unclosed w hw =>
    obtain ⟨b, hb, hw'⟩ := exists_trimEnd_append w
    have hle : byteLength (trimEnd w) ≤ byteLength before :=
      Nat.le_of_not_lt fun hlt => hn _ (List.mem_singleton_self _) ⟨Nat.zero_le _, hlt⟩
    rcases append_eq_append_cons (hw'.symm.trans he) with ⟨m, hm, hbm⟩ | ⟨m, hm, -⟩
    · exact .trimmed hm (List.mem_singleton_self _) (isOpen_trimEnd hw).1 rfl (hbm ▸ hb)
    · have := byteLength_pos (List.cons_ne_nil c m)
      rw [hm, byteLength_append] at hle
      omega

/-- A `#` in a piece and outside of its token is in a comment, which ends with the piece. -/
theorem Piece.inComment {us : List Token} {g t b s : Text} (h : Piece us g t)
    (hg : g = b ++ '#' :: s) (hb : Between us (byteLength b)) :
    us = [] ∧ ∀ c ∈ t.head?, endsLine c = true := by
  have hlt : byteLength b < byteLength g := by
    have := byteLength_pos (List.cons_ne_nil '#' s)
    rw [hg, byteLength_append]
    omega
  cases h with
  | @blank c t hc =>
    cases b with
    | nil =>
      obtain ⟨rfl, -⟩ := List.cons_eq_cons.1 hg
      exact absurd hc (by decide)
    | cons d b => simp at hg
  | comment hs ht => exact ⟨rfl, ht⟩
  | token => exact absurd ⟨Nat.zero_le _, hlt⟩ (hb _ (List.mem_singleton_self _))

/-- Behind a `#` outside of all tokens no token begins in the same line. -/
theorem comments_tokenize {t b s after : Text} {c : Char} (he : t = b ++ '#' :: s ++ c :: after)
    (hb : Between (tokenize t) (byteLength b)) (hs : ∀ d ∈ s ++ [c], d ≠ '\r' ∧ d ≠ '\n') :
    Between (tokenize t) (byteLength (b ++ '#' :: s)) := by
  induction t using pieceCases generalizing b with
  | nil => simp at he
  | piece us g t hp ih =>
    rw [List.append_assoc] at he
    rcases append_eq_append_cons he with ⟨m, rfl, ht⟩ | ⟨m, hg, ht⟩
    · rw [byteLength_append] at hb
      rw [List.append_assoc, byteLength_append]
      exact hp.between.2 (ih (by rw [ht, List.append_assoc]; rfl) (hp.between.1 hb))
    · obtain ⟨rfl, hline⟩ := hp.inComment hg fun u hu => hb u (List.mem_append_left _ hu)
      rcases append_eq_append_cons ht.symm with ⟨x, rfl, hx⟩ | ⟨x, hm, -⟩
      · -- the rest would go on in the same line
        obtain ⟨d, hd, hmem⟩ : ∃ d, d ∈ t.head? ∧ d ∈ x ++ [c] := by
          rw [hx]
          cases x <;> simp
        have hd := hline d hd
        have hne := hs d (by grind)
        simp [endsLine, hne] at hd
      · intro u hu hin
        obtain ⟨v, -, rfl⟩ := List.mem_map.1 hu
        have := c.utf8Size_pos
        rw [Token.shift_first, hg, hm] at hin
        simp only [byteLength_append, byteLength_cons] at hin
        omega
  | unclosed w hw =>
    intro u hu hin
    rw [List.mem_singleton] at hu
    subst hu
    apply hb _ (List.mem_singleton_self _)
    rw [byteLength_append] at hin
    exact ⟨Nat.zero_le _, Nat.lt_of_le_of_lt (Nat.le_add_right _ _) hin.2⟩

/-- Every byte belongs to a character. -/
theorem exists_char_at {t : Text} {n : Nat} (h : n < byteLength t) :
    ∃ before c after, t = before ++ c :: after ∧
      byteLength before ≤ n ∧ n < byteLength before + c.utf8Size := by
  induction t generalizing n with
  | nil => exact absurd h (Nat.not_lt_zero n)
  | cons d t ih =>
    by_cases hd : n < d.utf8Size
    · exact ⟨[], d, t, rfl, Nat.zero_le n, by simpa using hd⟩
    · rw [byteLength_cons] at h
      obtain ⟨before, c, after, rfl, hle, hlt⟩ := ih (n := n - d.utf8Size) (by omega)
      refine ⟨d :: before, c, after, rfl, ?_, ?_⟩
      all_goals
        rw [byteLength_cons]
        omega

/-- A token has all bytes of a character or none of them. -/
theorem between_char {us : List Token} {t before after : Text} {c : Char} {n : Nat}
    (hus : ∀ u ∈ us, ∃ x y, u.At t x y) (ht : t = before ++ c :: after)
    (hle : byteLength before ≤ n) (hlt : n < byteLength before + c.utf8Size)
    (hn : Between us n) : Between us (byteLength before) := by
  intro u hu hin
  obtain ⟨x, y, hat⟩ := hus u hu
  apply hn u hu
  have hsplit := hat.text.symm.trans ht
  rcases append_eq_append_cons hsplit with ⟨m, hm, -⟩ | ⟨m, hm, -⟩
  · have hlast := hat.last
    rw [hm, byteLength_append, byteLength_append] at hin
    omega
  · have hlen := congrArg byteLength hm
    simp only [byteLength_append, byteLength_cons] at hlen
    have hlast := hat.last
    omega

/-! ## 4. Each token and all of them -/

theorem shape_of_isToken {w : Text} (h : IsToken w) : (TokenKind.classify w).Shape w := by
  cases h with
  | string x hx => exact ⟨x, hx, .inr rfl⟩
  | iri x hx => exact ⟨x, hx, .inr rfl⟩
  | word w hne hall =>
    obtain ⟨c, v, rfl⟩ := List.exists_cons_of_ne_nil hne
    rw [classify_word (hall c (by simp))]
    refine ⟨hne, fun d hd hend => ?_⟩
    rw [wordEnds_iff, hall d hd] at hend
    nomatch hend
  | _ => rfl

theorem shape_of_unclosed {w : Text} (h : Unclosed w) : (TokenKind.classify w).Shape w := by
  cases h with
  | string x hx => exact ⟨x, hx, .inl rfl⟩
  | iri x hx => exact ⟨x, hx, .inl rfl⟩

theorem shape_of_mem {t : Text} {u : Token} (hu : u ∈ tokenize t) : u.kind.Shape u.text := by
  rw [kind_tokenize hu]
  rcases isToken_or_isOpen_of_mem hu with h | ⟨h, -⟩
  · exact shape_of_isToken h
  · exact shape_of_unclosed h

theorem closed_tokenize {t : Text} {us vs : List Token} {u : Token}
    (h : tokenize t = us ++ u :: vs) (hu : Unclosed u.text) : vs = [] := by
  have hs := scanned_tokens t
  rw [tokens, h, List.map_append, List.map_cons] at hs
  cases vs with
  | nil => rfl
  | cons v vs => exact absurd hu (not_unclosed_of_isToken hs.of_append.head)

end Text

/-- The tokens of a text cover it: no byte is lost, and none is read twice. -/
theorem covers_tokenize (t : Text) : Covers (tokenize t) t where
  nonempty u hu := by
    obtain ⟨before, after, hat, -⟩ := Text.placed_tokenize t u hu
    have := Text.byteLength_pos (Text.ne_nil_of_mem hu)
    rw [hat.first, hat.last]
    omega
  ordered := Text.ordered_tokenize t
  placed := Text.placed_tokenize t
  gaps n hn hfree := by
    obtain ⟨before, c, after, ht, hle, hlt⟩ := Text.exists_char_at hn
    refine ⟨before, c, after, ht, hle, hlt, Text.gap_tokenize ht ?_⟩
    refine Text.between_char (fun u hu => ?_) ht hle hlt hfree
    obtain ⟨x, y, hat, -⟩ := Text.placed_tokenize t u hu
    exact ⟨x, y, hat⟩
  comments _ _ _ _ := Text.comments_tokenize
  shapes _ := Text.shape_of_mem
  closed _ _ _ := Text.closed_tokenize

end SparqlTree
