import SparqlTree.Token.Scan
import SparqlTree.Proofs.Token.Complete

/-!
# The tokens of a text

`Text.tokens` lists the texts of the tokens of a text. A text is empty, or begins with a blank, a
comment, a complete token, or a string or IRI reference that it never closes (`lexCases`); the
equations for these five beginnings determine its tokens. From them follow the rules by which the
tokens of a text are found from the tokens of its lines (`tokens_append_newline`) and of its words
(`tokens_spaced`).
-/

namespace SparqlTree.Text

/-- The texts of the tokens of a text. -/
def tokens (t : Text) : List Text := (tokenize t).map Token.text

/-- True of texts that close every string and IRI reference they open. -/
def Closed (t : Text) : Prop := ∀ w ∈ tokens t, IsToken w

/-! ## 1. One lexeme after the other -/

theorem map_text_place (n : Nat) (ls : List Lexeme) :
    (Lexeme.place n ls).map Token.text = ls.filterMap fun l => l.kind.map fun _ => l.kept := by
  induction ls generalizing n with
  | nil => rfl
  | cons l ls ih =>
    rw [Lexeme.place]
    cases hk : l.kind with
    | none => simp [hk, ih]
    | some k => simp [hk, ih]

@[simp] theorem tokens_nil : tokens [] = [] := by
  rw [tokens, tokenize, Lexeme.ofText]
  rfl

theorem tokens_eq_filterMap (t : Text) :
    tokens t = (Lexeme.ofText t).filterMap fun l => l.kind.map fun _ => l.kept :=
  map_text_place 0 _

theorem ofText_cons (c : Char) (t : Text) :
    Lexeme.ofText (c :: t) = (Lexeme.first c t).1 :: Lexeme.ofText (Lexeme.first c t).2 := by
  rw [Lexeme.ofText]

theorem throughChar_append_cons {close : Char} {x : Text} (hx : close ∉ x) (y : Text) :
    throughChar close (x ++ close :: y) = (x ++ [close], y) := by
  induction x with
  | nil => simp [throughChar]
  | cons c x ih =>
    obtain ⟨hc, hx⟩ : ¬ close = c ∧ close ∉ x := by simpa using hx
    rw [List.cons_append, throughChar, if_neg (Ne.symm hc), ih hx]
    rfl

theorem throughChar_of_not_mem {close : Char} {t : Text} (h : close ∉ t) :
    throughChar close t = (t, []) := by
  induction t with
  | nil => rfl
  | cons c t ih =>
    obtain ⟨hc, ht⟩ : ¬ close = c ∧ close ∉ t := by simpa using h
    rw [throughChar, if_neg (Ne.symm hc), ih ht]

theorem takeWhile_word {w t : Text} (hw : ∀ c ∈ w, continuesWord c = true) (ht : Apart t) :
    (w ++ t).takeWhile continuesWord = w ∧ (w ++ t).dropWhile continuesWord = t := by
  rw [List.takeWhile_append_of_pos hw, List.dropWhile_append_of_pos hw]
  cases t with
  | nil => simp
  | cons c t =>
    have hc : continuesWord c = false := ht c rfl
    simp [hc]

/-- A character that may stand in a word is none of those with a meaning of their own. -/
theorem first_word {c : Char} (hc : continuesWord c = true) (t : Text) :
    Lexeme.first c t =
      (⟨some .word, c :: t.takeWhile continuesWord⟩, t.dropWhile continuesWord) := by
  have h : ∀ d, continuesWord d = false → c ≠ d := by
    rintro d hd rfl
    rw [hc] at hd
    nomatch hd
  rw [Lexeme.first, if_neg (not_or.2 ⟨h _ (by decide), h _ (by decide)⟩), if_neg (h _ (by decide)),
    if_neg (h _ (by decide)), if_neg (h _ (by decide)), if_neg (h _ (by decide)),
    if_neg (h _ (by decide)), if_neg (h _ (by decide)), if_neg (h _ (by decide))]

/-- The characters that may not stand in a word. -/
theorem special_of_not_word {c : Char} (h : ¬ continuesWord c = true) :
    c = ' ' ∨ c = '\t' ∨ c = '\n' ∨ c = '\r' ∨ c = '\x7b' ∨ c = '\x7d' ∨ c = '"' ∨ c = '<'
      ∨ c = '#' := by
  simp only [continuesWord, endsLine, Bool.not_eq_true', Bool.not_eq_false, Bool.or_eq_true,
    beq_iff_eq] at h
  grind

/-! ## 2. The five beginnings -/

theorem ofText_blank {c : Char} (hc : c = ' ' ∨ c = '\t') (t : Text) :
    Lexeme.ofText (c :: t) = ⟨none, [c]⟩ :: Lexeme.ofText t := by
  rcases hc with rfl | rfl <;> rw [ofText_cons] <;> rfl

theorem ofText_comment {s t : Text} (hs : ∀ c ∈ s, endsLine c = false)
    (ht : ∀ c ∈ t.head?, endsLine c = true) :
    Lexeme.ofText ('#' :: s ++ t) = ⟨none, '#' :: s⟩ :: Lexeme.ofText t := by
  have hdrop : (s ++ t).dropWhile (!endsLine ·) = t := by
    rw [List.dropWhile_append_of_pos (by simpa using hs)]
    cases t with
    | nil => rfl
    | cons c t => simp [ht c rfl]
  have htake : (s ++ t).takeWhile (!endsLine ·) = s := by
    rw [List.takeWhile_append_of_pos (by simpa using hs)]
    cases t with
    | nil => simp
    | cons c t => simp [ht c rfl]
  rw [List.cons_append, ofText_cons]
  show ⟨none, '#' :: (s ++ t).takeWhile (!endsLine ·)⟩
    :: Lexeme.ofText ((s ++ t).dropWhile (!endsLine ·)) = _
  rw [hdrop, htake]

theorem ofText_append {w t : Text} (hw : IsToken w)
    (ht : (∀ c ∈ w, continuesWord c = true) → Apart t) :
    Lexeme.ofText (w ++ t) = ⟨some (TokenKind.classify w), w⟩ :: Lexeme.ofText t := by
  cases hw with
  | word w hne hall =>
    cases w with
    | nil => exact absurd rfl hne
    | cons c w =>
      obtain ⟨h1, h2⟩ := takeWhile_word (fun d hd => hall d (List.mem_cons_of_mem _ hd)) (ht hall)
      rw [List.cons_append, ofText_cons, first_word (hall c (by simp)), h1, h2,
        classify_word (hall c (by simp))]
  | string x hx =>
    rw [List.append_assoc, List.cons_append, ofText_cons]
    show ⟨some .string, '"' :: (throughChar '"' (x ++ '"' :: t)).1⟩
      :: Lexeme.ofText (throughChar '"' (x ++ '"' :: t)).2 = _
    rw [throughChar_append_cons hx]
    rfl
  | iri x hx =>
    rw [List.append_assoc, List.cons_append, ofText_cons]
    show ⟨some .iri, '<' :: (throughChar '>' (x ++ '>' :: t)).1⟩
      :: Lexeme.ofText (throughChar '>' (x ++ '>' :: t)).2 = _
    rw [throughChar_append_cons hx]
    rfl
  | _ => rw [List.singleton_append, ofText_cons]; rfl

theorem ofText_unclosed {w : Text} (hw : Unclosed w) :
    Lexeme.ofText w = [⟨some (TokenKind.classify w), w⟩] := by
  cases hw with
  | string x hx =>
    rw [ofText_cons]
    show ⟨some .string, '"' :: (throughChar '"' x).1⟩ :: Lexeme.ofText (throughChar '"' x).2 = _
    rw [throughChar_of_not_mem hx, Lexeme.ofText]
    rfl
  | iri x hx =>
    rw [ofText_cons]
    show ⟨some .iri, '<' :: (throughChar '>' x).1⟩ :: Lexeme.ofText (throughChar '>' x).2 = _
    rw [throughChar_of_not_mem hx, Lexeme.ofText]
    rfl

/-- Nothing is trimmed off a string or IRI reference that is closed. -/
theorem kept_isToken {w : Text} (hw : IsToken w) :
    Lexeme.kept ⟨some (TokenKind.classify w), w⟩ = w := by
  cases hw with
  | word w hne hall =>
    cases w with
    | nil => exact absurd rfl hne
    | cons c w => rw [classify_word (hall c (by simp))]; rfl
  | string x => exact trimEnd_append_letter ('"' :: x) (by decide)
  | iri x => exact trimEnd_append_letter ('<' :: x) (by decide)
  | _ => rfl

theorem kept_unclosed {w : Text} (hw : Unclosed w) :
    Lexeme.kept ⟨some (TokenKind.classify w), w⟩ = trimEnd w := by
  cases hw <;> rfl

@[simp] theorem tokens_space (t : Text) : tokens (' ' :: t) = tokens t := by
  simp [tokens_eq_filterMap, ofText_blank (.inl rfl)]

@[simp] theorem tokens_tab (t : Text) : tokens ('\t' :: t) = tokens t := by
  simp [tokens_eq_filterMap, ofText_blank (.inr rfl)]

theorem tokens_comment {s t : Text} (hs : ∀ c ∈ s, endsLine c = false)
    (ht : ∀ c ∈ t.head?, endsLine c = true) : tokens ('#' :: s ++ t) = tokens t := by
  rw [tokens_eq_filterMap, ofText_comment hs ht, tokens_eq_filterMap]
  rfl

theorem tokens_append {w t : Text} (hw : IsToken w)
    (ht : (∀ c ∈ w, continuesWord c = true) → Apart t) : tokens (w ++ t) = w :: tokens t := by
  simp [tokens_eq_filterMap, ofText_append hw ht, kept_isToken hw]

theorem tokens_unclosed {w : Text} (hw : Unclosed w) : tokens w = [trimEnd w] := by
  simp [tokens_eq_filterMap, ofText_unclosed hw, kept_unclosed hw]

/-- How a text begins that is not empty. -/
inductive Beginning : Text → Prop
  | blank {c : Char} {t : Text} : c = ' ' ∨ c = '\t' → Beginning (c :: t)
  | comment {s t : Text} : (∀ c ∈ s, endsLine c = false) → (∀ c ∈ t.head?, endsLine c = true) →
    Beginning ('#' :: s ++ t)
  | token {w t : Text} : IsToken w → ((∀ c ∈ w, continuesWord c = true) → Apart t) →
    Beginning (w ++ t)
  | unclosed {w : Text} : Unclosed w → Beginning w

theorem not_word_of_mem {c : Char} {w : Text} (hc : c ∈ w) (h : continuesWord c = false) :
    ¬ ∀ d ∈ w, continuesWord d = true := by
  intro hall
  rw [hall c hc] at h
  nomatch h

theorem beginning_word {c : Char} (hc : continuesWord c = true) (t : Text) :
    Beginning (c :: t) := by
  rw [show c :: t = (c :: t.takeWhile continuesWord) ++ t.dropWhile continuesWord by
    rw [List.cons_append, List.takeWhile_append_dropWhile]]
  refine .token (.word _ (List.cons_ne_nil _ _) fun d hd => ?_) fun _ d hd => ?_
  · rcases List.mem_cons.1 hd with rfl | hd
    · exact hc
    · exact List.all_eq_true.1 List.all_takeWhile d hd
  · have h := List.head?_dropWhile_not continuesWord t
    rw [Option.mem_def.1 hd] at h
    simpa using h

theorem beginning_comment (t : Text) : Beginning ('#' :: t) := by
  rw [show '#' :: t = '#' :: t.takeWhile (!endsLine ·) ++ t.dropWhile (!endsLine ·) by
    rw [List.cons_append, List.takeWhile_append_dropWhile]]
  refine .comment (fun d hd => ?_) fun d hd => ?_
  · simpa using List.all_eq_true.1 List.all_takeWhile d hd
  · have h := List.head?_dropWhile_not (!endsLine ·) t
    rw [Option.mem_def.1 hd] at h
    simpa using h

theorem exists_append_or_not_mem (close : Char) (t : Text) :
    (∃ x y, close ∉ x ∧ t = x ++ close :: y) ∨ close ∉ t := by
  induction t with
  | nil => exact .inr (by simp)
  | cons c t ih =>
    by_cases hc : close = c
    · exact .inl ⟨[], t, by simp, by rw [hc]; rfl⟩
    · rcases ih with ⟨x, y, hx, rfl⟩ | h
      · exact .inl ⟨c :: x, y, by simp [hc, hx], rfl⟩
      · exact .inr (by simp [hc, h])

theorem beginning_string (t : Text) : Beginning ('"' :: t) := by
  rcases exists_append_or_not_mem '"' t with ⟨x, y, hx, rfl⟩ | h
  · rw [show '"' :: (x ++ '"' :: y) = ('"' :: x ++ ['"']) ++ y by simp]
    exact .token (.string x hx) fun h => absurd h (not_word_of_mem (c := '"') (by simp) rfl)
  · exact .unclosed (.string t h)

theorem beginning_iri (t : Text) : Beginning ('<' :: t) := by
  rcases exists_append_or_not_mem '>' t with ⟨x, y, hx, rfl⟩ | h
  · rw [show '<' :: (x ++ '>' :: y) = ('<' :: x ++ ['>']) ++ y by simp]
    exact .token (.iri x hx) fun h => absurd h (not_word_of_mem (c := '<') (by simp) rfl)
  · exact .unclosed (.iri t h)

theorem beginning_single {c : Char} (h : IsToken [c]) (hc : continuesWord c = false) (t : Text) :
    Beginning (c :: t) :=
  .token (w := [c]) h fun hall => absurd hall (not_word_of_mem (by simp) hc)

theorem beginning_cons (c : Char) (t : Text) : Beginning (c :: t) := by
  by_cases hword : continuesWord c = true
  · exact beginning_word hword t
  · rcases special_of_not_word hword with rfl | rfl | rfl | rfl | rfl | rfl | rfl | rfl | rfl
    · exact .blank (.inl rfl)
    · exact .blank (.inr rfl)
    · exact beginning_single .newline rfl t
    · exact beginning_single .carriageReturn rfl t
    · exact beginning_single .openBrace rfl t
    · exact beginning_single .closeBrace rfl t
    · exact beginning_string t
    · exact beginning_iri t
    · exact beginning_comment t

/-- Induction over a text, one lexeme at a time. -/
@[elab_as_elim]
theorem lexCases {motive : Text → Prop} (nil : motive [])
    (blank : ∀ c t, c = ' ' ∨ c = '\t' → motive t → motive (c :: t))
    (comment : ∀ s t, (∀ c ∈ s, endsLine c = false) → (∀ c ∈ t.head?, endsLine c = true) →
      motive t → motive ('#' :: s ++ t))
    (token : ∀ w t, IsToken w → ((∀ c ∈ w, continuesWord c = true) → Apart t) → motive t →
      motive (w ++ t))
    (unclosed : ∀ w, Unclosed w → motive w) (t : Text) : motive t := by
  induction hn : t.length using Nat.strongRecOn generalizing t with
  | ind n ih =>
    cases t with
    | nil => exact nil
    | cons c t =>
      generalize hu : c :: t = u at hn
      have hb : Beginning u := hu ▸ beginning_cons c t
      cases hb with
      | blank hc => exact blank _ _ hc (ih _ (by rw [← hn]; simp) _ rfl)
      | @comment s t hs ht =>
        have hlt : t.length < n := by
          rw [← hn, List.cons_append, List.length_cons, List.length_append]
          omega
        exact comment _ _ hs ht (ih _ hlt _ rfl)
      | @token w v hw hv =>
        have hpos := List.length_pos_iff.2 hw.ne_nil
        have hlt : v.length < n := by
          rw [← hn, List.length_append]
          omega
        exact token w v hw hv (ih _ hlt _ rfl)
      | unclosed hw => exact unclosed _ hw

/-! ## 3. All tokens of a text -/

theorem tokens_blank {c : Char} (hc : c = ' ' ∨ c = '\t') (t : Text) :
    tokens (c :: t) = tokens t := by
  rcases hc with rfl | rfl <;> simp

theorem isOpen_trimEnd {w : Text} (hw : Unclosed w) : IsOpen (trimEnd w) := by
  refine ⟨?_, trimEnd_trimEnd w⟩
  obtain ⟨b, -, he⟩ := exists_trimEnd_append w
  cases hw with
  | string x hx =>
    rw [trimEnd_cons_letter (by decide)] at he ⊢
    refine .string _ fun hm => hx ?_
    rw [(List.cons_eq_cons.1 he).2]
    exact List.mem_append_left _ hm
  | iri x hx =>
    rw [trimEnd_cons_letter (by decide)] at he ⊢
    refine .iri _ fun hm => hx ?_
    rw [(List.cons_eq_cons.1 he).2]
    exact List.mem_append_left _ hm

/-- All tokens of a text are complete, except perhaps the last one. -/
theorem scanned_tokens (t : Text) : Scanned (tokens t) := by
  induction t using lexCases with
  | nil => rw [tokens_nil]; exact .nil
  | blank c t hc ih => rwa [tokens_blank hc]
  | comment s t hs ht ih => rwa [tokens_comment hs ht]
  | token w t hw ht ih => rw [tokens_append hw ht]; exact .cons hw ih
  | unclosed w hw => rw [tokens_unclosed hw]; exact .leftOpen (isOpen_trimEnd hw)

/-- The characters of the tokens are characters of the text. -/
theorem mem_of_mem_tokens {t w : Text} {c : Char} (hw : w ∈ tokens t) (hc : c ∈ w) : c ∈ t := by
  induction t using lexCases with
  | nil =>
    rw [tokens_nil] at hw
    nomatch hw
  | blank d t hd ih =>
    rw [tokens_blank hd] at hw
    exact List.mem_cons_of_mem _ (ih hw)
  | comment s t hs ht ih =>
    rw [tokens_comment hs ht] at hw
    exact List.mem_append_right _ (ih hw)
  | token v t hv ht ih =>
    rw [tokens_append hv ht, List.mem_cons] at hw
    rcases hw with rfl | hw
    · exact List.mem_append_left _ hc
    · exact List.mem_append_right _ (ih hw)
  | unclosed v hv =>
    rw [tokens_unclosed hv, List.mem_singleton] at hw
    exact mem_of_mem_trimEnd (hw ▸ hc)

/-! ## 4. Kinds -/

/-- What a lexeme is can be told from the text that is kept of it. -/
theorem kind_first {c : Char} {t : Text} {k : TokenKind}
    (h : (Lexeme.first c t).1.kind = some k) :
    TokenKind.classify (Lexeme.first c t).1.kept = k := by
  by_cases hword : continuesWord c = true
  · rw [first_word hword] at h ⊢
    rw [← Option.some.inj h]
    exact classify_word hword
  · rcases special_of_not_word hword with rfl | rfl | rfl | rfl | rfl | rfl | rfl | rfl | rfl
    · nomatch h
    · nomatch h
    · exact Option.some.inj h
    · exact Option.some.inj h
    · exact Option.some.inj h
    · exact Option.some.inj h
    · rw [← Option.some.inj h]
      show TokenKind.classify (trimEnd ('"' :: (throughChar '"' t).1)) = .string
      rw [trimEnd_cons_letter (by decide)]
      rfl
    · rw [← Option.some.inj h]
      show TokenKind.classify (trimEnd ('<' :: (throughChar '>' t).1)) = .iri
      rw [trimEnd_cons_letter (by decide)]
      rfl
    · nomatch h

/-- The kind of every token of a text is that of its own text. -/
theorem kind_tokenize {t : Text} {tok : Token} (h : tok ∈ tokenize t) :
    tok.kind = TokenKind.classify tok.text := by
  suffices hs : ∀ n, ∀ tok ∈ Lexeme.place n (Lexeme.ofText t),
      tok.kind = TokenKind.classify tok.text from hs 0 tok h
  clear h tok
  induction t using Lexeme.ofText.induct with
  | case1 => simp [Lexeme.ofText, Lexeme.place]
  | case2 c t ih =>
    intro n tok h
    rw [Lexeme.ofText, Lexeme.place] at h
    split at h
    · exact ih _ tok h
    · next k hk =>
      rcases List.mem_cons.1 h with rfl | h
      · exact (kind_first hk).symm
      · exact ih _ tok h

/-! ## 5. Lines -/

theorem tokens_newline (t : Text) : tokens ('\n' :: t) = ['\n'] :: tokens t :=
  tokens_append .newline fun hall => absurd hall (not_word_of_mem (c := '\n') (by simp) rfl)

/-- Lines can be read one by one, unless a string or IRI reference goes on from one to the next. -/
theorem tokens_append_newline {t : Text} (h : Closed t) (u : Text) :
    tokens (t ++ '\n' :: u) = tokens t ++ ['\n'] :: tokens u := by
  induction t using lexCases with
  | nil => rw [List.nil_append, tokens_newline, tokens_nil, List.nil_append]
  | blank c t hc ih =>
    rw [Closed, tokens_blank hc] at h
    rw [List.cons_append, tokens_blank hc, tokens_blank hc, ih h]
  | comment s t hs ht ih =>
    rw [Closed, tokens_comment hs ht] at h
    rw [List.append_assoc, tokens_comment hs, tokens_comment hs ht, ih h]
    cases t with
    | nil => simp [endsLine]
    | cons c t => exact ht
  | token w t hw ht ih =>
    rw [Closed, tokens_append hw ht] at h
    rw [List.append_assoc, tokens_append hw, tokens_append hw ht,
      ih fun v hv => h v (List.mem_cons_of_mem _ hv), List.cons_append]
    intro hall
    cases t with
    | nil => simp [Apart, continuesWord, endsLine]
    | cons c t => exact ht hall
  | unclosed w hw =>
    have hopen := h (trimEnd w) (by rw [tokens_unclosed hw]; simp)
    exact absurd (isOpen_trimEnd hw).1 (not_unclosed_of_isToken hopen)

/-- The tokens of some lines, each on a new line. -/
def lineTokens (ls : List Text) : List Text := ls.flatMap fun l => ['\n'] :: tokens l

@[simp] theorem lineTokens_nil : lineTokens [] = [] := rfl

@[simp] theorem lineTokens_cons (l : Text) (ls : List Text) :
    lineTokens (l :: ls) = ['\n'] :: (tokens l ++ lineTokens ls) := rfl

@[simp] theorem lineTokens_append (ls ms : List Text) :
    lineTokens (ls ++ ms) = lineTokens ls ++ lineTokens ms := List.flatMap_append

@[simp] theorem lines_singleton (l : Text) : lines [l] = l := by simp [lines]

theorem lines_cons_cons (l m : Text) (ls : List Text) :
    lines (l :: m :: ls) = l ++ '\n' :: lines (m :: ls) := by simp [lines]

/-- The tokens of several lines are those of one line after the other; only in the last line may a
string or IRI reference stay open. -/
theorem tokens_lines {ls : List Text} {l : Text} (h : ∀ m ∈ ls, Closed m) :
    ['\n'] :: tokens (lines (ls ++ [l])) = lineTokens (ls ++ [l]) := by
  induction ls with
  | nil => simp
  | cons m ls ih =>
    have ih := ih fun k hk => h k (List.mem_cons_of_mem _ hk)
    rw [List.cons_append, lineTokens_cons, ← ih]
    cases hls : ls ++ [l] with
    | nil => simp at hls
    | cons k ks => rw [lines_cons_cons, tokens_append_newline (h m (by simp))]

end SparqlTree.Text
