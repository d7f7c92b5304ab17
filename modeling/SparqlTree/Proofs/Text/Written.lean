import SparqlTree.Statement.Render
import SparqlTree.Proofs.Token.Lexing

/-!
# Tokens written as text

Text that the tree does not model is kept as its tokens, each after one space, with the line breaks
as they are; `written` puts a list of tokens together in this way. The ends of the result are
trimmed. This can shorten the first and the last token, which may begin or end with a blank that
does not separate tokens, and it can lose tokens that consist of such blanks. `trimTokens` does the
same to the list of tokens, so that the two ways agree (`tokens_trim_written`).
-/

namespace SparqlTree.Text

/-- One token as it is written behind others. -/
def piece (w : Text) : Text := if isBreak w then w else ' ' :: w

/-- Tokens as they are written behind others. -/
def written (ws : List Text) : Text := ws.flatMap piece

/-- Tokens as they are written at the start of a text. -/
def joined : List Text → Text
  | [] => []
  | w :: ws => w ++ written ws

/-- Drops the blanks at the start of the first tokens. -/
def trimTokensStart : List Text → List Text
  | [] => []
  | w :: ws => if trimStart w = [] then trimTokensStart ws else trimStart w :: ws

/-- Drops the blanks at the end of the last tokens. -/
def trimTokensEnd : List Text → List Text
  | [] => []
  | w :: ws =>
    if trimTokensEnd ws = [] then (if trimEnd w = [] then [] else [trimEnd w])
    else w :: trimTokensEnd ws

/-- Drops the blanks at the ends of a list of tokens. -/
def trimTokens (ws : List Text) : List Text := trimTokensEnd (trimTokensStart ws)

/-! ## 1. Pieces -/

@[simp] theorem written_nil : written [] = [] := rfl

theorem written_cons (w : Text) (ws : List Text) : written (w :: ws) = piece w ++ written ws := rfl

theorem written_append (vs ws : List Text) : written (vs ++ ws) = written vs ++ written ws :=
  List.flatMap_append

theorem isBlank_of_isBreak {w : Text} (h : isBreak w = true) : AllBlank w := by
  rcases isBreak_iff.1 h with rfl | rfl <;> intro c hc <;> rw [List.mem_singleton.1 hc] <;> decide

theorem piece_ne_nil (w : Text) : piece w ≠ [] := by
  rw [piece]
  split
  · next h => rcases isBreak_iff.1 h with rfl | rfl <;> decide
  · exact List.cons_ne_nil _ _

theorem written_eq_nil {ws : List Text} : written ws = [] ↔ ws = [] := by
  cases ws with
  | nil => simp
  | cons w ws => simp [written_cons, piece_ne_nil]

/-- The space before a token is blank, so a piece is blank where its token is. -/
theorem trimStart_piece_append (w t : Text) :
    trimStart (piece w ++ t) = trimStart (w ++ t) := by
  rw [piece]
  split
  · rfl
  · rw [List.cons_append, trimStart_cons_blank (by decide)]

theorem trimEnd_piece (w : Text) :
    trimEnd (piece w) = if trimEnd w = [] then [] else piece (trimEnd w) := by
  by_cases hb : isBreak w = true
  · have hw := trimEnd_eq_nil.2 (isBlank_of_isBreak hb)
    rw [piece, if_pos hb, if_pos hw, hw]
  · rw [piece, if_neg hb, ← List.singleton_append, trimEnd_append]
    split
    · rfl
    · next hne =>
      -- What is left of the token ends with a letter, so it is no break.
      have hb' : isBreak (trimEnd w) = false := by
        rw [← Bool.not_eq_true]
        intro h
        exact hne (trimEnd_trimEnd w ▸ trimEnd_eq_nil.2 (isBlank_of_isBreak h))
      rw [piece, if_neg (by rw [hb']; decide), List.singleton_append]

/-! ## 2. Trimming what was written -/

theorem trimStart_written (ws : List Text) :
    trimStart (written ws) = joined (trimTokensStart ws) := by
  induction ws with
  | nil => rfl
  | cons w ws ih =>
    rw [written_cons, trimStart_piece_append, trimStart_append, ih, trimTokensStart]
    split <;> rfl

theorem trimEnd_written (ws : List Text) :
    trimEnd (written ws) = written (trimTokensEnd ws) := by
  induction ws with
  | nil => rfl
  | cons w ws ih =>
    rw [written_cons, trimEnd_append, ih, trimTokensEnd]
    by_cases hws : trimTokensEnd ws = []
    · rw [if_pos (written_eq_nil.2 hws), if_pos hws, trimEnd_piece]
      by_cases hw : trimEnd w = []
      · rw [if_pos hw, if_pos hw]
        rfl
      · rw [if_neg hw, if_neg hw, written_cons, written_nil, List.append_nil]
    · rw [if_neg (mt written_eq_nil.1 hws), if_neg hws, written_cons]

theorem trimEnd_joined (ws : List Text) :
    trimEnd (joined ws) = joined (trimTokensEnd ws) := by
  cases ws with
  | nil => rfl
  | cons w ws =>
    rw [joined, trimEnd_append, trimEnd_written, trimTokensEnd]
    by_cases hws : trimTokensEnd ws = []
    · rw [if_pos (written_eq_nil.2 hws), if_pos hws]
      by_cases hw : trimEnd w = []
      · rw [if_pos hw, hw]
        rfl
      · rw [if_neg hw, joined, written_nil, List.append_nil]
    · rw [if_neg (mt written_eq_nil.1 hws), if_neg hws, joined]

theorem trim_written (ws : List Text) : trim (written ws) = joined (trimTokens ws) := by
  rw [trim, trimStart_written, trimEnd_joined, trimTokens]

/-! ## 3. Reading what was written -/

theorem apart_written (ws : List Text) : Apart (written ws) := by
  cases ws with
  | nil => exact apart_nil
  | cons w ws =>
    rw [written_cons, piece]
    split
    · next h => rcases isBreak_iff.1 h with rfl | rfl <;> exact apart_cons rfl _
    · exact apart_cons rfl _

theorem tokens_append_written {w : Text} {ws : List Text} (h : Scanned (w :: ws))
    (ih : tokens (written ws) = ws) : tokens (w ++ written ws) = w :: ws := by
  cases h with
  | leftOpen hw => rw [written_nil, List.append_nil, tokens_unclosed hw.1, hw.2]
  | cons hw _ => rw [tokens_append hw fun _ => apart_written ws, ih]

/-- Every token of what was written is read again as it was. -/
theorem tokens_written {ws : List Text} (h : Scanned ws) : tokens (written ws) = ws := by
  induction ws with
  | nil => rw [written_nil, tokens_nil]
  | cons w ws ih =>
    have hw := tokens_append_written h (ih h.tail)
    rw [written_cons, piece]
    split
    · exact hw
    · rw [List.cons_append, tokens_space, hw]

theorem tokens_joined {ws : List Text} (h : Scanned ws) : tokens (joined ws) = ws := by
  cases ws with
  | nil => rw [joined, tokens_nil]
  | cons w ws => rw [joined, tokens_append_written h (tokens_written h.tail)]

/-- Tokens with spaces between are read again as they were, line breaks among them too. -/
theorem tokens_spaced {ws : List Text} (h : Scanned ws) : tokens (spaced ws) = ws := by
  induction h with
  | nil => exact tokens_nil
  | @leftOpen w hw =>
    rw [spaced_singleton, tokens_unclosed hw.1, hw.2]
  | @cons w ws hw _ ih =>
    by_cases hne : ws = []
    · have hend := tokens_append hw fun _ => apart_nil
      rw [List.append_nil, tokens_nil] at hend
      rw [hne, spaced_singleton, hend]
    · rw [spaced_cons hne, tokens_append hw fun _ => apart_cons rfl _, tokens_space, ih]

theorem isToken_trimStart {w : Text} (h : IsToken w) (hne : trimStart w ≠ []) :
    IsToken (trimStart w) := by
  by_cases hb : isBreak w = true
  · exact absurd (trimStart_eq_nil.2 (isBlank_of_isBreak hb)) hne
  · exact h.trimStart (by simpa using hb) hne

theorem isToken_trimEnd {w : Text} (h : IsToken w) (hne : trimEnd w ≠ []) :
    IsToken (trimEnd w) := by
  by_cases hb : isBreak w = true
  · exact absurd (trimEnd_eq_nil.2 (isBlank_of_isBreak hb)) hne
  · exact h.trimEnd (by simpa using hb) hne

theorem forall_trimTokensStart {P : Text → Prop}
    (start : ∀ w, P w → trimStart w ≠ [] → P (trimStart w)) {ws : List Text} (h : ∀ w ∈ ws, P w) :
    ∀ w ∈ trimTokensStart ws, P w := by
  induction ws with
  | nil => exact h
  | cons v ws ih =>
    rw [trimTokensStart]
    split
    · exact ih fun w hw => h w (List.mem_cons_of_mem _ hw)
    · next hne =>
      intro w hw
      rcases List.mem_cons.1 hw with rfl | hw
      · exact start v (h v (by simp)) hne
      · exact h w (List.mem_cons_of_mem _ hw)

theorem forall_trimTokensEnd {P : Text → Prop}
    (last : ∀ w, P w → trimEnd w ≠ [] → P (trimEnd w)) {ws : List Text} (h : ∀ w ∈ ws, P w) :
    ∀ w ∈ trimTokensEnd ws, P w := by
  induction ws with
  | nil => exact h
  | cons v ws ih =>
    rw [trimTokensEnd]
    split
    · split
      · exact fun w hw => nomatch hw
      · next hne =>
        intro w hw
        obtain rfl := List.mem_singleton.1 hw
        exact last v (h v (by simp)) hne
    · intro w hw
      rcases List.mem_cons.1 hw with rfl | hw
      · exact h _ (by simp)
      · exact ih (fun w hw => h w (List.mem_cons_of_mem _ hw)) w hw

/-- Trimming passes on to the tokens what a token keeps when it loses blanks at an end. -/
theorem forall_trimTokens {P : Text → Prop} (start : ∀ w, P w → trimStart w ≠ [] → P (trimStart w))
    (last : ∀ w, P w → trimEnd w ≠ [] → P (trimEnd w)) {ws : List Text} (h : ∀ w ∈ ws, P w) :
    ∀ w ∈ trimTokens ws, P w :=
  forall_trimTokensEnd last (forall_trimTokensStart start h)

theorem isToken_trimTokens {ws : List Text} (h : ∀ w ∈ ws, IsToken w) :
    ∀ w ∈ trimTokens ws, IsToken w :=
  forall_trimTokens (fun _ => isToken_trimStart) (fun _ => isToken_trimEnd) h

theorem trimTokensStart_append (vs ws : List Text) :
    trimTokensStart (vs ++ ws) =
      if trimTokensStart vs = [] then trimTokensStart ws else trimTokensStart vs ++ ws := by
  induction vs with
  | nil => rfl
  | cons v vs ih =>
    rw [List.cons_append, trimTokensStart, trimTokensStart]
    by_cases hv : trimStart v = []
    · rw [if_pos hv, if_pos hv, ih]
    · rw [if_neg hv, if_neg hv, if_neg (List.cons_ne_nil _ _)]
      rfl

theorem trimTokensEnd_append (vs ws : List Text) :
    trimTokensEnd (vs ++ ws) =
      if trimTokensEnd ws = [] then trimTokensEnd vs else vs ++ trimTokensEnd ws := by
  induction vs with
  | nil => by_cases hws : trimTokensEnd ws = [] <;> simp [hws, trimTokensEnd]
  | cons v vs ih =>
    rw [List.cons_append, trimTokensEnd, ih]
    by_cases hws : trimTokensEnd ws = []
    · rw [if_pos hws, if_pos hws, trimTokensEnd]
    · rw [if_neg hws, if_neg hws, if_neg (by simp [hws])]
      rfl

/-- Trimming a text that was written trims its tokens. -/
theorem tokens_trim_written {ws : List Text} (h : ∀ w ∈ ws, IsToken w) :
    tokens (trim (written ws)) = trimTokens ws := by
  rw [trim_written, tokens_joined (.of_forall (isToken_trimTokens h))]

/-! ## 4. Fragments -/

/-- True of complete tokens other than braces. -/
def Plain (w : Text) : Prop := IsToken w ∧ w ≠ ['\x7b'] ∧ w ≠ ['\x7d']

/-- A text as the tree keeps it: its tokens, put together and trimmed. -/
structure Fragment (t : Text) : Prop where
  ne_nil : t ≠ []
  plain : ∀ w ∈ tokens t, Plain w
  written : trim (written (tokens t)) = t

theorem plain_word {w : Text} (hne : w ≠ []) (hall : ∀ c ∈ w, continuesWord c = true) :
    Plain w := by
  refine ⟨.word w hne hall, ?_, ?_⟩ <;> rintro rfl
  · exact absurd (hall '\x7b' (by simp)) (by decide)
  · exact absurd (hall '\x7d' (by simp)) (by decide)

/-- A text all of whose tokens are line breaks or words. -/
theorem fragment_of_words {t : Text} (hne : t ≠ [])
    (hwords : (tokens t).all (fun w => isBreak w || (w != [] && w.all continuesWord)) = true)
    (hwritten : trim (written (tokens t)) = t) : Fragment t where
  ne_nil := hne
  plain := by
    intro w hw
    have hw := List.all_eq_true.1 hwords w hw
    rw [Bool.or_eq_true, Bool.and_eq_true, bne_iff_ne] at hw
    rcases hw with hbreak | ⟨hne, hall⟩
    · rcases isBreak_iff.1 hbreak with rfl | rfl
      · exact ⟨.newline, by decide, by decide⟩
      · exact ⟨.carriageReturn, by decide, by decide⟩
    · exact plain_word hne (List.all_eq_true.1 hall)
  written := hwritten

theorem plain_trimStart {w : Text} (h : Plain w) (hne : trimStart w ≠ []) :
    Plain (trimStart w) := by
  by_cases hb : isBreak w = true
  · exact absurd (trimStart_eq_nil.2 (isBlank_of_isBreak hb)) hne
  · rcases h.1.trimStart_eq (by simpa using hb) with he | hall
    · rwa [he]
    · exact plain_word hne fun c hc => hall c (mem_of_mem_trimStart hc)

theorem plain_trimEnd {w : Text} (h : Plain w) (hne : trimEnd w ≠ []) : Plain (trimEnd w) := by
  by_cases hb : isBreak w = true
  · exact absurd (trimEnd_eq_nil.2 (isBlank_of_isBreak hb)) hne
  · rcases h.1.trimEnd_eq (by simpa using hb) with he | hall
    · rwa [he]
    · exact plain_word hne fun c hc => hall c (mem_of_mem_trimEnd hc)

/-- A text that was put together does not change when its tokens are put together again. -/
theorem trim_written_tokens {ws : List Text} (h : ∀ w ∈ ws, IsToken w) :
    trim (written (tokens (trim (written ws)))) = trim (written ws) := by
  have ht := isToken_trimTokens h
  rw [tokens_trim_written h, trim_written ws]
  cases hws : trimTokens ws with
  | nil => rfl
  | cons v vs =>
    rw [hws] at ht
    have hj : joined (v :: vs) = trim (written ws) := by rw [trim_written, hws]
    -- In front of the first token stands at most a space, and trimming drops it.
    rw [trim, written_cons, trimStart_piece_append]
    show trim (joined (v :: vs)) = joined (v :: vs)
    rw [hj, trim_trim]

theorem fragment_trim_written {ws : List Text} (h : ∀ w ∈ ws, Plain w)
    (hne : trim (written ws) ≠ []) : Fragment (trim (written ws)) where
  ne_nil := hne
  plain := by
    rw [tokens_trim_written fun w hw => (h w hw).1]
    exact forall_trimTokens (fun _ => plain_trimStart) (fun _ => plain_trimEnd) h
  written := trim_written_tokens fun w hw => (h w hw).1

namespace Fragment

variable {t : Text}

theorem closed (h : Fragment t) : Closed t := fun w hw => (h.plain w hw).1

theorem trim_eq (h : Fragment t) : trim t = t := by
  rw [← h.written, trim_trim]

theorem trimTokens_eq (h : Fragment t) : trimTokens (tokens t) = tokens t := by
  rw [← tokens_trim_written h.closed, h.written]

theorem joined_eq (h : Fragment t) : joined (tokens t) = t := by
  rw [← h.trimTokens_eq, ← trim_written, h.written]

theorem tokens_ne_nil (h : Fragment t) : tokens t ≠ [] := by
  intro hnil
  have := h.joined_eq
  rw [hnil] at this
  exact h.ne_nil this.symm

/-- A text of tokens ends with the last of them. -/
theorem exists_append_getLast (h : Fragment t) :
    ∃ u w, t = u ++ w ∧ (tokens t).getLast? = some w := by
  obtain hnil | ⟨vs, w, hw⟩ := List.eq_nil_or_concat (tokens t)
  · exact absurd hnil h.tokens_ne_nil
  · rw [List.concat_eq_append] at hw
    have ht := h.joined_eq
    rw [hw, List.getLast?_concat]
    rw [hw] at ht
    cases vs with
    | nil =>
      refine ⟨[], w, ?_, rfl⟩
      rw [← ht, List.nil_append, joined, written_nil, List.append_nil]
      rfl
    | cons v vs =>
      refine ⟨v ++ Text.written vs ++ if isBreak w then [] else [' '], w, ?_, rfl⟩
      rw [← ht, List.cons_append, joined, written_append, written_cons, written_nil, piece]
      split <;> simp

/-- The last token of a text is no line break. -/
theorem getLast_tokens (h : Fragment t) : ∀ w ∈ (tokens t).getLast?, isBreak w = false := by
  obtain ⟨u, w, ht, hlast⟩ := h.exists_append_getLast
  intro v hv
  obtain rfl := Option.some.inj (hlast.symm.trans hv)
  rw [← Bool.not_eq_true]
  intro hb
  have htrim := h.trim_eq
  rw [trim] at htrim
  have hblank := isBlank_of_isBreak hb
  rcases isBreak_iff.1 hb with rfl | rfl
  · have := getLast_trimEnd (htrim.trans ht)
    rw [hblank _ (by simp)] at this
    cases this
  · have := getLast_trimEnd (htrim.trans ht)
    rw [hblank _ (by simp)] at this
    cases this

/-- A text that ends with a full stop behind a space has it as its last token. -/
theorem getLast_tokens_of_suffix (h : Fragment t) (hdot : [' ', '.'] <:+ t) :
    (tokens t).getLast? = some ['.'] := by
  obtain ⟨u, w, ht, hlast⟩ := h.exists_append_getLast
  have htoken := (h.plain w (List.mem_of_getLast? hlast)).1
  obtain ⟨x, hx⟩ := hdot
  rw [hlast]
  obtain hnil | ⟨w', c, hw⟩ := List.eq_nil_or_concat w
  · exact absurd hnil htoken.ne_nil
  · rw [List.concat_eq_append] at hw
    have he : x ++ [' '] ++ ['.'] = u ++ w' ++ [c] := by
      rw [List.append_assoc, List.append_assoc, ← hw, ← ht]
      exact hx
    obtain ⟨he, hc⟩ := List.append_inj' he rfl
    obtain rfl := (List.cons_eq_cons.1 hc).1
    obtain rfl | ⟨w'', d, hw'⟩ := List.eq_nil_or_concat w'
    · rw [hw]
      rfl
    · -- A longer word would have the space in it.
      rw [List.concat_eq_append] at hw'
      rw [hw', ← List.append_assoc] at he
      have he : x ++ [' '] = u ++ w'' ++ [d] := List.append_cancel_right he
      obtain rfl := (List.cons_eq_cons.1 (List.append_inj' he rfl).2).1
      have hall := htoken.word_of_getLast (c := '.') (by rw [hw, List.getLast?_concat]) (by decide)
        (by decide)
      exact absurd (hall ' ' (by simp [hw, hw'])) (by decide)

/-- A text begins with the first character of its first token. -/
theorem head_tokens (h : Fragment t) : ∀ w ∈ (tokens t).head?, w.head? = t.head? := by
  intro w hw
  obtain ⟨ws, hws⟩ := List.head?_eq_some_iff.1 hw
  have hne := (h.plain w (List.mem_of_mem_head? hw)).1.ne_nil
  have ht := h.joined_eq
  rw [hws, joined] at ht
  obtain ⟨c, w', rfl⟩ := List.exists_cons_of_ne_nil hne
  rw [← ht]
  rfl

end Fragment

end SparqlTree.Text
