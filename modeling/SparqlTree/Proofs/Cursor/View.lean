import SparqlTree.Cursor.Progress
import SparqlTree.Proofs.Text.Caseless

/-!
# What a cursor shows

How a text is read depends only on the texts of the tokens after the cursor, since their kinds can
be told from their texts. `Shows` lists these texts, and `Sees` lists them from the next token that
is no line break. The cursors of a text are `Lexed`: the texts of all its tokens, those before the
cursor and those after it, could have been read from a text. `Passed` says which tokens were
consumed between two such cursors, line breaks apart.
-/

namespace SparqlTree

open Text (isBreak IsToken Scanned)

/-- The length of a token. Line breaks and WHERE do not count, since they are written wherever that
is useful. -/
def bulk (w : Text) : Nat := if isBreak w || Keyword.whereClause.spells w then 0 else w.length

/-- The bulk of several tokens. -/
def bulkAll : List Text → Nat
  | [] => 0
  | w :: ws => bulk w + bulkAll ws

@[simp] theorem bulkAll_nil : bulkAll [] = 0 := rfl

@[simp] theorem bulkAll_cons (w : Text) (ws : List Text) :
    bulkAll (w :: ws) = bulk w + bulkAll ws := rfl

@[simp] theorem bulkAll_append (vs ws : List Text) :
    bulkAll (vs ++ ws) = bulkAll vs + bulkAll ws := by
  induction vs with
  | nil => rw [List.nil_append, bulkAll_nil, Nat.zero_add]
  | cons v vs ih => rw [List.cons_append, bulkAll_cons, bulkAll_cons, ih, Nat.add_assoc]

theorem bulk_le_length (w : Text) : bulk w ≤ w.length := by
  rw [bulk]
  split
  · exact Nat.zero_le _
  · exact Nat.le_refl _

/-- True of line breaks. -/
def AllBreaks (bs : List Text) : Prop := ∀ b ∈ bs, isBreak b = true

/-- The first token that is no line break. -/
def nextToken (ws : List Text) : Option Text := (ws.dropWhile isBreak).head?

@[simp] theorem nextToken_nil : nextToken [] = none := rfl

theorem nextToken_of_break {w : Text} (h : isBreak w = true) (ws : List Text) :
    nextToken (w :: ws) = nextToken ws := by
  rw [nextToken, List.dropWhile_cons_of_pos h]
  rfl

@[simp] theorem nextToken_newline (ws : List Text) : nextToken (['\n'] :: ws) = nextToken ws :=
  nextToken_of_break rfl ws

theorem nextToken_of_single {w : Text} (h : isBreak w = false) (ws : List Text) :
    nextToken (w :: ws) = some w := by
  rw [nextToken, List.dropWhile_cons_of_neg (by rw [h]; decide)]
  rfl

/-- Where a token comes next, nothing else does. -/
theorem forall_nextToken {P : Text → Prop} {w : Text} (h : isBreak w = false) (hP : P w)
    (ws : List Text) : ∀ v ∈ nextToken (w :: ws), P v := by
  intro v hv
  rw [nextToken_of_single h] at hv
  obtain rfl := Option.some.inj hv
  exact hP

theorem nextToken_append {vs ws : List Text} {w : Text} (h : nextToken vs = some w) :
    nextToken (vs ++ ws) = some w := by
  induction vs with
  | nil => nomatch h
  | cons v vs ih =>
    by_cases hv : isBreak v = true
    · rw [nextToken_of_break hv] at h
      rw [List.cons_append, nextToken_of_break hv, ih h]
    · rw [Bool.not_eq_true] at hv
      rw [nextToken_of_single hv] at h
      rw [List.cons_append, nextToken_of_single hv, h]

theorem nextToken_append_breaks {bs ws : List Text} (hbs : AllBreaks bs) :
    nextToken (bs ++ ws) = nextToken ws := by
  rw [nextToken, List.dropWhile_append_of_pos hbs]
  rfl

theorem exists_of_nextToken {ws : List Text} {w : Text} (h : nextToken ws = some w) :
    ∃ bs ws', ws = bs ++ w :: ws' ∧ AllBreaks bs ∧ isBreak w = false := by
  obtain ⟨ws', hd⟩ := List.head?_eq_some_iff.1 h
  refine ⟨ws.takeWhile isBreak, ws', ?_, fun b hb => List.all_eq_true.1 List.all_takeWhile b hb, ?_⟩
  · rw [← hd, List.takeWhile_append_dropWhile]
  · have hw := List.head?_dropWhile_not isBreak ws
    rw [hd] at hw
    simpa using hw

namespace Cursor

/-- The texts of the tokens after a cursor, and that they have the kinds of these texts. -/
def Shows (c : Cursor) (ws : List Text) : Prop :=
  c.upcoming.map (fun t => (t.kind, t.text)) = ws.map fun w => (TokenKind.classify w, w)

/-- The texts of the tokens after a cursor and some line breaks. -/
def Sees (c : Cursor) (ws : List Text) : Prop := ∃ bs, AllBreaks bs ∧ c.Shows (bs ++ ws)

/-- The texts of the tokens before a cursor, in the order in which they were consumed. -/
def past (c : Cursor) : List Text := (c.consumed.map Token.text).reverse

/-- True of the cursors in tokens that were read from a text, or cut from such tokens. -/
def Lexed (c : Cursor) : Prop := ∃ ws, c.Shows ws ∧ Scanned (c.past ++ ws)

/-! ## 1. Steps forward -/

variable {c : Cursor} {ws : List Text}

theorem advance_of_nil (h : c.upcoming = []) (n : Nat) : c.advance n = c := by
  obtain ⟨_, _, _, _, _⟩ := c
  change _ = [] at h
  subst h
  rw [advance, List.take_nil, List.drop_nil]
  rfl

theorem Shows.texts (h : c.Shows ws) : c.upcoming.map Token.text = ws := by
  have h' := congrArg (List.map Prod.snd) h
  simpa [Function.comp_def] using h'

theorem Shows.of_texts (hk : ∀ t ∈ c.upcoming, t.kind = TokenKind.classify t.text) :
    c.Shows (c.upcoming.map Token.text) := by
  rw [Shows, List.map_map]
  exact List.map_congr_left fun t ht => by rw [hk t ht]; rfl

theorem Shows.advance (h : c.Shows ws) (n : Nat) : (c.advance n).Shows (ws.drop n) := by
  rw [Shows] at *
  show (c.upcoming.drop n).map _ = _
  rw [List.map_drop, h, List.map_drop]

theorem past_advance (h : c.Shows ws) (n : Nat) : (c.advance n).past = c.past ++ ws.take n := by
  show (((c.upcoming.take n).reverse ++ c.consumed).map Token.text).reverse = _
  rw [List.map_append, List.reverse_append, List.map_reverse, List.reverse_reverse, List.map_take,
    h.texts]
  rfl

theorem length_takeWhile_upcoming (h : c.Shows ws) :
    (c.upcoming.takeWhile Token.isLineBreak).length = (ws.takeWhile isBreak).length := by
  obtain ⟨_, us, _, _, _⟩ := c
  change us.map _ = _ at h
  show (us.takeWhile _).length = _
  induction us generalizing ws with
  | nil =>
    obtain rfl := List.map_eq_nil_iff.1 h.symm
    rfl
  | cons t us ih =>
    cases ws with
    | nil => nomatch h
    | cons w ws =>
      obtain ⟨ht, hus⟩ := List.cons_eq_cons.1 h
      obtain ⟨hk, hw⟩ := Prod.mk.inj ht
      have hb : t.isLineBreak = isBreak w := by rw [Token.isLineBreak, isBreak, hk]
      rw [List.takeWhile_cons, List.takeWhile_cons, hb]
      split
      · rw [List.length_cons, List.length_cons, ih hus]
      · rfl

theorem takeWhile_append_cons {bs : List Text} {w : Text} (hbs : AllBreaks bs)
    (hw : isBreak w = false) : (bs ++ w :: ws).takeWhile isBreak = bs := by
  rw [List.takeWhile_append_of_pos hbs, List.takeWhile_cons_of_neg (by rw [hw]; decide),
    List.append_nil]

theorem Shows.skipBreaks {bs : List Text} {w : Text} (h : c.Shows (bs ++ w :: ws))
    (hbs : AllBreaks bs) (hw : isBreak w = false) : c.skipBreaks.Shows (w :: ws) := by
  have hs := h.advance (c.upcoming.takeWhile Token.isLineBreak).length
  rw [length_takeWhile_upcoming h, takeWhile_append_cons hbs hw, List.drop_left] at hs
  rw [Cursor.skipBreaks, length_takeWhile_upcoming h, takeWhile_append_cons hbs hw]
  exact hs

/-- The next token is seen, and the cursor behind it shows the rest. -/
theorem Shows.step {bs : List Text} {w : Text} (h : c.Shows (bs ++ w :: ws))
    (hbs : AllBreaks bs) (hw : isBreak w = false) :
    ∃ t, c.peek = some t ∧ t.text = w ∧ t.kind = TokenKind.classify w ∧ c.pass.Shows ws := by
  have hs := h.skipBreaks hbs hw
  have hp := peek_eq_head?_skipBreaks c
  rw [Shows] at hs
  cases hu : c.skipBreaks.upcoming with
  | nil => rw [hu] at hs; nomatch hs
  | cons t us =>
    rw [hu] at hs hp
    obtain ⟨ht, -⟩ := List.cons_eq_cons.1 hs
    obtain ⟨hk, ht⟩ := Prod.mk.inj ht
    exact ⟨t, hp, ht, hk, (h.skipBreaks hbs hw).advance 1⟩

theorem Sees.step {w : Text} (h : c.Sees (w :: ws)) (hw : isBreak w = false) :
    ∃ t, c.peek = some t ∧ t.text = w ∧ t.kind = TokenKind.classify w ∧ c.pass.Shows ws := by
  obtain ⟨bs, hbs, h⟩ := h
  exact h.step hbs hw

theorem Shows.sees (h : c.Shows ws) : c.Sees ws := ⟨[], fun _ hb => (nomatch hb), h⟩

theorem Sees.of_break {b : Text} (h : c.Sees (b :: ws)) (hb : isBreak b = true) : c.Sees ws := by
  obtain ⟨bs, hbs, h⟩ := h
  refine ⟨bs ++ [b], fun w hw => ?_, by rwa [List.append_assoc]⟩
  rcases List.mem_append.1 hw with hw | hw
  · exact hbs w hw
  · exact List.mem_singleton.1 hw ▸ hb

/-- How the tokens after a cursor are divided by the next one that is no line break. -/
theorem Shows.of_peek {t : Token} (h : c.Shows ws) (hp : c.peek = some t) :
    ∃ bs ws', ws = bs ++ t.text :: ws' ∧ AllBreaks bs ∧ isBreak t.text = false ∧
      t.kind = TokenKind.classify t.text ∧ c.pass.Shows ws' := by
  -- If only line breaks were left then there would be no token to peek at.
  have hd : ws.dropWhile isBreak ≠ [] := by
    intro hd
    have hs := h.advance (c.upcoming.takeWhile Token.isLineBreak).length
    have hlen : (ws.takeWhile isBreak).length = ws.length := by
      conv => rhs; rw [← List.takeWhile_append_dropWhile (p := isBreak) (l := ws), hd]
      simp
    rw [length_takeWhile_upcoming h, hlen, List.drop_length] at hs
    rw [peek_eq_head?_skipBreaks, Cursor.skipBreaks, length_takeWhile_upcoming h, hlen,
      List.map_eq_nil_iff.1 hs] at hp
    nomatch hp
  cases hw : ws.dropWhile isBreak with
  | nil => exact absurd hw hd
  | cons w ws' =>
    have hws : ws = ws.takeWhile isBreak ++ w :: ws' := by
      rw [← hw, List.takeWhile_append_dropWhile]
    have hbs : AllBreaks (ws.takeWhile isBreak) :=
      fun b hb => List.all_eq_true.1 List.all_takeWhile b hb
    have hb : isBreak w = false := by
      have := List.head?_dropWhile_not isBreak ws
      rw [hw] at this
      simpa using this
    rw [hws] at h
    obtain ⟨t', hp', ht, hk, hpass⟩ := h.step hbs hb
    obtain rfl : t' = t := Option.some.inj (hp'.symm.trans hp)
    rw [ht]
    exact ⟨_, ws', hws, hbs, hb, hk, hpass⟩

/-! ## 2. Lexed cursors -/

theorem Lexed.advance (h : c.Lexed) (n : Nat) : (c.advance n).Lexed := by
  obtain ⟨ws, hs, hscan⟩ := h
  refine ⟨ws.drop n, hs.advance n, ?_⟩
  rw [past_advance hs, List.append_assoc, List.take_append_drop]
  exact hscan

theorem Lexed.pass (h : c.Lexed) : c.pass.Lexed := (h.advance _).advance 1

theorem lexed_start (t : Text) (stop : Nat) : (start (tokenize t) stop).Lexed :=
  ⟨Text.tokens t, Shows.of_texts fun _ ht => Text.kind_tokenize ht, Text.scanned_tokens t⟩

/-- A word can be cut in two anywhere. -/
theorem scanned_cut {us ws : List Text} {front back : Text} (hf : front ≠ []) (hb : back ≠ [])
    (hword : ∀ ch ∈ front ++ back, Text.continuesWord ch = true)
    (h : Scanned (us ++ (front ++ back) :: ws)) : Scanned (us ++ front :: back :: ws) := by
  induction us with
  | nil =>
    exact .cons (.word front hf fun ch hc => hword ch (List.mem_append_left _ hc))
      (.cons (.word back hb fun ch hc => hword ch (List.mem_append_right _ hc)) h.tail)
  | cons u us ih =>
    have hne : (front ++ back) :: ws ≠ [] := List.cons_ne_nil _ _
    exact .cons (h.forall_of_append hne u (by simp)) (ih h.tail)

/-- A token that begins with a word character is complete wherever it stands. -/
theorem word_of_scanned {us ws : List Text} {w : Text} {ch : Char}
    (h : Scanned (us ++ (ch :: w) :: ws)) (hc : Text.continuesWord ch = true) :
    ∀ d ∈ ch :: w, Text.continuesWord d = true := by
  have h := h.of_append
  cases h with
  | leftOpen hw =>
    obtain ⟨hw, -⟩ := hw
    cases hw with
    | string => exact absurd hc (by decide)
    | iri => exact absurd hc (by decide)
  | cons hw _ => exact hw.word_of_head hc

/-- Whether the token consumed last is cut, and what the cut comes to. -/
theorem breakOff?_of_consumed {t : Token} {before : List Token} (hcons : c.consumed = t :: before)
    (head : Text) : c.breakOff? head =
      if head ≠ [] ∧ head.length < t.text.length ∧
          Text.sameLetters (t.text.take head.length) head then
        some { c with
          consumed := (t.cut (t.text.take head.length) (t.text.drop head.length)).1 :: before
          upcoming := (t.cut (t.text.take head.length) (t.text.drop head.length)).2 :: c.upcoming }
      else none := by
  rw [breakOff?, hcons]
  simp only [replaceCurrent, hcons]
  rfl

theorem exists_consumed_of_breakOff? {c' : Cursor} {head : Text} (h : c.breakOff? head = some c') :
    ∃ t before, c.consumed = t :: before := by
  cases hcons : c.consumed with
  | nil =>
    rw [breakOff?, hcons] at h
    nomatch h
  | cons t before => exact ⟨t, before, rfl⟩

/-- The tokens before and after a cursor that cuts a word are those before, with the pieces in the
place of the word. -/
theorem breakOff?_eq_some {c' : Cursor} {head : Text} (h : c.breakOff? head = some c') :
    ∃ t before, c.consumed = t :: before ∧ head ≠ [] ∧ head.length < t.text.length ∧
      Text.sameLetters (t.text.take head.length) head = true ∧
      c'.consumed = (t.cut (t.text.take head.length) (t.text.drop head.length)).1 :: before ∧
      c'.upcoming =
        (t.cut (t.text.take head.length) (t.text.drop head.length)).2 :: c.upcoming := by
  obtain ⟨t, before, hcons⟩ := exists_consumed_of_breakOff? h
  rw [breakOff?_of_consumed hcons] at h
  split at h
  · next hcut =>
    obtain rfl := Option.some.inj h
    exact ⟨t, before, hcons, hcut.1, hcut.2.1, hcut.2.2, rfl, rfl⟩
  · nomatch h

/-- A token that begins with the head and is not cut does not go on behind it. -/
theorem length_le_of_breakOff?_eq_none {head : Text} {t : Token} {before : List Token}
    (h : c.breakOff? head = none) (hcons : c.consumed = t :: before) (hne : head ≠ [])
    (hsame : Text.sameLetters (t.text.take head.length) head = true) :
    t.text.length ≤ head.length := by
  rw [breakOff?_of_consumed hcons] at h
  split at h
  · nomatch h
  · next hno =>
    rcases Nat.lt_or_ge head.length t.text.length with hlt | hge
    · exact absurd ⟨hne, hlt, hsame⟩ hno
    · exact hge

theorem Lexed.breakOff? {c' : Cursor} {head : Text} (h : c.Lexed)
    (hhead : ∀ ch ∈ head, Text.continuesWord ch = true) (hc : c.breakOff? head = some c') :
    c'.Lexed := by
  obtain ⟨t, before, hcons, hne, hlt, hsame, hcons', hup'⟩ := breakOff?_eq_some hc
  obtain ⟨ws, hs, hscan⟩ := h
  have hfront : t.text.take head.length ≠ [] := by
    rw [← List.length_pos_iff, List.length_take]
    have := List.length_pos_iff.2 hne
    omega
  have hback : t.text.drop head.length ≠ [] := by
    rw [← List.length_pos_iff, List.length_drop]
    omega
  have hpast : c.past = (before.map Token.text).reverse ++ [t.text] := by simp [past, hcons]
  have hpast' : c'.past = (before.map Token.text).reverse ++ [t.text.take head.length] := by
    simp [past, hcons', Token.cut]
  -- The head has word characters only, so the token begins with one and is a word.
  have hword : ∀ ch ∈ t.text, Text.continuesWord ch = true := by
    have hf := Text.forall_of_sameLetters Text.continuesWord_toUpper hsame hhead
    cases htext : t.text with
    | nil => rw [htext] at hlt; cases hlt
    | cons ch w =>
      rw [hpast, htext, List.append_assoc] at hscan
      refine word_of_scanned hscan (hf ch ?_)
      cases hn : head.length with
      | zero => exact absurd (List.length_eq_zero_iff.1 hn) hne
      | succ n => simp [htext]
  refine ⟨t.text.drop head.length :: ws, ?_, ?_⟩
  · rw [Shows, hup', List.map_cons, List.map_cons, ← hs]
    rfl
  · rw [hpast', List.append_assoc]
    apply scanned_cut hfront hback (by rwa [List.take_append_drop])
    rw [hpast, List.append_assoc] at hscan
    rwa [List.take_append_drop]

theorem Lexed.breakOff {head : Text} (h : c.Lexed)
    (hhead : ∀ ch ∈ head, Text.continuesWord ch = true) : (c.breakOff head).Lexed := by
  rw [Cursor.breakOff]
  cases hc : c.breakOff? head with
  | none => exact h
  | some c' => exact h.breakOff? hhead hc

/-! ## 3. Consumed tokens -/

/-- The bulk of the tokens that come next. -/
def bulk (c : Cursor) : Nat := bulkAll (c.upcoming.map Token.text)

/-- Between the two cursors the tokens with the given texts were consumed, line breaks apart. -/
structure Passed (c : Cursor) (ws : List Text) (c' : Cursor) : Prop where
  lexed : c'.Lexed
  bulk : bulkAll ws + c'.bulk ≤ c.bulk
  consumed : ∃ ts : List Token, c'.consumed = ts.reverse ++ c.consumed ∧
    (ts.map Token.text).filter (!isBreak ·) = ws ∧
    c.upcoming.flatMap Token.text = ts.flatMap Token.text ++ c'.upcoming.flatMap Token.text

theorem Lexed.passed (h : c.Lexed) : c.Passed [] c :=
  ⟨h, Nat.le_of_eq (Nat.zero_add _), [], rfl, rfl, rfl⟩

theorem Passed.trans {c₁ c₂ : Cursor} {vs ws : List Text} (h : c.Passed vs c₁)
    (h' : c₁.Passed ws c₂) : c.Passed (vs ++ ws) c₂ := by
  obtain ⟨-, hbulk, ts, hts, hvs, hflat⟩ := h
  obtain ⟨hlex, hbulk', us, hus, hws, hflat'⟩ := h'
  refine ⟨hlex, ?_, ts ++ us, ?_, ?_, ?_⟩
  · rw [bulkAll_append]
    omega
  · rw [hus, hts, List.reverse_append, List.append_assoc]
  · rw [List.map_append, List.filter_append, hvs, hws]
  · rw [hflat, hflat', List.flatMap_append, List.append_assoc]

theorem Passed.noBreak {c' : Cursor} {vs : List Text} (h : c.Passed vs c') :
    ∀ v ∈ vs, isBreak v = false := by
  obtain ⟨-, -, ts, -, rfl, -⟩ := h
  intro v hv
  simpa using (List.mem_filter.1 hv).2

/-- What holds of all characters that come next holds of those in the consumed tokens. -/
theorem Passed.forall_mem {p : Char → Prop} {c' : Cursor} {vs : List Text} (h : c.Passed vs c')
    (hp : ∀ t ∈ c.upcoming, ∀ ch ∈ t.text, p ch) : ∀ v ∈ vs, ∀ ch ∈ v, p ch := by
  obtain ⟨-, -, ts, -, rfl, hflat⟩ := h
  intro v hv ch hch
  obtain ⟨t, ht, rfl⟩ := List.mem_map.1 (List.mem_filter.1 hv).1
  have hm : ch ∈ c.upcoming.flatMap Token.text := by
    rw [hflat]
    exact List.mem_append_left _ (List.mem_flatMap.2 ⟨t, ht, hch⟩)
  obtain ⟨u, hu, hcu⟩ := List.mem_flatMap.1 hm
  exact hp u hu ch hcu

/-- The consumed tokens and those that come next could have been read from a text. -/
theorem Passed.scanned_append {c' : Cursor} {vs : List Text} (h : c.Passed vs c') :
    ∃ us ws, vs = us.filter (!isBreak ·) ∧ c'.Shows ws ∧ Scanned (us ++ ws) := by
  obtain ⟨⟨ws, hs, hscan⟩, -, ts, hts, hvs, -⟩ := h
  refine ⟨ts.map Token.text, ws, hvs.symm, hs, ?_⟩
  rw [past, hts, List.map_append, List.map_reverse, List.reverse_append, List.reverse_reverse,
    List.append_assoc] at hscan
  exact hscan.of_append

theorem Passed.scanned {c' : Cursor} {vs : List Text} (h : c.Passed vs c') : Scanned vs := by
  obtain ⟨us, ws, rfl, -, hscan⟩ := h.scanned_append
  exact hscan.of_append_left.filter _

/-- The tokens consumed before another one are complete. -/
theorem Passed.isToken {c' : Cursor} {vs : List Text} {w : Text} (h : c.Passed (vs ++ [w]) c') :
    ∀ v ∈ vs, IsToken v :=
  h.scanned.forall_of_append (by simp)

theorem Passed.isToken_of_peek {c' : Cursor} {vs : List Text} {t : Token} (h : c.Passed vs c')
    (hp : c'.peek = some t) : ∀ v ∈ vs, IsToken v := by
  obtain ⟨us, ws, rfl, hs, hscan⟩ := h.scanned_append
  obtain ⟨bs, ws', rfl, -⟩ := hs.of_peek hp
  intro v hv
  exact hscan.forall_of_append (by simp) v (List.mem_filter.1 hv).1

theorem Lexed.of_peek {t : Token} (h : c.Lexed) (hp : c.peek = some t) :
    isBreak t.text = false ∧ t.kind = TokenKind.classify t.text := by
  obtain ⟨ws, hs, -⟩ := h
  obtain ⟨_, _, _, _, hb, hk, _⟩ := hs.of_peek hp
  exact ⟨hb, hk⟩

theorem Lexed.word_of_peek {t : Token} (h : c.Lexed) (hp : c.peek = some t)
    (hc : ∀ ch ∈ t.text.head?, Text.continuesWord ch = true) :
    ∀ ch ∈ t.text, Text.continuesWord ch = true := by
  obtain ⟨ws, hs, hscan⟩ := h
  obtain ⟨bs, ws', rfl, -⟩ := hs.of_peek hp
  rw [← List.append_assoc] at hscan
  cases ht : t.text with
  | nil => exact fun _ h => nomatch h
  | cons ch w =>
    rw [ht] at hscan hc
    exact word_of_scanned hscan (hc ch rfl)

theorem Lexed.kind_of_mem {t : Token} (h : c.Lexed) (ht : t ∈ c.upcoming) :
    t.kind = TokenKind.classify t.text := by
  obtain ⟨ws, hs, -⟩ := h
  have hmem : (t.kind, t.text) ∈ ws.map fun w => (TokenKind.classify w, w) :=
    hs ▸ List.mem_map_of_mem ht
  obtain ⟨w, -, hw⟩ := List.mem_map.1 hmem
  obtain ⟨hkind, rfl⟩ := Prod.mk.inj hw
  exact hkind.symm

theorem Lexed.filter_breaks (h : c.Lexed) :
    ((c.upcoming.takeWhile Token.isLineBreak).map Token.text).filter (!isBreak ·) = [] := by
  rw [List.filter_eq_nil_iff]
  intro w hw
  obtain ⟨u, hu, rfl⟩ := List.mem_map.1 hw
  have hkind := h.kind_of_mem ((List.takeWhile_sublist _).subset hu)
  have hbr : u.isLineBreak = true := List.all_eq_true.1 List.all_takeWhile u hu
  rw [isBreak, ← hkind]
  simpa [Token.isLineBreak] using hbr

/-- Where no token comes next, only line breaks are left. -/
theorem isLineBreak_of_peek_eq_none (h : c.peek = none) :
    ∀ t ∈ c.upcoming, t.isLineBreak = true := by
  have hall := List.takeWhile_append_dropWhile (p := Token.isLineBreak) (l := c.upcoming)
  rw [peek_eq_head?_skipBreaks, List.head?_eq_none_iff, upcoming_skipBreaks] at h
  rw [h, List.append_nil] at hall
  rw [← hall]
  exact List.all_eq_true.1 List.all_takeWhile

theorem upcoming_eq_of_peek {t : Token} (hp : c.peek = some t) :
    c.upcoming = c.upcoming.takeWhile Token.isLineBreak ++ t :: c.pass.upcoming := by
  rw [← skipBreaks_upcoming_eq_of_peek hp, upcoming_skipBreaks, List.takeWhile_append_dropWhile]

theorem bulk_of_peek {t : Token} (hp : c.peek = some t) :
    SparqlTree.bulk t.text + c.pass.bulk ≤ c.bulk := by
  rw [bulk, bulk, upcoming_eq_of_peek hp, List.map_append, bulkAll_append, List.map_cons,
    bulkAll_cons]
  omega

theorem Lexed.passed_pass {t : Token} (h : c.Lexed) (hp : c.peek = some t) :
    c.Passed [t.text] c.pass := by
  refine ⟨h.pass, ?_, c.upcoming.takeWhile Token.isLineBreak ++ [t], ?_, ?_, ?_⟩
  · rw [bulkAll_cons, bulkAll_nil]
    exact bulk_of_peek hp
  · rw [consumed_pass_of_peek hp, consumed_skipBreaks, List.reverse_append]
    rfl
  · rw [List.map_append, List.filter_append, h.filter_breaks]
    simp [(h.of_peek hp).1]
  · rw [← List.flatMap_append, List.append_assoc, List.singleton_append, ← upcoming_eq_of_peek hp]

/-- Cutting the token that was just consumed leaves its front consumed. -/
theorem Lexed.passed_breakOff? {t : Token} {c' : Cursor} {head : Text} (h : c.Lexed)
    (hp : c.peek = some t) (hhead : ∀ ch ∈ head, Text.continuesWord ch = true)
    (hwhere : Keyword.whereClause.spells t.text = false)
    (hc : c.pass.breakOff? head = some c') : c.Passed [t.text.take head.length] c' := by
  obtain ⟨u, before, hcons, hne, hlt, hsame, hcons', hup'⟩ := breakOff?_eq_some hc
  rw [consumed_pass_of_peek hp] at hcons
  obtain ⟨rfl, rfl⟩ := List.cons_eq_cons.1 hcons
  refine ⟨h.pass.breakOff? hhead hc, ?_, ?_⟩
  · -- The pieces are together as long as the token.
    have htoken := bulk_of_peek hp
    have hfront := bulk_le_length (t.text.take head.length)
    have hback := bulk_le_length (t.text.drop head.length)
    have hlen := congrArg List.length (List.take_append_drop head.length t.text)
    rw [List.length_append] at hlen
    rw [SparqlTree.bulk, (h.of_peek hp).1, hwhere, if_neg (by decide)] at htoken
    have hnext : c'.bulk = SparqlTree.bulk (t.text.drop head.length) + c.pass.bulk := by
      rw [bulk, hup', List.map_cons, bulkAll_cons]
      rfl
    rw [bulkAll_cons, bulkAll_nil, hnext]
    omega
  -- The line breaks before the token were consumed too, and of the token the front piece.
  refine ⟨c.upcoming.takeWhile Token.isLineBreak ++
    [(t.cut (t.text.take head.length) (t.text.drop head.length)).1], ?_, ?_, ?_⟩
  · rw [hcons', consumed_skipBreaks, List.reverse_append]
    rfl
  · have hfront := Text.isBreak_of_word
      (Text.forall_of_sameLetters Text.continuesWord_toUpper hsame hhead)
    rw [List.map_append, List.filter_append, h.filter_breaks]
    simp [Token.cut, hfront]
  -- What was consumed and what comes next make up the text as before the cut.
  · conv => lhs; rw [upcoming_eq_of_peek hp]
    rw [hup', List.flatMap_append, List.flatMap_append, List.append_assoc]
    apply congrArg (_ ++ ·)
    rw [List.flatMap_cons, List.flatMap_cons, List.flatMap_cons, List.flatMap_nil, List.append_nil,
      ← List.append_assoc]
    exact congrArg (· ++ _) (List.take_append_drop _ _).symm

/-! ## 4. Tokens consumed as they are -/

/-- All tokens of a cursor, those before it and those after it. -/
def whole (c : Cursor) : List Token := c.consumed.reverse ++ c.upcoming

/-- Between the two cursors the tokens with the given texts were consumed, line breaks apart, and no
token was cut. -/
structure Took (c : Cursor) (ws : List Text) (c' : Cursor) : Prop extends Passed c ws c' where
  whole_eq : c'.whole = c.whole

theorem whole_advance (c : Cursor) (n : Nat) : (c.advance n).whole = c.whole := by
  show ((c.upcoming.take n).reverse ++ c.consumed).reverse ++ c.upcoming.drop n = _
  rw [List.reverse_append, List.reverse_reverse, List.append_assoc, List.take_append_drop, whole]

/-- The line is told by the line feeds consumed, however far the cursor goes on. -/
theorem line_advance (h : c.line = 1 + c.consumed.countP (·.kind == .newline)) (n : Nat) :
    (c.advance n).line = 1 + (c.advance n).consumed.countP (·.kind == .newline) := by
  show c.line + (c.upcoming.take n).countP _ =
    1 + ((c.upcoming.take n).reverse ++ c.consumed).countP _
  rw [List.countP_append, List.countP_reverse, h]
  omega

theorem whole_pass (c : Cursor) : c.pass.whole = c.whole := by
  rw [pass, whole_advance, skipBreaks, whole_advance]

theorem Lexed.took (h : c.Lexed) : c.Took [] c := ⟨h.passed, rfl⟩

theorem Took.trans {c₁ c₂ : Cursor} {vs ws : List Text} (h : c.Took vs c₁) (h' : c₁.Took ws c₂) :
    c.Took (vs ++ ws) c₂ :=
  ⟨h.toPassed.trans h'.toPassed, h'.whole_eq.trans h.whole_eq⟩

theorem Lexed.took_pass {t : Token} (h : c.Lexed) (hp : c.peek = some t) :
    c.Took [t.text] c.pass := ⟨h.passed_pass hp, whole_pass c⟩

/-- The tokens that were consumed stand before those that are left. -/
theorem Took.upcoming_eq {c' : Cursor} {ws : List Text} (h : c.Took ws c') :
    ∃ ts, c.upcoming = ts ++ c'.upcoming ∧ (ts.map Token.text).filter (!isBreak ·) = ws := by
  obtain ⟨⟨-, -, ts, hts, hws, -⟩, hwhole⟩ := h
  refine ⟨ts, ?_, hws⟩
  rw [whole, whole, hts, List.reverse_append, List.reverse_reverse, List.append_assoc] at hwhole
  exact (List.append_cancel_left hwhole).symm

/-! ## 5. Keywords -/

variable {k : Keyword} {c' : Cursor}

theorem atKeyword_eq_true : c.atKeyword k = true ↔ ∃ t, c.peek = some t ∧ k.spells t.text = true :=
  Option.any_eq_true _ _

theorem atGlued_eq_true : c.atGlued k = true ↔ ∃ t, c.peek = some t ∧ k.leads t.text = true :=
  Option.any_eq_true _ _

theorem eat?_eq_some :
    c.eat? k = some c' ↔ ∃ t, c.peek = some t ∧ k.spells t.text = true ∧ c' = c.pass := by
  rw [eat?]
  split
  · next hk =>
    obtain ⟨t, hp, ht⟩ := atKeyword_eq_true.1 hk
    constructor
    · intro h
      exact ⟨t, hp, ht, (Option.some.inj h).symm⟩
    · rintro ⟨-, -, -, rfl⟩
      rfl
  · next hk =>
    constructor
    · intro h
      nomatch h
    · rintro ⟨t, hp, ht, -⟩
      exact absurd (atKeyword_eq_true.2 ⟨t, hp, ht⟩) hk

/-- A keyword that comes next would have been consumed. -/
theorem atGlued_of_eatGlued?_eq_none (h : c.eatGlued? k = none) : c.atGlued k = false := by
  rw [← Bool.not_eq_true]
  intro hat
  rw [eatGlued?, if_pos hat] at h
  nomatch h

/-- Where a keyword leads the token consumed last and nothing is cut off behind it, the token spells
the keyword. -/
theorem spells_of_breakOff?_eq_none {t : Token} {before : List Token}
    (hcons : c.consumed = t :: before) (hk : k.leads t.text = true)
    (h : c.breakOff? k.name = none) : k.spells t.text = true := by
  obtain ⟨hsame, -⟩ := Bool.and_eq_true_iff.1 hk
  have hle := length_le_of_breakOff?_eq_none h hcons k.name_ne_nil hsame
  rwa [List.take_of_length_le hle] at hsame

/-- What goes on behind a keyword goes on with a parenthesis: the token begins with a letter, so it
is a word, and of the characters that may be glued to a keyword only the parenthesis is of words. -/
theorem Lexed.paren_of_leads {t : Token} (hc : c.Lexed) (hp : c.peek = some t)
    (hk : k.leads t.text = true) (hlt : k.name.length < t.text.length) :
    ∃ rest, t.text.drop k.name.length = '(' :: rest := by
  obtain ⟨hsame, hglue⟩ := Bool.and_eq_true_iff.1 hk
  have hword : ∀ ch ∈ t.text, Text.continuesWord ch = true := by
    refine hc.word_of_peek hp fun ch hch => ?_
    have hf := Text.forall_of_sameLetters Text.continuesWord_toUpper hsame k.word_name
    have hpos := List.length_pos_iff.2 k.name_ne_nil
    obtain ⟨rest, htext⟩ := List.head?_eq_some_iff.1 hch
    apply hf ch
    rw [htext, ← Nat.succ_pred_eq_of_pos hpos, Nat.succ_eq_add_one, List.take_succ_cons]
    exact List.mem_cons_self
  cases hd : t.text.drop k.name.length with
  | nil =>
    have := List.drop_eq_nil_iff.1 hd
    omega
  | cons ch rest =>
    have hch : Text.continuesWord ch = true :=
      hword ch ((List.drop_sublist _ _).subset (hd ▸ List.mem_cons_self))
    rw [hd] at hglue
    simp only [List.head?_cons, Option.all_some, Keyword.isGlue, Bool.or_eq_true,
      beq_iff_eq] at hglue
    rcases hglue with (rfl | rfl) | rfl
    · exact absurd hch (by decide)
    · exact absurd hch (by decide)
    · exact ⟨rest, rfl⟩

/-- A keyword is consumed as a token of its own, or a parenthesis behind it comes next. -/
theorem Lexed.eatGlued?_eq_some (hc : c.Lexed) (h : c.eatGlued? k = some c') :
    (∃ t, c.peek = some t ∧ k.spells t.text = true ∧ c' = c.pass) ∨
      ∃ t, c'.peek = some t ∧ t.text.head? = some '(' := by
  unfold eatGlued? at h
  split at h
  · next hk =>
    obtain ⟨t, hp, ht⟩ := atGlued_eq_true.1 hk
    obtain rfl := Option.some.inj h
    rw [Cursor.breakOff]
    cases hb : c.pass.breakOff? k.name with
    | none =>
      exact .inl ⟨t, hp, spells_of_breakOff?_eq_none (consumed_pass_of_peek hp) ht hb, rfl⟩
    | some c₁ =>
      right
      obtain ⟨u, before, hcons, -, hlt, -, -, hup⟩ := breakOff?_eq_some hb
      rw [consumed_pass_of_peek hp] at hcons
      obtain ⟨rfl, rfl⟩ := List.cons_eq_cons.1 hcons
      obtain ⟨rest, hrest⟩ := hc.paren_of_leads hp ht hlt
      refine ⟨(t.cut (t.text.take k.name.length) (t.text.drop k.name.length)).2, ?_, ?_⟩
      · show nthToken c₁.upcoming 0 = _
        rw [hup, hrest]
        rfl
      · rw [hrest]
        rfl
  · cases h

end Cursor

end SparqlTree
