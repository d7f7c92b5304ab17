import SparqlTree.Proofs.Grammar.Stable

/-!
# Which bodies are read

`IsBody` is the grammar of bodies over the tokens of a text, as they stand there. A body is read if
and only if its tokens have this form and its blocks do not stand too deep, and reading then ends
behind the brace that closes it (`readBody_iff_isBody`). The grammar gives each token to one part
only, so it does not matter that projections and solution modifiers are read greedily.
-/

namespace SparqlTree

open Text (isBreak)
open Cursor (Lexed)

/-- The tokens of a body, its closing brace apart. In a segmented body a token that begins with a
full stop is the full stop and then the rest of the token. -/
inductive IsBody : BodyStyle → List Text → Prop
  | nil {style : BodyStyle} : IsBody style []
  | word {style : BodyStyle} {w : Text} {ws : List Text} : IsItem style w → IsBody style ws →
    IsBody style (w :: ws)
  | stop {ws : List Text} : IsBody .segmented ws → IsBody .segmented (['.'] :: ws)
  | glued {r : Text} {ws : List Text} : r ≠ [] → IsBody .segmented (r :: ws) →
    IsBody .segmented (('.' :: r) :: ws)
  | block {style : BodyStyle} {hs us vs ws : List Text} {head closed : Head} : HeadFrom hs head →
    NotSelect head us → IsBody head.bodyStyle us → CloseFrom head vs closed → IsBody style ws →
    IsBody style (hs ++ ['\x7b'] :: us ++ ['\x7d'] :: vs ++ ws)

/-! ## 1. Tokens -/

/-- The texts of tokens, line breaks left out. -/
def solidTexts (ts : List Token) : List Text := (ts.map Token.text).filter (!isBreak ·)

theorem solidTexts_append (ts us : List Token) :
    solidTexts (ts ++ us) = solidTexts ts ++ solidTexts us := by
  rw [solidTexts, List.map_append, List.filter_append]
  rfl

theorem solidTexts_cons {t : Token} (ht : isBreak t.text = false) (ts : List Token) :
    solidTexts (t :: ts) = t.text :: solidTexts ts := by
  rw [solidTexts, List.map_cons, List.filter_cons_of_pos (by rw [ht]; rfl)]
  rfl

theorem length_solidTexts_le (ts : List Token) : (solidTexts ts).length ≤ ts.length := by
  have h := List.length_filter_le (fun w => !isBreak w) (ts.map Token.text)
  rwa [List.length_map] at h

variable {cfg : Config} {style : BodyStyle} {depth : Nat} {c c' : Cursor} {ws rest : List Text}
  {items : List Item}

/-- The tokens before the one that comes next are line breaks. -/
theorem Cursor.Lexed.exists_breaks {t : Token} (hc : c.Lexed) (hp : c.peek = some t) :
    ∃ bs, c.upcoming = bs ++ t :: c.pass.upcoming ∧ solidTexts bs = [] :=
  ⟨_, Cursor.upcoming_eq_of_peek hp, hc.filter_breaks⟩

/-- Where some tokens stand behind the one that comes next, one more stands at the cursor. -/
theorem Cursor.Lexed.upcoming_cons {t : Token} {ts us : List Token} (hc : c.Lexed)
    (hp : c.peek = some t) (h : c.pass.upcoming = ts ++ us) :
    ∃ vs, c.upcoming = vs ++ us ∧ solidTexts vs = t.text :: solidTexts ts := by
  obtain ⟨bs, hup, hbs⟩ := hc.exists_breaks hp
  refine ⟨bs ++ t :: ts, by rw [hup, h, List.append_assoc, List.cons_append], ?_⟩
  rw [solidTexts_append, hbs, List.nil_append, solidTexts_cons (hc.of_peek hp).1]

/-- The texts of the tokens after a cursor, line breaks left out. -/
def Cursor.Ahead (c : Cursor) (ws : List Text) : Prop :=
  ∃ vs, c.Shows vs ∧ vs.filter (!isBreak ·) = ws

theorem Cursor.Lexed.ahead (hc : c.Lexed) : c.Ahead (solidTexts c.upcoming) := by
  obtain ⟨vs, hs, -⟩ := hc
  rw [solidTexts, hs.texts]
  exact ⟨vs, hs, rfl⟩

/-- The texts ahead of a cursor are those of its tokens. -/
theorem Cursor.Ahead.solidTexts_eq (h : c.Ahead ws) : solidTexts c.upcoming = ws := by
  obtain ⟨vs, hs, rfl⟩ := h
  rw [solidTexts, hs.texts]

theorem Cursor.Ahead.step {w : Text} (h : c.Ahead (w :: ws)) : c.Next w ∧ c.pass.Ahead ws := by
  obtain ⟨vs, hs, hvs⟩ := h
  obtain ⟨bs, us, rfl, hbs, hw, hus⟩ := List.filter_eq_cons_iff.1 hvs
  have hsees : c.Sees (w :: us) := ⟨bs, fun b hb => by simpa using hbs b hb, hs⟩
  obtain ⟨hnext, hs'⟩ := hsees.next (by simpa using hw)
  exact ⟨hnext, us, hs', hus⟩

/-- The tokens ahead are fed to a function that reads as many of them. -/
theorem Cursor.Ahead.feeds {vs : List Text} (h : c.Ahead (vs ++ ws)) :
    ∃ c', c.Feeds vs c' ∧ c'.Ahead ws := by
  induction vs generalizing c with
  | nil => exact ⟨c, rfl, h⟩
  | cons v vs ih =>
    obtain ⟨hnext, h⟩ := Cursor.Ahead.step h
    obtain ⟨c', hfeeds, h⟩ := ih h
    exact ⟨c', ⟨hnext, hfeeds⟩, h⟩

/-- A token that comes next is the first one ahead. -/
theorem Cursor.Ahead.head?_of_peek {t : Token} (h : c.Ahead ws) (hp : c.peek = some t) :
    ws.head? = some t.text := by
  obtain ⟨vs, hs, rfl⟩ := h
  obtain ⟨bs, us, rfl, hbs, hb, -⟩ := hs.of_peek hp
  have hnil : bs.filter (!isBreak ·) = [] :=
    List.filter_eq_nil_iff.2 fun b hb => by simpa using hbs b hb
  rw [List.filter_append, hnil, List.nil_append, List.filter_cons_of_pos (by rw [hb]; rfl),
    List.head?_cons]

/-- The first of the tokens that were consumed is the one that came next. -/
theorem Cursor.Lexed.peek_text {ts us : List Token} {w : Text} (hc : c.Lexed)
    (h : c.upcoming = ts ++ us) (hw : (solidTexts ts).head? = some w) :
    ∃ t, c.peek = some t ∧ t.text = w := by
  obtain ⟨vs, hvs⟩ := List.head?_eq_some_iff.1 hw
  have hahead : c.Ahead (solidTexts (ts ++ us)) := h ▸ hc.ahead
  rw [solidTexts_append, hvs, List.cons_append] at hahead
  obtain ⟨⟨t, hp, ht, -⟩, -⟩ := hahead.step
  exact ⟨t, hp, ht⟩

/-- A full stop at the head of a token is the token, or it is cut off and the rest comes next. -/
theorem Cursor.Lexed.cut_stop {t : Token} (hc : c.Lexed) (hp : c.peek = some t)
    (hdot : t.text.head? = some '.') :
    (c.pass.breakOff ['.']).Lexed ∧
      ((t.text = ['.'] ∧ c.pass.breakOff ['.'] = c.pass) ∨
        ∃ u, t.text = '.' :: u.text ∧ u.text ≠ [] ∧ u.kind = TokenKind.classify u.text ∧
          (∀ ch ∈ u.text, Text.continuesWord ch = true) ∧
          (c.pass.breakOff ['.']).upcoming = u :: c.pass.upcoming) := by
  refine ⟨hc.pass.breakOff (List.forall_mem_singleton.2 (by decide)), ?_⟩
  obtain ⟨r, ht⟩ := List.head?_eq_some_iff.1 hdot
  have hword := hc.word_of_peek hp fun ch hch => by
    rw [hdot] at hch
    obtain rfl := Option.some.inj hch
    decide
  rw [Cursor.breakOff]
  cases hb : c.pass.breakOff? ['.'] with
  | none =>
    -- Nothing can be cut off a token that is no longer than what is cut off.
    have hle := Cursor.length_le_of_breakOff?_eq_none hb (Cursor.consumed_pass_of_peek hp)
      (by decide) (by rw [ht]; rfl)
    rw [ht] at hle ⊢
    obtain rfl := List.length_eq_zero_iff.1 (Nat.le_zero.1 (Nat.le_of_succ_le_succ hle))
    exact .inl ⟨rfl, rfl⟩
  | some c₁ =>
    obtain ⟨u, before, hcons, -, hlt, -, -, hup⟩ := Cursor.breakOff?_eq_some hb
    rw [Cursor.consumed_pass_of_peek hp] at hcons
    obtain ⟨rfl, -⟩ := List.cons_eq_cons.1 hcons
    rw [ht] at hup hlt hword ⊢
    refine .inr ⟨_, rfl, ?_, rfl, fun ch hch => hword ch (List.mem_cons_of_mem _ hch), hup⟩
    rintro rfl
    exact absurd hlt (by decide)

/-! ## 2. What is read is a body -/

/-- Between the cursors stands a body, and the brace that closes it. -/
def BodyBetween (style : BodyStyle) (c c' : Cursor) : Prop :=
  ∃ ts brace, c.upcoming = ts ++ brace :: c'.upcoming ∧ brace.text = ['\x7d'] ∧
    IsBody style (solidTexts ts)

theorem bodyBetween_stop {t : Token} (hc : c.Lexed) (hp : c.peek = some t)
    (hdot : t.text.head? = some '.') (h : BodyBetween .segmented (c.pass.breakOff ['.']) c') :
    BodyBetween .segmented c c' := by
  obtain ⟨ts, brace, hts, hbrace, hbody⟩ := h
  obtain ⟨-, ⟨ht, heq⟩ | ⟨u, ht, hne, -, hword, heq⟩⟩ := hc.cut_stop hp hdot
  · rw [heq] at hts
    obtain ⟨vs, hup, hvs⟩ := hc.upcoming_cons hp hts
    refine ⟨vs, brace, hup, hbrace, ?_⟩
    rw [hvs, ht]
    exact .stop hbody
  · rw [heq] at hts
    have hu := Text.isBreak_of_word hword
    -- The rest of the token is a word, so it is not the brace that closes the body.
    cases ts with
    | nil =>
      obtain ⟨rfl, -⟩ := List.cons_eq_cons.1 hts
      rw [hbrace] at hword
      exact absurd (hword '\x7d' (by simp)) (by decide)
    | cons u' ts =>
      obtain ⟨rfl, hup'⟩ := List.cons_eq_cons.1 hts
      rw [solidTexts_cons hu] at hbody
      obtain ⟨vs, hup, hvs⟩ := hc.upcoming_cons hp hup'
      refine ⟨vs, brace, hup, hbrace, ?_⟩
      rw [hvs, ht]
      exact .glued hne hbody

theorem readItems_isBody (hc : c.Lexed) (h : readItems cfg style depth c = .ok (items, c')) :
    BodyBetween style c c' := by
  induction h using readItems_induction with
  | close hp hclose =>
    obtain ⟨bs, hup, hbs⟩ := hc.exists_breaks hp
    rw [(hc.of_peek hp).2, Text.classify_eq_closeBrace] at hclose
    exact ⟨bs, _, hup, hclose, hbs ▸ .nil⟩
  | @nested _ _ head _ _ _ _ _ _ _ _ _ h₁ h₂ h₃ _ _ ihinner ihrest =>
    obtain ⟨hs, took₁, hhead⟩ := Head.took_readNested hc h₁
    obtain ⟨_, passed₂, -⟩ := readItems_sound took₁.lexed h₂
    obtain ⟨vs, took₃, hclosed⟩ := Head.took_close passed₂.lexed h₃
    obtain ⟨ts₁, hts₁, hhs⟩ := took₁.upcoming_eq
    obtain ⟨ts₂, brace₂, hts₂, hbrace₂, hinner⟩ := ihinner took₁.lexed
    obtain ⟨ts₃, hts₃, hvs⟩ := took₃.upcoming_eq
    obtain ⟨ts₄, brace, hts₄, hbrace, hrest⟩ := ihrest took₃.lexed
    -- A plain group was not taken for a sub-select, so it does not begin with SELECT.
    have hselect : NotSelect head (solidTexts ts₂) := by
      rintro rfl w hw
      obtain ⟨u, hu, rfl⟩ := took₁.lexed.peek_text hts₂ hw
      exact Head.readNested_plain h₁ hu
    refine ⟨ts₁ ++ ts₂ ++ brace₂ :: ts₃ ++ ts₄, brace, ?_, hbrace, ?_⟩
    · rw [hts₁, hts₂, hts₃, hts₄]
      simp
    · have hhs : solidTexts ts₁ = hs ++ [['\x7b']] := hhs
      have hvs : solidTexts ts₃ = vs := hvs
      have hbody := IsBody.block hhead hselect hinner hclosed hrest
      rw [solidTexts_append, solidTexts_append, solidTexts_append,
        solidTexts_cons (by rw [hbrace₂]; rfl), hbrace₂, hhs, hvs]
      simpa using hbody
  | stop hp hdot _ _ ih => exact bodyBetween_stop hc hp hdot (ih (hc.cut_stop hp hdot).1)
  | word hp hclose hbegin hstop _ _ ih =>
    obtain ⟨ts, brace, hts, hbrace, hbody⟩ := ih hc.pass
    obtain ⟨vs, hup, hvs⟩ := hc.upcoming_cons hp hts
    refine ⟨vs, brace, hup, hbrace, ?_⟩
    rw [hvs]
    exact .word (isItem_of_not_begins (hc.of_peek hp).2 hclose hbegin hstop) hbody

/-! ## 3. A body is read -/

/-- Behind a full stop that is glued to a word comes the word. -/
theorem Cursor.Ahead.glued {r : Text} (hc : c.Lexed) (h : c.Ahead (('.' :: r) :: ws))
    (hr : r ≠ []) :
    (c.pass.breakOff ['.']).Lexed ∧ (c.pass.breakOff ['.']).Ahead (r :: ws) := by
  obtain ⟨⟨t, hp, ht, -⟩, vs, hs, rfl⟩ := h.step
  obtain ⟨hlex, ⟨htext, -⟩ | ⟨u, htext, -, hk, hword, hup⟩⟩ := hc.cut_stop hp (by rw [ht]; rfl)
  · rw [ht] at htext
    exact absurd (List.cons_eq_cons.1 htext).2 hr
  · rw [ht] at htext
    obtain rfl : r = u.text := (List.cons_eq_cons.1 htext).2
    refine ⟨hlex, u.text :: vs, ?_, ?_⟩
    · rw [Cursor.Shows, hup, List.map_cons, List.map_cons, hk, hs]
    · rw [List.filter_cons_of_pos (by rw [Text.isBreak_of_word hword]; rfl)]

theorem NotSelect.append {us vs : List Text} {head : Head} (h : NotSelect head us) :
    NotSelect head (us ++ ['\x7d'] :: vs) := by
  intro hgroup w hw
  cases us with
  | nil =>
    -- The brace that closes an empty body is not the word SELECT.
    obtain rfl := Option.some.inj hw
    decide
  | cons u us => exact h hgroup w hw

/-- A body is read up to the brace that closes it, if blocks may stand as deep as it is long. -/
theorem IsBody.read {us : List Text} (hbody : IsBody style us) (hc : c.Lexed)
    (h : c.Ahead (us ++ ['\x7d'] :: rest)) (hdepth : depth + us.length ≤ cfg.maxDepth) :
    ∃ items c', readItems cfg style depth c = .ok (items, c') ∧ c'.Ahead rest := by
  induction hbody generalizing c depth rest with
  | nil =>
    obtain ⟨⟨t, hp, -, hk⟩, h⟩ := Cursor.Ahead.step h
    exact ⟨[], c.pass, readItems_close hp hk, h⟩
  | @word style w ws hitem _ ih =>
    have hdepth' : depth + ws.length ≤ cfg.maxDepth := by
      rw [List.length_cons] at hdepth
      omega
    obtain ⟨⟨t, hp, rfl, hk⟩, h'⟩ := Cursor.Ahead.step h
    obtain ⟨items, c', hread, h⟩ := ih hc.pass h' hdepth'
    exact ⟨_, c', readItems_word hp hk hitem hread, h⟩
  | @stop ws _ ih =>
    have hdepth' : depth + ws.length ≤ cfg.maxDepth := by
      rw [List.length_cons] at hdepth
      omega
    obtain ⟨hstop, h⟩ := Cursor.Ahead.step h
    obtain ⟨items, c', hread, h⟩ := ih hc.pass h hdepth'
    exact ⟨_, c', readItems_stop hstop hread, h⟩
  | @glued r ws hr _ ih =>
    rw [List.length_cons] at hdepth ih
    obtain ⟨⟨t, hp, ht, hk⟩, -⟩ := Cursor.Ahead.step h
    obtain ⟨hlex, h⟩ := Cursor.Ahead.glued hc h hr
    obtain ⟨items, c', hread, h⟩ := ih hlex h hdepth
    exact ⟨_, c', readItems_dot hp (ht ▸ hk) ht hread, h⟩
  | @block style hs us vs ws head closed hhead hselect _ hclosed _ ih₁ ih₂ =>
    simp only [List.append_assoc, List.cons_append] at h
    simp only [List.length_append, List.length_cons] at hdepth
    -- The body stands one level deeper, and the opening brace makes up for that.
    have hdepth₁ : depth + 1 + us.length ≤ cfg.maxDepth := by omega
    have hdepth₂ : depth + ws.length ≤ cfg.maxDepth := by omega
    rw [List.append_cons] at h
    obtain ⟨c₁, hfeeds, h⟩ := Cursor.Ahead.feeds h
    obtain ⟨⟨t, hp, hclose, hbegin⟩, hread⟩ := Head.readNested_feeds hhead hfeeds
      fun hgroup u hu => hselect.append hgroup u.text (h.head?_of_peek hu)
    obtain ⟨_, took₁, -⟩ := Head.took_readNested hc hread
    obtain ⟨inner, c₂, hinner, h⟩ := ih₁ took₁.lexed h hdepth₁
    obtain ⟨_, passed₂, -⟩ := readItems_sound took₁.lexed hinner
    obtain ⟨c₃, hfeeds₃, h⟩ := h.feeds
    have hcl := Head.close_feeds hhead hclosed hfeeds₃
    obtain ⟨_, took₃, -⟩ := Head.took_close passed₂.lexed hcl
    obtain ⟨items, c', hrest, h⟩ := ih₂ took₃.lexed h hdepth₂
    exact ⟨_, c', readItems_nested hp hclose hbegin (by omega) hread hinner hcl hrest, h⟩

/-! ## 4. Bodies in the tokens of a text -/

/-- A cursor among the last tokens of a text is lexed. -/
theorem Cursor.lexed_of_whole {t : Text} (h : c.whole <:+ tokenize t) : c.Lexed := by
  obtain ⟨before, hbefore⟩ := h
  have hmem : ∀ u ∈ c.upcoming, u ∈ tokenize t := by
    intro u hu
    rw [← hbefore]
    exact List.mem_append_right _ (List.mem_append_right _ hu)
  refine ⟨c.upcoming.map Token.text, Shows.of_texts fun u hu => Text.kind_tokenize (hmem u hu), ?_⟩
  have hscan := Text.scanned_tokens t
  have htexts : Text.tokens t = before.map Token.text ++ (c.past ++ c.upcoming.map Token.text) := by
    rw [Text.tokens, ← hbefore, List.map_append, Cursor.whole, List.map_append, List.map_reverse]
    rfl
  rw [htexts] at hscan
  exact hscan.of_append

/-- Behind a brace there are fewer tokens than before it. -/
theorem length_solidTexts_lt {ts vs ws : List Token} {b : Token} (h : vs = ts ++ b :: ws)
    (hb : b.text = ['\x7d']) : (solidTexts ws).length < (solidTexts vs).length := by
  rw [h, solidTexts_append, solidTexts_cons (by rw [hb]; rfl), List.length_append,
    List.length_cons]
  omega

/-- Two braces of one list with the same texts behind them are the same brace. -/
theorem eq_of_solidTexts_eq {ts us vs ws : List Token} {b d : Token}
    (h : ts ++ b :: vs = us ++ d :: ws) (hb : b.text = ['\x7d']) (hd : d.text = ['\x7d'])
    (hsolid : solidTexts vs = solidTexts ws) : vs = ws := by
  have hlen := congrArg List.length hsolid
  rcases List.append_eq_append_iff.1 h with ⟨as, -, h⟩ | ⟨as, -, h⟩
  · cases as with
    | nil => exact (List.cons_eq_cons.1 h).2
    | cons a as =>
      exact absurd hlen (Nat.ne_of_gt (length_solidTexts_lt (List.cons_eq_cons.1 h).2 hd))
  · cases as with
    | nil => exact (List.cons_eq_cons.1 h).2.symm
    | cons a as =>
      exact absurd hlen (Nat.ne_of_lt (length_solidTexts_lt (List.cons_eq_cons.1 h).2 hb))

/-- A body is read at a place of a text exactly where one stands there, and reading ends behind the
brace that closes it. The bound on the depth of blocks is never reached here, for there are as many
tokens as braces. -/
theorem readBody_iff_isBody {t : Text} {after : List Token} (hc : c.whole <:+ tokenize t)
    (hdepth : c.upcoming.length ≤ cfg.maxDepth) :
    (∃ body c', readBody cfg style c = .ok (body, c') ∧ c'.upcoming = after) ↔
      ∃ ts brace, c.upcoming = ts ++ brace :: after ∧ brace.text = ['\x7d'] ∧
        IsBody style (solidTexts ts) := by
  have hlex := Cursor.lexed_of_whole hc
  constructor
  · rintro ⟨body, c', h, rfl⟩
    obtain ⟨⟨items, c₁⟩, h₁, h⟩ := bind_eq_ok.1 h
    obtain ⟨-, rfl⟩ := Prod.mk.injEq .. ▸ Except.ok.inj h
    exact readItems_isBody hlex h₁
  · rintro ⟨ts, brace, hup, hbrace, hbody⟩
    have hsolid : solidTexts c.upcoming = solidTexts ts ++ ['\x7d'] :: solidTexts after := by
      rw [hup, solidTexts_append, solidTexts_cons (by rw [hbrace]; rfl), hbrace]
    have hlen : 0 + (solidTexts ts).length ≤ cfg.maxDepth := by
      have hle := length_solidTexts_le ts
      rw [hup, List.length_append] at hdepth
      omega
    obtain ⟨items, c', hread, hahead⟩ := hbody.read hlex (hsolid ▸ hlex.ahead) hlen
    refine ⟨Statement.ofItems items, c', ?_, ?_⟩
    · rw [readBody, hread]
      rfl
    -- Reading ended behind a brace, and the tokens behind it are those after the body.
    · obtain ⟨us, brace', hup', hbrace', -⟩ := readItems_isBody hlex hread
      exact eq_of_solidTexts_eq (hup' ▸ hup) hbrace' hbrace hahead.solidTexts_eq

theorem readBody_iff_isBody_optional :
    let text := "optional \x7b\n.?o \x7d \x7d".toList
    let c : Cursor := .start (tokenize text) 18
    c.whole <:+ tokenize text ∧ c.upcoming.length ≤ 128 ∧
      ∃ body c', readBody {} .segmented c = .ok (body, c') ∧ c'.upcoming = [] := by
  intro text c
  have hwhole : c.whole <:+ tokenize text := ⟨[], rfl⟩
  have hdepth : c.upcoming.length ≤ 128 := by decide +kernel
  have hitem : IsItem .segmented ['?', 'o'] :=
    ⟨by decide, by decide, by decide, fun _ => by decide⟩
  have hgroup : IsBody .segmented [['.', '?', 'o']] := .glued (by decide) (.word hitem .nil)
  have hbody : IsBody .segmented ["optional".toList, ['\x7b'], ['.', '?', 'o'], ['\x7d']] :=
    .block (.optional (by decide)) (fun h => nomatch h) hgroup .group .nil
  have htexts : solidTexts (c.upcoming.take 5) =
      ["optional".toList, ['\x7b'], ['.', '?', 'o'], ['\x7d']] := by decide +kernel
  exact ⟨hwhole, hdepth, (readBody_iff_isBody hwhole hdepth).2
    ⟨c.upcoming.take 5, ⟨.closeBrace, ['\x7d'], ⟨17, 18⟩⟩, by decide +kernel, rfl, htexts ▸ hbody⟩⟩

end SparqlTree
