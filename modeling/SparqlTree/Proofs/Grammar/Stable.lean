import SparqlTree.Proofs.Grammar.Readback

/-!
# Bodies that are read as they were written

A shaped body can be written in such a way that it reads as something else: trimming a text can
bring a keyword or a full stop to its front, and a plain group that begins with the word SELECT
looks like a sub-select. In a stable body this does not happen, and a shaped and stable body is read
again from its lines (`readItems_written`).
-/

namespace SparqlTree

open Text (isBreak IsToken Fragment lineTokens written)
open Statement (layoutAll nesting nestingAll lineTokens_layoutAll_simple lineTokens_layoutAll_block)

/-! ## 1. Items that are words -/

/-- True of items that are words which make up a text. -/
structure Item.Words (us : List Item) (t : Text) : Prop where
  leadingText : ∀ items, Item.leadingText (us ++ items) = t ++ Item.leadingText items
  leadStops : ∀ items, Item.leadStops (us ++ items) = Item.leadStops items
  afterLead : ∀ items, Statement.afterLead (us ++ items) = Statement.afterLead items

theorem Item.Words.nil : Item.Words [] [] := ⟨fun _ => rfl, fun _ => rfl, fun _ => rfl⟩

theorem Item.Words.cons {us : List Item} {b w t : Text} (h : Item.Words us t) :
    Item.Words (.word b w :: us) (b ++ ' ' :: w ++ t) where
  leadingText items := by
    rw [List.cons_append, Item.leadingText, h.leadingText]
    simp
  leadStops items := h.leadStops items
  afterLead items := h.afterLead items

/-- True of items that do not begin with a word or a full stop. -/
def Item.Quiet (items : List Item) : Prop := items = [] ∨ ∃ s rest, items = .nested s :: rest

theorem Item.Quiet.leadingText {items : List Item} (h : Item.Quiet items) :
    Item.leadingText items = [] ∧ Item.leadStops items = false ∧
      Statement.ofItems items = Statement.afterLead items := by
  rcases h with rfl | ⟨s, rest, rfl⟩ <;> exact ⟨rfl, rfl, rfl⟩

/-- Words behind which no statement ends in a full stop make up a statement of their own. -/
theorem Item.Words.ofItems_quiet {us items : List Item} {b t : Text} {ws : List Text}
    (h : Item.Words us (b ++ written ws)) (hb : Text.AllBlank b) (hq : Item.Quiet items)
    (ht : Text.trim (written ws) = t) (hne : t ≠ []) :
    Statement.ofItems (us ++ items) = .simple t :: Statement.ofItems items := by
  obtain ⟨htext, hstops, hafter⟩ := hq.leadingText
  have htrim : Text.trim (b ++ written ws) = t := by
    rw [Text.trim, Text.trimStart_append, if_pos (Text.trimStart_eq_nil.2 hb), ← ht]
    rfl
  rw [Statement.ofItems, Statement.ofLead, h.leadingText, h.leadStops, h.afterLead, htext,
    List.append_nil, htrim, if_neg hne, hstops, if_neg (by decide), Statement.ofText, htrim, hafter]
  rfl

/-- Words before a full stop make up a statement that ends with it. -/
theorem Item.Words.ofItems_stop {us items : List Item} {b t : Text} {ws : List Text}
    (h : Item.Words us (b ++ written ws)) (hb : Text.AllBlank b)
    (ht : Text.trim (written (ws ++ [['.']])) = t) (hne : Text.trim (written ws) ≠ []) :
    Statement.ofItems (us ++ .stop :: items) = .simple t :: Statement.ofItems items := by
  have htrim : ∀ x, Text.trim (b ++ x) = Text.trim x := fun x => by
    rw [Text.trim, Text.trimStart_append, if_pos (Text.trimStart_eq_nil.2 hb)]
    rfl
  have hdot : b ++ written ws ++ [' ', '.'] = b ++ written (ws ++ [['.']]) := by
    rw [Text.written_append, List.append_assoc]
    rfl
  rw [Statement.ofItems, Statement.ofLead, h.leadingText, h.leadStops, h.afterLead]
  have htext : Item.leadingText (.stop :: items) = [] := rfl
  have hstops : Item.leadStops (.stop :: items) = true := rfl
  rw [htext, hstops, List.append_nil, htrim, if_neg hne, if_pos rfl, Statement.ofText, hdot, htrim,
    ht]
  rfl

/-! ## 2. Reading words -/

variable {cfg : Config} {style : BodyStyle} {depth : Nat} {c c' : Cursor} {w : Text}
  {ws rest : List Text} {items : List Item}

/-- The line breaks before the next token are those that the cursor shows. -/
theorem breaksBefore_of_shows {bs : List Text} (h : c.Shows (bs ++ w :: ws)) (hbs : AllBreaks bs)
    (hw : isBreak w = false) : breaksBefore c = bs.flatten := by
  have hlen := Cursor.length_takeWhile_upcoming h
  rw [Cursor.takeWhile_append_cons hbs hw] at hlen
  rw [breaksBefore, List.flatMap_def]
  apply congrArg List.flatten
  -- The texts that the cursor shows are those of the tokens that come next.
  have htexts := congrArg (List.take bs.length) h.texts
  rw [List.take_left, ← List.map_take, ← hlen] at htexts
  rw [← htexts]
  exact congrArg (List.map Token.text) (List.prefix_iff_eq_take.1 (List.takeWhile_prefix _))

theorem readItems_close {t : Token} (hp : c.peek = some t) (hk : t.kind = .closeBrace) :
    readItems cfg style depth c = .ok ([], c.pass) := by
  rw [readItems_eq, hp]
  show (if t.kind = .closeBrace then _ else _) = _
  rw [if_pos hk]

theorem readItems_nested {t : Token} {head closed : Head} {inner : List Item} {c₁ c₂ c₃ : Cursor}
    (hp : c.peek = some t) (hclose : t.kind ≠ .closeBrace) (hbegin : Head.begins t = true)
    (hdepth : depth < cfg.maxDepth) (hread : Head.readNested c = .ok (head, c₁))
    (hinner : readItems cfg head.bodyStyle (depth + 1) c₁ = .ok (inner, c₂))
    (hclosed : head.close c₂ = .ok (closed, c₃))
    (hrest : readItems cfg style depth c₃ = .ok (items, c')) :
    readItems cfg style depth c
      = .ok (.nested (.block closed (Statement.ofItems inner)) :: items, c') := by
  rw [readItems_eq, hp]
  show (if t.kind = .closeBrace then _ else if Head.begins t = true then
    if cfg.maxDepth ≤ depth then _ else _ else _) = _
  rw [if_neg hclose, if_pos hbegin, if_neg (Nat.not_le_of_lt hdepth), hread]
  show (readItems cfg head.bodyStyle (depth + 1) c₁ >>= _) = _
  rw [hinner]
  show (head.close c₂ >>= _) = _
  rw [hclosed]
  show (readItems cfg style depth c₃ >>= _) = _
  rw [hrest]
  rfl

/-- A full stop at the head of a token ends a statement, and what is glued to it is read next. -/
theorem readItems_dot {t : Token} {r : Text} (hp : c.peek = some t)
    (hk : t.kind = TokenKind.classify t.text) (ht : t.text = '.' :: r)
    (h : readItems cfg .segmented depth (c.pass.breakOff ['.']) = .ok (items, c')) :
    readItems cfg .segmented depth c = .ok (.stop :: items, c') := by
  obtain ⟨hword, hbegin, hstop⟩ := word_of_dot hk ht
  rw [readItems_eq, hp]
  show (if t.kind = .closeBrace then _ else if Head.begins t = true then _
    else if isStop .segmented t = true then
      readItems cfg .segmented depth (c.pass.breakOff ['.']) >>= _ else _) = _
  rw [if_neg (by rw [hword]; decide), if_neg (by rw [hbegin]; decide), if_pos hstop, h]
  rfl

theorem readItems_word {t : Token} (hp : c.peek = some t) (hk : t.kind = TokenKind.classify t.text)
    (hitem : IsItem style t.text) (h : readItems cfg style depth c.pass = .ok (items, c')) :
    readItems cfg style depth c = .ok (.word (breaksBefore c) t.text :: items, c') := by
  -- A word is none of the things that end a body, begin a block or end a statement.
  have hclose : t.kind ≠ .closeBrace := by
    rw [hk, ne_eq, Text.classify_eq_closeBrace]
    exact hitem.noBrace.2
  have hbegin : Head.begins t = false := by
    rw [Head.begins, hitem.noGraph, hitem.noOptional, Bool.or_false, Bool.or_false,
      beq_eq_false_iff_ne, hk, ne_eq, Text.classify_eq_openBrace]
    exact hitem.noBrace.1
  have hstop : isStop style t = false := by
    rw [isStop, Bool.and_eq_false_iff, beq_eq_false_iff_ne, beq_eq_false_iff_ne]
    by_cases hs : style = .segmented
    · exact .inr (hitem.noStop hs)
    · exact .inl hs
  rw [readItems_eq, hp]
  show (if t.kind = .closeBrace then _ else if Head.begins t = true then _
    else if isStop style t = true then _ else _) = _
  rw [if_neg hclose, if_neg (by rw [hbegin]; decide), if_neg (by rw [hstop]; decide), h]
  rfl

/-- A word is read with the line breaks that stand in front of it. -/
theorem readItems_shown (cfg : Config) (depth : Nat) {bs : List Text}
    (h : c.Shows (bs ++ w :: rest)) (hbs : AllBreaks bs) (hw : isBreak w = false)
    (hitem : IsItem style w) :
    c.pass.Shows rest ∧ ∀ items c', readItems cfg style depth c.pass = .ok (items, c') →
      readItems cfg style depth c = .ok (.word bs.flatten w :: items, c') := by
  obtain ⟨t, hp, ht, hk, hs⟩ := h.step hbs hw
  refine ⟨hs, fun items c' hi => ?_⟩
  rw [← breaksBefore_of_shows h hbs hw, ← ht]
  exact readItems_word hp (ht ▸ hk) (ht ▸ hitem) hi

/-- Words are read as items that are words and make up their text. -/
theorem readItems_words (cfg : Config) (depth : Nat) {bs : List Text}
    (h : c.Shows (bs ++ ws ++ rest)) (hbs : AllBreaks bs)
    (hws : ∀ w ∈ ws, isBreak w = false → IsItem style w)
    (hlast : ∀ w ∈ ws.getLast?, isBreak w = false) (hne : ws ≠ []) :
    ∃ us c₁, c₁.Shows rest ∧ Item.Words us (bs.flatten ++ written ws) ∧
      ∀ items c', readItems cfg style depth c₁ = .ok (items, c') →
        readItems cfg style depth c = .ok (us ++ items, c') := by
  induction ws generalizing bs c with
  | nil => exact absurd rfl hne
  | cons w ws ih =>
    have hws' : ∀ v ∈ ws, isBreak v = false → IsItem style v := fun v hv =>
      hws v (List.mem_cons_of_mem _ hv)
    have hlast' : ∀ v ∈ ws.getLast?, isBreak v = false := fun v hv =>
      hlast v (by rw [List.getLast?_cons, hv]; rfl)
    by_cases hw : isBreak w = true
    · -- A line break is written before the next word, and there is one since none ends the words.
      have hne' : ws ≠ [] := by
        rintro rfl
        rw [hlast w rfl] at hw
        cases hw
      have hbs' : AllBreaks (bs ++ [w]) :=
        List.forall_mem_append.2 ⟨hbs, List.forall_mem_singleton.2 hw⟩
      have h' : c.Shows ((bs ++ [w]) ++ ws ++ rest) := by simpa using h
      obtain ⟨us, c₁, hs, hu, hread⟩ := ih h' hbs' hws' hlast' hne'
      refine ⟨us, c₁, hs, ?_, hread⟩
      rw [Text.written_cons, Text.piece, if_pos hw]
      simpa using hu
    · rw [Bool.not_eq_true] at hw
      rw [List.append_assoc, List.cons_append] at h
      obtain ⟨hs, hword⟩ := readItems_shown cfg depth h hbs hw (hws w (by simp) hw)
      have hpiece : bs.flatten ++ written (w :: ws) = bs.flatten ++ ' ' :: w ++ written ws := by
        rw [Text.written_cons, Text.piece, if_neg (by rw [hw]; decide), List.append_assoc]
      rw [hpiece]
      by_cases hnil : ws = []
      · subst hnil
        exact ⟨[.word bs.flatten w], c.pass, hs, Item.Words.nil.cons, hword⟩
      · have hs : c.pass.Shows ([] ++ ws ++ rest) := hs
        obtain ⟨us, c₁, hs₁, hu, hread⟩ := ih hs (fun _ h => by cases h) hws' hlast' hnil
        exact ⟨.word bs.flatten w :: us, c₁, hs₁, hu.cons,
          fun items c' hi => hword _ _ (hread _ _ hi)⟩

/-! ## 3. Reading bodies -/

theorem readItems_stop (h : c.Next ['.'])
    (hread : readItems cfg .segmented depth c.pass = .ok (items, c')) :
    readItems cfg .segmented depth c = .ok (.stop :: items, c') := by
  obtain ⟨t, hp, ht, hk⟩ := h
  apply readItems_dot hp (ht ▸ hk) ht
  rwa [Cursor.breakOff_pass hp (Nat.le_of_eq (congrArg _ ht))]

/-- The tokens of a text that begins with no full stop, up to one that ends it. -/
theorem Segment.cases {t : Text} (h : Segment t) (hf : Fragment t) (hno : NoDot t) :
    (∀ w ∈ Text.tokens t, NoDot w) ∨ ∃ vs, vs ≠ [] ∧ Text.tokens t = vs ++ [['.']] ∧
      (∀ w ∈ vs.getLast?, isBreak w = false) ∧ ∀ w ∈ vs, NoDot w := by
  obtain ⟨ws, ds, heq, hds, hlast, htail⟩ := h
  have hhead := hf.head_tokens
  cases ws with
  | nil =>
    -- A full stop alone would be a text that begins with one.
    rcases hds with rfl | rfl
    · exact absurd heq hf.tokens_ne_nil
    · rw [heq] at hhead
      exact absurd (hhead ['.'] rfl).symm hno
  | cons w ws =>
    have hall : ∀ v ∈ w :: ws, NoDot v := by
      intro v hv
      rcases List.mem_cons.1 hv with rfl | hv
      · rw [NoDot, hhead v (by rw [heq]; rfl)]
        exact hno
      · exact htail v hv
    rcases hds with rfl | rfl
    · rw [List.append_nil] at heq
      exact .inl (heq ▸ hall)
    · exact .inr ⟨w :: ws, List.cons_ne_nil _ _, heq, hlast, hall⟩

/-- What stands before the full stop of a text that begins with none is not blank. -/
theorem trim_written_ne_nil {t : Text} {ws : List Text} (hno : NoDot t)
    (ht : Text.trim (written (ws ++ [['.']])) = t) : Text.trim (written ws) ≠ [] := by
  intro hnil
  rw [Text.trim_eq_nil] at hnil
  rw [Text.written_append, Text.trim, Text.trimStart_append,
    if_pos (Text.trimStart_eq_nil.2 hnil)] at ht
  have hdot : Text.trimEnd (Text.trimStart (written [['.']])) = ['.'] := by decide
  rw [hdot] at ht
  rw [← ht] at hno
  exact hno rfl

theorem isItem_of_stable {t : Text} {ss : List Statement} (hf : Fragment t)
    (hstable : StableAt style (.simple t) ss) (hw : w ∈ Text.tokens t)
    (hno : style = .segmented → NoDot w) : IsItem style w where
  noBrace := (hf.plain w hw).2
  noGraph := (hstable.1 w hw).1
  noOptional := (hstable.1 w hw).2
  noStop := hno

theorem allBlank_flatten {bs : List Text} (h : AllBreaks bs) : Text.AllBlank bs.flatten := by
  intro ch hch
  obtain ⟨b, hb, hch⟩ := List.mem_flatten.1 hch
  exact Text.isBlank_of_isBreak (h b hb) ch hch

/-- The items of a text, before those of what follows it. Where no text follows, the next items
must not begin with words. -/
theorem readItems_simple (cfg : Config) (depth : Nat) {t : Text} {ss : List Statement}
    (hs : ShapedAt style (.simple t) ss) (hstable : StableAt style (.simple t) ss)
    (h : c.Sees (Text.tokens t ++ rest)) :
    ∃ us c₁, c₁.Shows rest ∧
      (∀ items c', readItems cfg style depth c₁ = .ok (items, c') →
        readItems cfg style depth c = .ok (us ++ items, c')) ∧
      ∀ items, ((∀ u vs, ss ≠ .simple u :: vs) → Item.Quiet items) →
        Statement.ofItems (us ++ items) = .simple t :: Statement.ofItems items := by
  obtain ⟨hf, hseg, hnext⟩ := hs
  obtain ⟨bs, hbs, h⟩ := h
  have hblank := allBlank_flatten hbs
  -- The text may end with a full stop that is read as one, or it is read as words only.
  have hcases : (∀ w ∈ Text.tokens t, style = .segmented → NoDot w) ∨
      (style = .segmented ∧ ∃ vs, vs ≠ [] ∧ Text.tokens t = vs ++ [['.']] ∧
        (∀ w ∈ vs.getLast?, isBreak w = false) ∧ ∀ w ∈ vs, NoDot w) := by
    cases style with
    | whole => exact .inl fun _ _ h => nomatch h
    | segmented =>
      rcases (hseg rfl).cases hf (hstable.2 rfl) with hall | hstop
      · exact .inl fun w hw _ => hall w hw
      · exact .inr ⟨rfl, hstop⟩
  rcases hcases with hall | ⟨rfl, vs, hne, heq, hlast, hno⟩
  · obtain ⟨us, c₁, hs₁, hu, hread⟩ := readItems_words cfg depth
      (by rwa [List.append_assoc]) hbs
      (fun w hw _ => isItem_of_stable hf hstable hw (hall w hw)) hf.getLast_tokens hf.tokens_ne_nil
    refine ⟨us, c₁, hs₁, hread, fun items hq => ?_⟩
    refine hu.ofItems_quiet hblank (hq fun u vs he => ?_) hf.written hf.ne_nil
    obtain ⟨hstyle, hsuffix⟩ := hnext u vs he
    have hdot := hf.getLast_tokens_of_suffix hsuffix
    exact hall ['.'] (List.mem_of_getLast? hdot) hstyle rfl
  · have hmem : ∀ w ∈ vs, w ∈ Text.tokens t := fun w hw => by
      rw [heq]
      exact List.mem_append_left _ hw
    rw [heq, List.append_assoc, ← List.append_assoc] at h
    obtain ⟨us, c₁, hs₁, hu, hread⟩ := readItems_words cfg depth h hbs
      (fun w hw _ => isItem_of_stable hf hstable (hmem w hw) fun _ => hno w hw) hlast hne
    have hwritten := hf.written
    rw [heq] at hwritten
    obtain ⟨hstop, hs₂⟩ := hs₁.sees.next (w := ['.']) rfl
    refine ⟨us ++ [.stop], c₁.pass, hs₂, fun items c' hi => ?_, fun items _ => ?_⟩
    · rw [List.append_assoc]
      exact hread _ _ (readItems_stop hstop hi)
    · rw [List.append_assoc]
      exact hu.ofItems_stop hblank hwritten (trim_written_ne_nil (hstable.2 rfl) hwritten)

theorem Head.closing_eq (head : Head) : head.closing = closeLine :: head.closing.tail := by
  cases head with
  | group graph optional => cases graph <;> cases optional <;> rfl
  | _ => rfl

/-- Nested blocks begin with a brace or a keyword of groups. -/
theorem Head.Nested.nextToken_opening {head : Head} (h : head.Nested) :
    ∃ w ∈ [['\x7b'], Keyword.optional.name, Keyword.graph.name],
      nextToken (lineTokens head.opening) = some w := by
  cases h with
  | @group graph optional hiri hno =>
    cases graph with
    | none =>
      cases optional with
      | false =>
        refine ⟨['\x7b'], by simp, ?_⟩
        rw [opening, Text.lineTokens_cons, tokens_openBrace]
        rfl
      | true =>
        refine ⟨Keyword.optional.name, by simp, ?_⟩
        rw [opening, Text.lineTokens_cons, optionalLine, tokens_keyword_brace, nextToken_newline]
        exact nextToken_of_single (single_name _).2 _
    | some graph =>
      obtain rfl := hno rfl
      refine ⟨Keyword.graph.name, by simp, ?_⟩
      rw [opening, Text.lineTokens_cons, tokens_graphLine (hiri graph rfl), nextToken_newline]
      exact nextToken_of_single (single_name _).2 _
  | @select p hin =>
    refine ⟨['\x7b'], by simp, ?_⟩
    rw [opening, Projection.opening, if_pos hin, List.cons_append, List.cons_append,
      Text.lineTokens_cons, tokens_openBrace]
    rfl

theorem exists_nextToken {w : Text} {ws : List Text} (h : w ∈ ws) (hw : isBreak w = false) :
    ∃ v, nextToken ws = some v := by
  induction ws with
  | nil => nomatch h
  | cons v vs ih =>
    by_cases hv : isBreak v = true
    · rw [nextToken_of_break hv]
      rcases List.mem_cons.1 h with rfl | h
      · rw [hw] at hv
        nomatch hv
      · exact ih h
    · rw [Bool.not_eq_true] at hv
      exact ⟨v, nextToken_of_single hv vs⟩

theorem Text.Fragment.exists_nextToken {t : Text} (h : Fragment t) :
    ∃ v, nextToken (Text.tokens t) = some v := by
  obtain ⟨u, w, -, hlast⟩ := h.exists_append_getLast
  exact SparqlTree.exists_nextToken (List.mem_of_getLast? hlast) (h.getLast_tokens w hlast)

/-- A plain group that does not begin with the word SELECT does not look like a sub-select. -/
theorem not_select_inside {inner : List Statement} (hshaped : ShapedBody style inner)
    (h : ∀ t ss, inner = .simple t :: ss →
      ∀ w ∈ nextToken (Text.tokens t), Keyword.select.spells w = false) :
    ∀ w ∈ nextToken (lineTokens (layoutAll inner) ++ ['\n'] :: ['\x7d'] :: rest),
      Keyword.select.spells w = false := by
  intro w hw
  cases hshaped with
  | nil =>
    obtain rfl := Option.some.inj hw
    decide
  | @simple _ t ss hs _ =>
    obtain ⟨v, hv⟩ := hs.1.exists_nextToken
    rw [lineTokens_layoutAll_simple, List.cons_append, nextToken_newline, List.append_assoc,
      nextToken_append hv] at hw
    obtain rfl := Option.some.inj hw
    exact h t ss rfl v hv
  | block hs _ _ =>
    obtain ⟨v, hmem, hv⟩ := Head.Nested.nextToken_opening hs
    rw [lineTokens_layoutAll_block, List.append_assoc, List.append_assoc, List.append_assoc,
      nextToken_append hv] at hw
    obtain rfl := Option.some.inj hw
    simp only [List.mem_cons, List.not_mem_nil, or_false] at hmem
    rcases hmem with rfl | rfl | rfl <;> decide

/-- A shaped and stable body is read from its lines as it is, if blocks may stand that deep. -/
theorem readItems_written {body : List Statement} (hs : ShapedBody style body)
    (hstable : StableBody style body) (hdepth : nestingAll body ≤ cfg.maxDepth - depth)
    (h : c.Sees (lineTokens (layoutAll body) ++ ['\n'] :: ['\x7d'] :: rest)) :
    ∃ items c', readItems cfg style depth c = .ok (items, c') ∧ c'.Shows rest ∧
      Statement.ofItems items = body ∧
      ((∀ t ss, body ≠ .simple t :: ss) → Item.Quiet items) := by
  -- By induction on the shape: a text is read as words, a block one level deeper.
  induction hs generalizing c depth rest with
  | nil =>
    have h : c.Sees (['\x7d'] :: rest) := h.of_break rfl
    obtain ⟨t, hp, -, hk, hs⟩ := h.step rfl
    exact ⟨[], c.pass, readItems_close hp hk, hs, rfl, fun _ => .inl rfl⟩
  | @simple style t ss hs _ ih =>
    cases hstable with
    | simple hst hsts =>
      rw [lineTokens_layoutAll_simple, List.cons_append, List.append_assoc] at h
      obtain ⟨us, c₁, hs₁, hread, hof⟩ := readItems_simple cfg depth hs hst (h.of_break rfl)
      have hd : nestingAll ss ≤ cfg.maxDepth - depth := by
        rw [nestingAll, nesting, Nat.zero_max] at hdepth
        exact hdepth
      obtain ⟨items, c', hi, hs', hbody, hquiet⟩ := ih hsts hd hs₁.sees
      refine ⟨us ++ items, c', hread _ _ hi, hs', ?_, fun hno => absurd rfl (hno t ss)⟩
      rw [hof items hquiet, hbody]
  | @block style head inner ss hs hinner _ ih₁ ih₂ =>
    cases hstable with
    | block hst hst₁ hst₂ =>
      rw [nestingAll, nesting] at hdepth
      rw [lineTokens_layoutAll_block, head.closing_eq, Text.lineTokens_cons, tokens_closeLine] at h
      simp only [List.append_assoc, List.cons_append, List.nil_append] at h
      obtain ⟨⟨t, hp, hclose, hbegin⟩, c₁, hread, hs₁⟩ := Head.Nested.read_written hs h
        fun hgroup => not_select_inside hinner (hst hgroup)
      have hdepth₁ : nestingAll inner ≤ cfg.maxDepth - (depth + 1) := by omega
      obtain ⟨inside, c₂, hi, hs₂, hbody, -⟩ := ih₁ hst₁ hdepth₁ hs₁.sees
      obtain ⟨c₃, hcl, hs₃⟩ := Head.Nested.close_written hs hs₂.sees
      have hdepth₂ : nestingAll ss ≤ cfg.maxDepth - depth := by omega
      obtain ⟨items, c', hi', hs', hrest, -⟩ := ih₂ hst₂ hdepth₂ hs₃
      refine ⟨.nested (.block head inner) :: items, c', ?_, hs', ?_, fun _ => .inr ⟨_, _, rfl⟩⟩
      · rw [← hbody]
        rw [← Head.bodyStyle_bare] at hi
        exact readItems_nested hp hclose hbegin (by omega) hread hi hcl hi'
      · rw [← hrest]
        rfl

/-- A shaped and stable body is read from its lines as it is. -/
theorem readBody_written {body : List Statement} (hs : ShapedBody style body)
    (hstable : StableBody style body) (hdepth : nestingAll body ≤ cfg.maxDepth)
    (h : c.Sees (lineTokens (layoutAll body) ++ ['\n'] :: ['\x7d'] :: rest)) :
    ∃ c', readBody cfg style c = .ok (body, c') ∧ c'.Shows rest := by
  have hdepth : nestingAll body ≤ cfg.maxDepth - 0 := hdepth
  obtain ⟨items, c', hi, hs', hbody, -⟩ := readItems_written hs hstable hdepth h
  refine ⟨c', ?_, hs'⟩
  rw [readBody, hi]
  show Except.ok (Statement.ofItems items, c') = _
  rw [hbody]

end SparqlTree
