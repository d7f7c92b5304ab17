import SparqlTree.Grammar.Draft
import SparqlTree.Proofs.Grammar.Bulk

/-!
# What a clause adds to a draft

A query is read clause by clause. `Draft.ClauseRead` lists what reading one clause can do to a
draft, and `StatementRead` what is known of a statement when it has just been read; nothing else of
the reading of clauses is needed to find out what holds of every query. Part of it is a balance: the
lines of what was read and the tokens that are left have at most the bulk of the tokens that were
there before.
-/

namespace SparqlTree

open Text (Closed IsToken Scanned isBreak lineTokens written trimTokens)
open Statement (layoutAll)

/-! ## 1. Statements of a query -/

/-- The template of a CONSTRUCT form as it can be read. -/
structure Template (t : Text) : Prop where
  tokens : ∀ w ∈ Text.tokens t, IsToken w ∧ w ≠ ['\x7d']
  written : Text.trim (written (Text.tokens t)) = t

theorem Template.trim_eq {t : Text} (h : Template t) : t.trim = t := by
  rw [← h.written, Text.trim_trim]

/-- The heads of blocks that stand on their own in a query. -/
inductive Head.Top : Head → Prop
  | pattern : Head.Top .pattern
  | ask : Head.Top .ask
  | select {p : Projection} : p.inBlock = false → p.Shaped → Head.Top (.select p)
  | describe {p : Projection} : p.inBlock = false → p.Shaped → Head.Top (.describe p)
  | construct {template : Text} {modifiers : List Text} : Template template →
    Modifiers modifiers → Head.Top (.construct template modifiers)

theorem modifiers_nil : Modifiers [] :=
  ⟨[], rfl, fun _ h => (by cases h), fun _ h => (by cases h), .nil⟩

namespace Head.Top

variable {head : Head}

/-- The brace that closes the body ends a block of its own; the solution modifiers follow it. -/
theorem closing_eq (h : head.Top) : head.closing = closeLine :: head.modifiers := by
  cases h with
  | pattern | ask | construct => rfl
  | select hin | describe hin =>
    rw [Head.closing, Projection.closing, if_neg (by rw [hin]; decide), List.append_nil]
    rfl

theorem modifiers (h : head.Top) : Modifiers head.modifiers := by
  cases h with
  | pattern | ask => exact modifiers_nil
  | select _ hp | describe _ hp => exact hp.modifiers
  | construct _ hm => exact hm

end Head.Top

namespace Statement

/-- A statement of a query as it can be read. -/
inductive Top : Statement → Prop
  | block {head : Head} {body : List Statement} : head.Top → ShapedBody head.bodyStyle body →
    Top (.block head body)
  | update {head : UpdateHead} {template : List Statement} {attached : Option (List Statement)} :
    ShapedBody .whole template → (∀ body ∈ attached, ShapedBody .segmented body) →
    Top (.update head template attached)

/-- The solution modifiers of a statement. -/
def modifiers : Statement → List Text
  | block head _ => head.modifiers
  | _ => []

/-- The number of blocks that stand within one another in the bodies of a statement. -/
def depth : Statement → Nat
  | simple _ => 0
  | block _ body => nestingAll body
  | update _ template attached =>
    max (nestingAll template) (match attached with
      | some body => nestingAll body
      | none => 0)

end Statement

/-- What is known of a body once it was read up to the cursor behind its closing brace, from tokens
of the given bulk. -/
structure BodyRead (cfg : Config) (n : Nat) (style : BodyStyle) (body : List Statement)
    (c : Cursor) : Prop where
  lexed : c.Lexed
  shaped : ShapedBody style body
  depth : Statement.nestingAll body ≤ cfg.maxDepth
  bulk_le : bulkAll (lineTokens (layoutAll body)) + bulk ['\x7d'] + c.bulk ≤ n
  stable : bulkAll (lineTokens (layoutAll body)) + bulk ['\x7d'] + c.bulk = n →
    StableBody style body

/-- What is known of a statement of a query once it was read up to the cursor, from tokens of the
given bulk. -/
structure StatementRead (cfg : Config) (n : Nat) (s : Statement) (c : Cursor) : Prop where
  lexed : c.Lexed
  top : s.Top
  /-- An open string or IRI reference is the last token of the text. -/
  closed : ∀ t, c.peek = some t → ∀ m ∈ s.modifiers, Closed m
  depth : s.depth ≤ cfg.maxDepth
  /-- With strict checking, variables of a template are bound, or another update comes next. -/
  bound : ∀ head template, s = .update head template none → cfg.strictUpdateWhere = true →
    head.data = false → (Statement.unknownsAll template).isEmpty = false →
    UpdateHead.atUpdate c = true
  bulk_le : bulkAll (lineTokens s.layout) + c.bulk ≤ n
  stable : bulkAll (lineTokens s.layout) + c.bulk = n → s.Stable

variable {cfg : Config} {c c' : Cursor} {n : Nat}

/-! ## 2. Reading a body -/

theorem readBody_sound {style : BodyStyle} {body : List Statement} (hc : c.Lexed)
    (h : readBody cfg style c = .ok (body, c')) : BodyRead cfg c.bulk style body c' := by
  obtain ⟨items, hitems, rfl⟩ := readBody_cases h
  obtain ⟨ws, hp, hd, -⟩ := readItems_sound hc hitems
  obtain ⟨hle, heq⟩ := hd.bulk_le hp.single
  have hbulk := hp.bulk
  rw [bulkAll_append, bulkAll_cons, bulkAll_nil] at hbulk
  exact ⟨hp.lexed, (hd.itemsShaped hp.single).body, hd.nestingAll_le, by omega,
    fun he => heq (by omega)⟩

theorem Cursor.Passed.modifiers {mss : List (List Text)} (h : c.Passed mss.flatten c')
    (hms : ∀ ms ∈ mss, IsModifier ms) : Modifiers (mss.map Text.spaced) :=
  ⟨mss, rfl, hms, h.noBreak, h.scanned⟩

theorem Cursor.Passed.closed {mss : List (List Text)} {t : Token} (h : c.Passed mss.flatten c')
    (hp : c'.peek = some t) : ∀ m ∈ mss.map Text.spaced, Closed m :=
  closed_of_single fun w hw => ⟨h.isToken_of_peek hp w hw, h.noBreak w hw⟩

/-- Solution modifiers are written as they were read. -/
theorem bulk_modifiers {mss : List (List Text)} (h : c.Passed mss.flatten c') :
    bulkAll (lineTokens (closeLine :: mss.map Text.spaced)) + c'.bulk
      ≤ bulk ['\x7d'] + c.bulk := by
  have hbulk := h.bulk
  have hsame : bulkAll (mss.flatMap (['\n'] :: ·)) = bulkAll mss.flatten :=
    (respelled_modifiers mss).bulk_eq.symm
  rw [Text.lineTokens_cons, tokens_closeLine, lineTokens_modifiers h.scanned,
    bulkAll_cons, bulkAll_append, bulkAll_cons, bulkAll_nil, bulk_newline, hsame]
  omega

/-- Heads of statements before their body was read. -/
inductive Head.Begun : Head → Prop
  | pattern : Head.Begun .pattern
  | ask : Head.Begun .ask
  | select {ws : List Text} {p : Projection} : (∀ w ∈ ws, Single w) →
    ProjectionFrom false ws p → Head.Begun (.select p)
  | describe {ws : List Text} {p : Projection} : (∀ w ∈ ws, Single w) →
    ProjectionFrom false ws p → Head.Begun (.describe p)
  | construct {template : Text} {before : List Text} : Template template →
    Head.Begun (.construct template before)

/-- What is known of a head once its block was closed up to the cursor, from tokens of the given
bulk behind its closing brace. -/
structure Head.CloseRead (n : Nat) (head closed : Head) (c : Cursor) : Prop where
  lexed : c.Lexed
  top : closed.Top
  style : closed.bodyStyle = head.bodyStyle
  kind : closed.kind = head.kind
  opening : closed.opening = head.opening
  bulk_le : bulkAll (lineTokens closed.closing) + c.bulk ≤ bulk ['\x7d'] + n
  closed : ∀ t, c.peek = some t → ∀ m ∈ closed.modifiers, Closed m

theorem bulk_closeLine : bulkAll (lineTokens [closeLine]) = bulk ['\x7d'] := by
  rw [← respelled_closeLine.bulk_eq, bulkAll_cons, bulkAll_nil, Nat.add_zero]

/-- A head is complete with the solution modifiers that were read behind its closing brace. -/
theorem Head.CloseRead.of_took {head closed : Head} (mss : List (List Text))
    (hp : c.Took mss.flatten c') (htop : closed.Top)
    (hmodifiers : closed.modifiers = mss.map Text.spaced)
    (hstyle : closed.bodyStyle = head.bodyStyle) (hkind : closed.kind = head.kind)
    (hopening : closed.opening = head.opening) : head.CloseRead c.bulk closed c' where
  lexed := hp.lexed
  top := htop
  style := hstyle
  kind := hkind
  opening := hopening
  bulk_le := by
    rw [htop.closing_eq, hmodifiers]
    exact bulk_modifiers hp.toPassed
  closed := by
    rw [hmodifiers]
    exact fun _ ht => hp.closed ht

/-- What closes the block of a statement completes its head. -/
theorem Head.Begun.close {head closed : Head} (hb : head.Begun) (hc : c.Lexed)
    (h : head.close c = .ok (closed, c')) : head.CloseRead c.bulk closed c' := by
  obtain ⟨ws, hp, hclose⟩ := Head.took_close hc h
  cases hb with
  | pattern =>
    cases hclose
    exact .of_took [] hp .pattern rfl rfl rfl rfl
  | ask =>
    cases hclose
    exact .of_took [] hp .ask rfl rfl rfl rfl
  | select hws hpf =>
    cases hclose with
    | @select p mss hms =>
      have hin := hpf.inBlock_eq
      rw [hin, if_neg (by decide), List.append_nil] at hp
      exact .of_took mss hp (.select hin (hpf.shaped hws (hp.modifiers hms))) rfl rfl rfl rfl
  | describe hws hpf =>
    cases hclose with
    | @describe p mss hms =>
      have hin := hpf.inBlock_eq
      rw [hin, if_neg (by decide), List.append_nil] at hp
      exact .of_took mss hp (.describe hin (hpf.shaped hws (hp.modifiers hms))) rfl rfl rfl rfl
  | construct ht =>
    cases hclose with
    | @construct template before mss hms =>
      exact .of_took mss hp (.construct ht (hp.modifiers hms)) rfl rfl rfl rfl

theorem Head.Begun.readBlock {head : Head} {s : Statement} (hb : head.Begun) (hc : c.Lexed)
    (hopen : bulkAll (lineTokens head.opening) + c.bulk ≤ n)
    (h : head.readBlock cfg c = .ok (s, c')) : StatementRead cfg n s c' ∧ s.kind = head.kind := by
  obtain ⟨body, c₁, closed, h₁, h₂, rfl⟩ := Head.readBlock_cases h
  have hbody := readBody_sound hc h₁
  have hclose := hb.close hbody.lexed h₂
  have hle₁ := hbody.bulk_le
  have hle₂ := hclose.bulk_le
  -- The lines of the block are those that open it, those of its body and those that close it.
  have hlayout : bulkAll (lineTokens (Statement.layout (.block closed body))) =
      bulkAll (lineTokens head.opening) + bulkAll (lineTokens (layoutAll body))
        + bulkAll (lineTokens closed.closing) := by
    rw [Statement.lineTokens_layout_block, hclose.opening, bulkAll_append, bulkAll_append]
  have hstyle := hclose.style
  refine ⟨⟨hclose.lexed, .block hclose.top (hstyle ▸ hbody.shaped), hclose.closed, hbody.depth,
    fun _ _ h => (by cases h), by omega, fun he => ?_⟩, hclose.kind⟩
  show StableBody closed.bodyStyle body
  rw [hstyle]
  exact hbody.stable (by omega)

theorem bulk_keyword_brace (k : Keyword) :
    bulkAll (lineTokens [Text.spaced [k.name, ['\x7b']]]) = bulk k.name + bulk ['\x7b'] := by
  rw [← (respelled_keyword_brace k.spells_name).bulk_eq, bulkAll_cons, bulkAll_cons, bulkAll_nil,
    Nat.add_zero]

theorem ProjectionFrom.bulk_opening {ws : List Text} {p : Projection} (k : Keyword)
    (h : ProjectionFrom false ws p) (hws : ∀ w ∈ ws, Single w) :
    bulkAll (lineTokens (p.opening k)) = bulk k.name + bulkAll (ws ++ [['\x7b']]) := by
  have hspelled := (h.respelled p.modifiers k.spells_name hws).bulk_eq
  rw [if_neg (by decide), List.nil_append, List.cons_append, bulkAll_cons] at hspelled
  exact hspelled.symm

/-- The lines before the body of a projection have no more bulk than what was read for them. -/
theorem Projection.read_sound {p : Projection} (hc : c.Lexed)
    (h : Projection.read false c = .ok (p, c')) :
    ∃ ws, (∀ w ∈ ws, Single w) ∧ ProjectionFrom false ws p ∧ c'.Lexed ∧
      ∀ k : Keyword, bulkAll (lineTokens (p.opening k)) + c'.bulk ≤ bulk k.name + c.bulk := by
  obtain ⟨ws, hp, hpf⟩ := Projection.took_read hc h
  refine ⟨ws, hp.single, hpf, hp.lexed, fun k => ?_⟩
  have hle := hp.bulk
  rw [hpf.bulk_opening k hp.single]
  omega

/-! ## 3. Reading a template -/

theorem takeWhile_ne_closeBrace {ts : List Token} {ws : List Text}
    (h : ts.map (fun t => (t.kind, t.text)) = ws.map fun w => (TokenKind.classify w, w)) :
    (ts.takeWhile (·.kind != .closeBrace)).map Token.text = ws.takeWhile (· != ['\x7d']) ∧
      ∀ t ∈ ts, t.isLineBreak = isBreak t.text := by
  induction ts generalizing ws with
  | nil =>
    obtain rfl := List.map_eq_nil_iff.1 h.symm
    exact ⟨rfl, fun _ h => nomatch h⟩
  | cons t ts ih =>
    cases ws with
    | nil => nomatch h
    | cons w ws =>
      obtain ⟨ht, hts⟩ := List.cons_eq_cons.1 h
      obtain ⟨hk, rfl⟩ := Prod.mk.inj ht
      obtain ⟨ih₁, ih₂⟩ := ih hts
      refine ⟨?_, fun u hu => ?_⟩
      · have hbrace : (t.kind != .closeBrace) = (t.text != ['\x7d']) := by
          rw [hk, Bool.eq_iff_iff, bne_iff_ne, bne_iff_ne, ne_eq, ne_eq,
            Text.classify_eq_closeBrace]
        rw [List.takeWhile_cons, List.takeWhile_cons, hbrace]
        split
        · rw [List.map_cons, ih₁]
        · rfl
      · rcases List.mem_cons.1 hu with rfl | hu
        · rw [Token.isLineBreak, isBreak, hk]
        · exact ih₂ u hu

/-- What is read of a template is written as its tokens are. -/
theorem Cursor.Shows.written_inside {ws : List Text} (h : c.Shows ws) :
    (c.upcoming.takeWhile (·.kind != .closeBrace)).length
        = (ws.takeWhile (· != ['\x7d'])).length ∧
      (c.upcoming.takeWhile (·.kind != .closeBrace)).flatMap
          (fun t => if t.isLineBreak then t.text else ' ' :: t.text)
        = written (ws.takeWhile (· != ['\x7d'])) := by
  obtain ⟨htake, hbreak⟩ := takeWhile_ne_closeBrace h
  refine ⟨by rw [← htake, List.length_map], ?_⟩
  rw [← htake, written, List.flatMap_map, List.flatMap_def, List.flatMap_def]
  refine congrArg List.flatten (List.map_congr_left fun t ht => ?_)
  rw [Text.piece, hbreak t ((List.takeWhile_sublist _).subset ht)]

theorem plain_or_openBrace {w : Text} (h : IsToken w) (hne : w ≠ ['\x7d']) :
    Text.Plain w ∨ w = ['\x7b'] := by
  by_cases hw : w = ['\x7b']
  · exact .inr hw
  · exact .inl ⟨h, hw, hne⟩

theorem template_trim_written {ws : List Text} (h : ∀ w ∈ ws, IsToken w ∧ w ≠ ['\x7d']) :
    Template (Text.trim (written ws)) where
  tokens := by
    rw [Text.tokens_trim_written fun w hw => (h w hw).1]
    -- A token that is trimmed is a plain one or an opening brace, which does not change.
    refine Text.forall_trimTokens (fun w hw hne => ?_) (fun w hw hne => ?_) h
    · rcases plain_or_openBrace hw.1 hw.2 with hp | rfl
      · have hp := Text.plain_trimStart hp hne
        exact ⟨hp.1, hp.2.2⟩
      · exact ⟨.openBrace, by decide⟩
    · rcases plain_or_openBrace hw.1 hw.2 with hp | rfl
      · have hp := Text.plain_trimEnd hp hne
        exact ⟨hp.1, hp.2.2⟩
      · exact ⟨.openBrace, by decide⟩
  written := Text.trim_written_tokens fun w hw => (h w hw).1

theorem Cursor.bulk_advance {ws : List Text} (h : c.Shows ws) (n : Nat) :
    bulkAll (ws.take n) + (c.advance n).bulk = c.bulk := by
  rw [Cursor.bulk, Cursor.bulk, (h.advance n).texts, h.texts, ← bulkAll_append,
    List.take_append_drop]

/-- The tokens inside a template, and the brace that closes it. -/
theorem Cursor.Shows.exists_inside {ws : List Text} (h : c.Shows ws)
    (hlt : (c.upcoming.takeWhile (·.kind != .closeBrace)).length < c.upcoming.length) :
    ∃ inside rest, ws = inside ++ ['\x7d'] :: rest ∧ (∀ w ∈ inside, w ≠ ['\x7d']) ∧
      (c.upcoming.takeWhile (·.kind != .closeBrace)).length = inside.length ∧
      (c.upcoming.takeWhile (·.kind != .closeBrace)).flatMap
          (fun t => if t.isLineBreak then t.text else ' ' :: t.text) = written inside := by
  obtain ⟨hlen, hwritten⟩ := h.written_inside
  have hsplit := List.takeWhile_append_dropWhile (p := (· != ['\x7d'])) (l := ws)
  cases hd : ws.dropWhile (· != ['\x7d']) with
  | nil =>
    -- Without the brace all tokens would stand inside.
    rw [hd, List.append_nil] at hsplit
    have htexts := congrArg List.length h
    rw [List.length_map, List.length_map] at htexts
    rw [hsplit, ← htexts] at hlen
    exact absurd hlen (Nat.ne_of_lt hlt)
  | cons w rest =>
    have hw := List.head?_dropWhile_not (· != ['\x7d']) ws
    rw [hd] at hw
    obtain rfl : w = ['\x7d'] := by simpa using hw
    refine ⟨_, rest, ?_, fun v hv => ?_, hlen, hwritten⟩
    · rw [← hd, hsplit]
    · exact bne_iff_ne.1 (List.all_eq_true.1 List.all_takeWhile v hv)

theorem Head.readTemplate_sound {t : Text} (hc : c.Lexed) (h : readTemplate c = .ok (t, c')) :
    c'.Lexed ∧ Template t ∧
      bulk ['\x7b'] + bulkAll (Text.tokens t) + bulk ['\x7d'] + c'.bulk ≤ c.bulk := by
  obtain ⟨c₁, h₁, h⟩ := bind_eq_ok.1 h
  have hp₁ := took_readOpenBrace hc h₁
  have hc₁ := hp₁.lexed
  have hbulk := hp₁.bulk
  rw [bulkAll_cons, bulkAll_nil] at hbulk
  dsimp only at h
  split at h
  · next hlt =>
    obtain ⟨rfl, rfl⟩ := Prod.mk.inj (Except.ok.inj h)
    refine ⟨hc₁.advance _, ?_⟩
    obtain ⟨ws, hs, hscan⟩ := hc₁
    obtain ⟨inside, rest, rfl, hne, hlen, hwritten⟩ := hs.exists_inside hlt
    rw [hwritten, hlen]
    have htoken : ∀ w ∈ inside, IsToken w := hscan.of_append.forall_of_append (by simp)
    have hadvance := Cursor.bulk_advance hs (inside.length + 1)
    rw [List.take_append, List.take_of_length_le (Nat.le_succ _), Nat.add_sub_cancel_left,
      List.take_succ_cons, List.take_zero, bulkAll_append, bulkAll_cons, bulkAll_nil] at hadvance
    -- What is trimmed off the template only makes it lighter.
    obtain ⟨hle, -⟩ := bulkAll_trimTokens fun w hw => (htoken w hw).ne_nil
    refine ⟨template_trim_written fun w hw => ⟨htoken w hw, hne w hw⟩, ?_⟩
    rw [Text.tokens_trim_written htoken]
    omega
  · nomatch h

theorem Template.bulk_opening {t : Text} {modifiers : List Text} (h : Template t) :
    bulkAll (lineTokens (Head.construct t modifiers).opening) =
      bulk Keyword.construct.name + bulk ['\x7b'] + bulkAll (Text.tokens t) + bulk ['\x7d']
        + bulk ['\x7b'] := by
  have hbrace := bulk_keyword_brace .construct
  have hwhere : bulkAll (lineTokens [whereLine]) = bulk ['\x7b'] := by
    rw [whereLine, bulk_keyword_brace, bulk_where (Keyword.spells_name _), Nat.zero_add]
  have hlines : bulkAll (lineTokens (if t.trim = [] then [] else [t.trim]))
      = bulkAll (Text.tokens t) := by
    rw [h.trim_eq]
    split
    · next hnil => rw [hnil, Text.tokens_nil, Text.lineTokens_nil]
    · rw [Text.lineTokens_cons, Text.lineTokens_nil, List.append_nil, bulkAll_cons, bulk_newline,
        Nat.zero_add]
  have hopening : (Head.construct t modifiers).opening =
      [Text.spaced [Keyword.construct.name, ['\x7b']]]
        ++ (if t.trim = [] then [] else [t.trim]) ++ [closeLine] ++ [whereLine] := by
    rw [Head.opening]
    simp
  rw [hopening, Text.lineTokens_append, Text.lineTokens_append, Text.lineTokens_append,
    bulkAll_append, bulkAll_append, bulkAll_append, hbrace, hlines, bulk_closeLine, hwhere]

theorem Head.readConstruct_sound {head : Head} (hc : c.Lexed)
    (h : readConstruct c = .ok (head, c')) :
    c'.Lexed ∧ head.Begun ∧ head.kind = .construct ∧
      bulkAll (lineTokens head.opening) + c'.bulk ≤ bulk Keyword.construct.name + c.bulk := by
  obtain ⟨⟨t, c₁⟩, h₁, h⟩ := bind_eq_ok.1 h
  obtain ⟨c₂, h₂, h⟩ := bind_eq_ok.1 h
  obtain ⟨rfl, rfl⟩ := Prod.mk.inj (Except.ok.inj h)
  obtain ⟨hc₁, ht, hle⟩ := readTemplate_sound hc h₁
  obtain ⟨ws, hp, -⟩ := took_readOptionalWhere hc₁ h₂
  have hbulk := hp.bulk
  rw [bulkAll_append, bulkAll_cons, bulkAll_nil] at hbulk
  refine ⟨hp.lexed, .construct ht, rfl, ?_⟩
  rw [ht.bulk_opening]
  omega

/-! ## 4. Reading an update -/

namespace UpdateHead

/-- What is known of the WHERE body of an update once it was read up to the cursor, if one was
there. -/
structure AttachedRead (cfg : Config) (c : Cursor) (attached : Option (List Statement))
    (c' : Cursor) : Prop where
  lexed : c'.Lexed
  shaped : ∀ body ∈ attached, ShapedBody .segmented body
  depth : ∀ body ∈ attached, Statement.nestingAll body ≤ cfg.maxDepth
  bulk_le : bulkAll (lineTokens (attachedLines attached)) + c'.bulk ≤ c.bulk
  stable : bulkAll (lineTokens (attachedLines attached)) + c'.bulk = c.bulk →
    ∀ body ∈ attached, StableBody .segmented body
  none : attached = none → c' = c ∧ c.atGlued .whereClause = false

theorem readAttached?_sound {attached : Option (List Statement)} (hc : c.Lexed)
    (h : readAttached? cfg c = .ok (attached, c')) : AttachedRead cfg c attached c' := by
  obtain ⟨hno, rfl, rfl⟩ | ⟨c₁, c₂, body, h₁, h₂, h₃, rfl⟩ := readAttached?_cases h
  · exact ⟨hc, fun _ h => (by cases h), fun _ h => (by cases h), Nat.le_of_eq (Nat.zero_add _),
      fun _ _ h => (by cases h), fun _ => ⟨rfl, Cursor.atGlued_of_eatGlued?_eq_none hno⟩⟩
  · obtain ⟨w, hw, hp⟩ := took_gluedBrace hc h₁ h₂
    have hbody := readBody_sound hp.lexed h₃
    have hle₁ := hp.bulk
    have hle₂ := hbody.bulk_le
    rw [bulkAll_cons, bulk_where hw, bulkAll_cons, bulkAll_nil] at hle₁
    -- WHERE has no bulk, so it does not matter whether it was glued to the brace.
    have hlines : bulkAll (lineTokens (attachedLines (some body))) =
        bulk ['\x7b'] + bulkAll (lineTokens (layoutAll body)) + bulk ['\x7d'] := by
      have hwhere := bulk_keyword_brace .whereClause
      rw [bulk_where (Keyword.spells_name _), Nat.zero_add] at hwhere
      rw [attachedLines, ← List.singleton_append, Text.lineTokens_append, Text.lineTokens_append,
        bulkAll_append, bulkAll_append, bulk_closeLine, whereLine, hwhere]
    refine ⟨hbody.lexed, fun b hb => ?_, fun b hb => ?_, by omega, fun he b hb => ?_,
      fun h => by cases h⟩
    · exact Option.some.inj hb ▸ hbody.shaped
    · exact Option.some.inj hb ▸ hbody.depth
    · exact Option.some.inj hb ▸ hbody.stable (by omega)

/-- DATA and the opening brace are written as they were read. -/
theorem skipData_sound (hc : c.Lexed) (h : readOpenBrace (c.skipGlued .data) = .ok c') :
    c'.Lexed ∧ bulkAll ((if c.atGlued .data then [Keyword.data.name] else []) ++ [['\x7b']])
      + c'.bulk ≤ c.bulk := by
  unfold Cursor.skipGlued at h
  -- DATA may be glued to the brace; then the brace is what is left of the token.
  cases h₁ : c.eatGlued? .data with
  | none =>
    rw [h₁] at h
    have hp := took_readOpenBrace hc h
    refine ⟨hp.lexed, ?_⟩
    rw [Cursor.atGlued_of_eatGlued?_eq_none h₁]
    exact hp.bulk
  | some c₁ =>
    rw [h₁] at h
    obtain ⟨w, hw, hp⟩ := took_gluedBrace hc h₁ h
    have hle := hp.bulk
    rw [bulkAll_cons, bulk_spells hw] at hle
    refine ⟨hp.lexed, ?_⟩
    rw [bulkAll_append]
    split
    · exact hle
    · rw [bulkAll_nil]
      omega

theorem bulk_layout (head : UpdateHead) (template : List Statement)
    (attached : Option (List Statement)) :
    bulkAll (lineTokens (Statement.layout (.update head template attached))) =
      bulk head.operation.keyword.name
        + bulkAll ((if head.data then [Keyword.data.name] else []) ++ [['\x7b']])
        + bulkAll (lineTokens (layoutAll template)) + bulk ['\x7d']
        + bulkAll (lineTokens (attachedLines attached)) := by
  have hlines : Statement.layout (.update head template attached) =
      [head.opening] ++ layoutAll template ++ [closeLine] ++ attachedLines attached := by
    rw [Statement.layout_update]
    simp
  rw [hlines, Text.lineTokens_append, Text.lineTokens_append, Text.lineTokens_append,
    bulkAll_append, bulkAll_append, bulkAll_append, bulk_closeLine, Text.lineTokens_cons,
    Text.lineTokens_nil, List.append_nil, tokens_opening, bulkAll_cons, bulk_newline,
    Nat.zero_add, List.cons_append, bulkAll_cons]

theorem read_sound {operation : Operation} {s : Statement} (hc : c.Lexed)
    (hk : bulk operation.keyword.name + c.bulk ≤ n) (h : read cfg operation c = .ok (s, c')) :
    StatementRead cfg n s c' ∧ s.kind = .update := by
  obtain ⟨c₁, template, c₂, attached, h₁, h₂, hlacks, h₃, rfl⟩ := read_cases h
  obtain ⟨hc₁, hle₁⟩ := skipData_sound hc h₁
  have hbody := readBody_sound hc₁ h₂
  have hattached := readAttached?_sound hbody.lexed h₃
  have hle₂ := hbody.bulk_le
  have hle₃ := hattached.bulk_le
  have hlayout := bulk_layout ⟨operation, c.atGlued .data⟩ template attached
  dsimp only at hlayout ⊢
  refine ⟨⟨hattached.lexed, .update hbody.shaped hattached.shaped, fun _ _ _ hm => (nomatch hm),
    ?_, ?_, by omega, fun he => ⟨hbody.stable (by omega), hattached.stable (by omega)⟩⟩, rfl⟩
  · show max (Statement.nestingAll template) _ ≤ _
    cases attached with
    | none => exact Nat.max_le.2 ⟨hbody.depth, Nat.zero_le _⟩
    | some body => exact Nat.max_le.2 ⟨hbody.depth, hattached.depth body rfl⟩
  · intro head template' hs hstrict hdata hvars
    obtain ⟨rfl, rfl, rfl⟩ := Statement.update.injEq .. ▸ hs
    obtain ⟨rfl, hwhere⟩ := hattached.none rfl
    -- The check passed, so one of its conditions fails: it can only be the last one.
    rw [lacksWhere, hstrict, hwhere, hvars] at hlacks
    have hdata' : c.atGlued .data = false := hdata
    rw [hdata'] at hlacks
    simpa using hlacks

end UpdateHead

/-! ## 5. Reading a clause -/

/-- True of the labels that a prefix can have: words, which may be empty, and single tokens. -/
def IsLabel (label : Text) : Prop :=
  (∀ c ∈ label, Text.continuesWord c = true) ∨ Single label

theorem requireIri_sound {iri : Text} (hc : c.Lexed) (h : c.requireIri = .ok (iri, c')) :
    c'.Lexed ∧ IsIri iri ∧ c'.bulk ≤ c.bulk := by
  have hp := took_requireIri hc h
  refine ⟨hp.lexed, ?_, Nat.le_trans (Nat.le_add_left _ _) hp.bulk⟩
  cases hp.scanned with
  | cons hw _ => exact isIri_of_isToken hw
  | leftOpen hw =>
    obtain ⟨hw, -⟩ := hw
    generalize he : Text.angled iri = w at hw
    cases hw with
    | string => nomatch he
    | iri t ht =>
      obtain rfl := (List.cons_eq_cons.1 he).2
      exact absurd (List.mem_append_right _ (by simp)) ht

namespace Draft

theorem readPrefix_sound {label iri : Text} (hc : c.Lexed)
    (h : readPrefix c = .ok (label, iri, c')) :
    c'.Lexed ∧ IsLabel label ∧ IsIri iri ∧ c'.bulk ≤ c.bulk := by
  obtain ⟨t, c₁, h₁, hcase⟩ := readPrefix_cases h
  obtain ⟨hp₁, -⟩ := hc.expect_eq_ok h₁
  have hle₁ := hp₁.bulk
  obtain ⟨hlast, rfl, hiri⟩ | ⟨u, c₂, rfl, h₂, hiri⟩ := hcase
  · obtain ⟨hc', hi, hle₂⟩ := requireIri_sound hp₁.lexed hiri
    have hsingle := (hp₁.trans (took_requireIri hp₁.lexed hiri)).single t.text (by simp)
    refine ⟨hc', .inl fun ch hch => ?_, hi, by omega⟩
    exact hsingle.1.word_of_getLast hlast (by decide) (by decide) ch
      (List.dropLast_subset _ hch)
  · obtain ⟨hp₂, -⟩ := hp₁.lexed.require_eq_ok h₂
    have hle₂ := hp₂.bulk
    obtain ⟨hc', hi, hle₃⟩ := requireIri_sound hp₂.lexed hiri
    exact ⟨hc', .inr ((hp₁.trans hp₂).single t.text (by simp)), hi, by omega⟩

/-- What reading a clause up to the cursor, from tokens of the given bulk, can make of a draft. -/
inductive ClauseRead (cfg : Config) (n : Nat) (c : Cursor) (d : Draft) : Draft → Prop
  | prefixDecl {label iri : Text} : d.prologueClosed = false → c.Lexed → c.bulk ≤ n →
    IsLabel label → IsIri iri →
    ClauseRead cfg n c d { d with prefixes := d.prefixes.insert label iri }
  | base {iri : Text} : d.prologueClosed = false → c.Lexed → c.bulk ≤ n → IsIri iri →
    ClauseRead cfg n c d { d with base := some iri }
  | graph {iri : Text} : c.Lexed → c.bulk ≤ n → IsIri iri →
    ClauseRead cfg n c d { d with graph := some iri }
  | pattern {s : Statement} : s.kind = .pattern → StatementRead cfg n s c →
    ClauseRead cfg n c d (d.add s)
  | select {s : Statement} : d.form = none → s.kind = .select → StatementRead cfg n s c →
    ClauseRead cfg n c d (d.addForm .select false s)
  | describe {s : Statement} : d.form = none → s.kind = .describe → StatementRead cfg n s c →
    ClauseRead cfg n c d (d.addForm .describe true s)
  | construct {s : Statement} : d.form = none → s.kind = .construct → StatementRead cfg n s c →
    ClauseRead cfg n c d (d.addForm .construct true s)
  | ask {s : Statement} {graph : Option Text} : d.form = none → s.kind = .ask →
    (∀ iri ∈ graph, IsIri iri) → StatementRead cfg n s c →
    ClauseRead cfg n c d { d.addForm .ask true s with graph := graph.or d.graph }
  | update {s : Statement} : d.form = none ∨ d.form = some .update → s.kind = .update →
    StatementRead cfg n s c → ClauseRead cfg n c d (d.addForm .update false s)

/-- The keywords that begin a query form. -/
def formKeywords : List Keyword := [.select, .construct, .describe, .ask]

/-- A FROM clause before the body of an ASK query names a graph. -/
theorem askHead_sound {dataset : Option (Text × Bool)} {c₁ : Cursor} (hc : c.Lexed)
    (h₁ : readDataset? c = .ok (dataset, c₁)) (h : Head.readOptionalWhere c₁ = .ok c') :
    c'.Lexed ∧ (∀ iri ∈ dataset.map Prod.fst, IsIri iri) ∧ bulk ['\x7b'] + c'.bulk ≤ c.bulk := by
  obtain ⟨ds, hp₁, hd⟩ := took_readDataset? hc h₁
  obtain ⟨ws, hp₂, -⟩ := Head.took_readOptionalWhere hp₁.lexed h
  have hsingle : ∀ w ∈ ds, Single w := by
    have hall := hp₁.trans hp₂
    rw [← List.append_assoc] at hall
    exact fun w hw => hall.single w (List.mem_append_left _ hw)
  have hle₁ := hp₁.bulk
  have hle₂ := hp₂.bulk
  rw [bulkAll_append, bulkAll_cons, bulkAll_nil] at hle₂
  exact ⟨hp₂.lexed, isIri_of_datasetFrom hd hsingle, by omega⟩

/-- Reading a clause does to a draft one of the things that `ClauseRead` lists. -/
theorem readClause_sound {k : Keyword} {d d' : Draft} (hc : c.pass.Lexed)
    (hn : bulk k.name + c.pass.bulk ≤ n) (h : readClause cfg k d c = .ok (d', c')) :
    ClauseRead cfg n c' d d' := by
  have hpass : c.pass.bulk ≤ n := Nat.le_trans (Nat.le_add_left _ _) hn
  cases readClause_cases h with
  | prefixDecl hopen h₁ =>
    obtain ⟨hc', hl, hi, hle⟩ := readPrefix_sound hc h₁
    exact .prefixDecl hopen hc' (Nat.le_trans hle hpass) hl hi
  | base hopen h₁ =>
    obtain ⟨hc', hi, hle⟩ := requireIri_sound hc h₁
    exact .base hopen hc' (Nat.le_trans hle hpass) hi
  | fromClause h₁ =>
    -- NAMED may stand before the IRI reference. It is passed over.
    obtain ⟨_, hp, -⟩ := took_skip hc .named
    have hle₁ := hp.bulk
    obtain ⟨hc', hi, hle₂⟩ := requireIri_sound hp.lexed h₁
    exact .graph hc' (by omega) hi
  | withGraph h₁ =>
    obtain ⟨hc', hi, hle⟩ := requireIri_sound hc h₁
    exact .graph hc' (Nat.le_trans hle hpass) hi
  | select hform h₁ h₂ =>
    obtain ⟨ws, hws, hpf, hc₁, hle⟩ := Projection.read_sound hc h₁
    obtain ⟨hs, hkind⟩ := (Head.Begun.select hws hpf).readBlock (n := n) hc₁
      (Nat.le_trans (hle .select) hn) h₂
    exact .select hform hkind hs
  | describe hform h₁ h₂ =>
    obtain ⟨ws, hws, hpf, hc₁, hle⟩ := Projection.read_sound hc h₁
    obtain ⟨hs, hkind⟩ := (Head.Begun.describe hws hpf).readBlock (n := n) hc₁
      (Nat.le_trans (hle .describe) hn) h₂
    exact .describe hform hkind hs
  | construct hform h₁ h₂ =>
    obtain ⟨hc₁, hb, hkind₁, hle⟩ := Head.readConstruct_sound hc h₁
    obtain ⟨hs, hkind⟩ := hb.readBlock (n := n) hc₁ (by omega) h₂
    exact .construct hform (hkind.trans hkind₁) hs
  | ask hform h₁ h₂ h₃ =>
    -- A FROM clause becomes the graph of the query.
    obtain ⟨hc₂, hgraph, hle⟩ := askHead_sound hc h₁ h₂
    obtain ⟨hs, hkind⟩ := Head.Begun.ask.readBlock (n := n) hc₂ (by
      rw [Head.opening, bulk_keyword_brace]
      omega) h₃
    exact .ask hform hkind hgraph hs
  | insert hform h₁ | delete hform h₁ =>
    obtain ⟨hs, hkind⟩ := UpdateHead.read_sound hc (by exact hn) h₁
    exact .update hform hkind hs
  | whereClause h₁ h₂ =>
    have hp := took_readOpenBrace hc h₁
    have hle := hp.bulk
    rw [bulkAll_cons, bulkAll_nil] at hle
    obtain ⟨hs, hkind⟩ := Head.Begun.pattern.readBlock (n := n) hp.lexed (by
      rw [Head.opening, whereLine, bulk_keyword_brace]
      omega) h₂
    exact .pattern hkind hs

end Draft

end SparqlTree
