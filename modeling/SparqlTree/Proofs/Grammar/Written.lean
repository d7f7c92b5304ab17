import SparqlTree.Proofs.Grammar.Stable
import SparqlTree.Proofs.Query.Shape

/-!
# Clauses that are read as they were written

The declarations and the statements of a query are read again from their lines, one step of the
reader for each. What follows a statement matters in three places: behind solution modifiers no
further modifier may stand, behind an update without WHERE body no WHERE body, and with strict
checking an update follows a template whose variables nothing binds.
-/

namespace SparqlTree

open Text (isBreak IsToken Closed lineTokens)
open Statement (layout layoutAll nestingAll lineTokens_layout_block)

variable {cfg : Config} {c : Cursor} {rest : List Text} {head : Head} {body : List Statement}

/-! ## 1. Blocks -/

theorem Head.Top.close_written (ht : head.Top) (h : c.Sees (lineTokens head.closing.tail ++ rest))
    (hends : ∀ w ∈ nextToken rest, Modifier.Ends w) :
    ∃ c', head.bare.close c = .ok (head, c') ∧ c'.Sees rest := by
  cases ht with
  | pattern => exact ⟨c, rfl, h⟩
  | ask => exact ⟨c, rfl, h⟩
  | select _ hp =>
    obtain ⟨c', hclose, hs⟩ := closeProjection_written hp.modifiers h fun _ => hends
    refine ⟨c', ?_, hs⟩
    rw [bare, close, hclose]
    rfl
  | describe _ hp =>
    obtain ⟨c', hclose, hs⟩ := closeProjection_written hp.modifiers h fun _ => hends
    refine ⟨c', ?_, hs⟩
    rw [bare, close, hclose]
    rfl
  | construct _ hm =>
    obtain ⟨c', hread, hs⟩ := Modifier.readAll_written hm h hends
    refine ⟨c', ?_, hs⟩
    rw [bare, close, hread]
    rfl

theorem Head.Top.readBlock_written (ht : head.Top) (hs : ShapedBody head.bodyStyle body)
    (hstable : StableBody head.bodyStyle body) (hdepth : nestingAll body ≤ cfg.maxDepth)
    (h : c.Sees (lineTokens (layoutAll body) ++ lineTokens head.closing ++ rest))
    (hends : ∀ w ∈ nextToken rest, Modifier.Ends w) :
    ∃ c', head.bare.readBlock cfg c = .ok (.block head body, c') ∧ c'.Sees rest := by
  rw [head.closing_eq, Text.lineTokens_cons, tokens_closeLine, List.append_assoc] at h
  obtain ⟨c₁, hread, hs₁⟩ := readBody_written hs hstable hdepth h
  obtain ⟨c', hclose, hs'⟩ := ht.close_written hs₁.sees hends
  refine ⟨c', ?_, hs'⟩
  rw [readBlock, bodyStyle_bare, hread]
  show (head.bare.close c₁ >>= _) = _
  rw [hclose]
  rfl

/-! ## 2. Templates -/

theorem trim_between_newlines (t : Text) : Text.trim ('\n' :: (t ++ ['\n'])) = Text.trim t := by
  rw [Text.trim_cons_blank (by decide), Text.trim, Text.trimStart_append]
  split
  · next hnil =>
    rw [Text.trim, hnil]
    decide
  · rw [Text.trimEnd_append_blank _ (by decide), Text.trim]

/-- The tokens of a template between its braces. -/
theorem Template.exists_inside {t : Text} (h : Template t) :
    ∃ ws, (∀ w ∈ ws, w ≠ ['\x7d']) ∧ Text.trim (Text.written ws) = t ∧
      lineTokens ((if t.trim = [] then [] else [t.trim]) ++ [closeLine]) = ws ++ [['\x7d']] := by
  rw [h.trim_eq]
  by_cases ht : t = []
  · refine ⟨[['\n']], fun w hw => ?_, ?_, ?_⟩
    · rw [List.mem_singleton.1 hw]
      decide
    · rw [ht]
      decide
    · rw [if_pos ht, List.nil_append, Text.lineTokens_cons, tokens_closeLine]
      rfl
  · refine ⟨['\n'] :: (Text.tokens t ++ [['\n']]), fun w hw => ?_, ?_, ?_⟩
    · rw [List.mem_cons, List.mem_append, List.mem_singleton] at hw
      rcases hw with rfl | hw | rfl
      · decide
      · exact (h.tokens w hw).2
      · decide
    · rw [Text.written_cons, Text.written_append]
      show Text.trim ('\n' :: (Text.written (Text.tokens t) ++ ['\n'])) = t
      rw [trim_between_newlines, h.written]
    · rw [if_neg ht, Text.lineTokens_append, Text.lineTokens_cons, Text.lineTokens_cons,
        tokens_closeLine]
      simp

theorem Head.lineTokens_construct (template : Text) (modifiers : List Text) :
    lineTokens (Head.construct template modifiers).opening =
      ['\n'] :: Keyword.construct.name :: ['\x7b'] ::
        lineTokens ((if template.trim = [] then [] else [template.trim]) ++ [closeLine]) ++
        [['\n'], Keyword.whereClause.name, ['\x7b']] := by
  rw [opening, List.cons_append, Text.lineTokens_cons, tokens_keyword_brace,
    Text.lineTokens_append, Text.lineTokens_append, Text.lineTokens_cons, Text.lineTokens_cons,
    Text.lineTokens_cons, whereLine, tokens_keyword_brace]
  simp

theorem Head.readTemplate_written {t : Text} (ht : Template t)
    (h : c.Sees (['\x7b'] :: lineTokens ((if t.trim = [] then [] else [t.trim]) ++ [closeLine])
      ++ rest)) :
    ∃ c', readTemplate c = .ok (t, c') ∧ c'.Shows rest := by
  obtain ⟨ws, hno, hwritten, hlines⟩ := ht.exists_inside
  rw [hlines, List.cons_append, List.append_assoc] at h
  obtain ⟨hbrace, hs⟩ := readOpenBrace_written h
  have htake : (ws ++ ([['\x7d']] ++ rest)).takeWhile (· != ['\x7d']) = ws := by
    rw [List.takeWhile_append_of_pos fun w hw => bne_iff_ne.2 (hno w hw)]
    simp
  obtain ⟨hlen, htext⟩ := hs.written_inside
  rw [htake] at hlen htext
  have htotal : c.pass.upcoming.length = (ws ++ ([['\x7d']] ++ rest)).length := by
    rw [← hs.texts, List.length_map]
  refine ⟨c.pass.advance (ws.length + 1), ?_, ?_⟩
  · rw [readTemplate, hbrace]
    show (if (c.pass.upcoming.takeWhile _).length < c.pass.upcoming.length then _ else _) = _
    rw [if_pos (by rw [hlen, htotal]; simp), htext, hwritten, hlen]
    rfl
  · have hs' := hs.advance (ws.length + 1)
    rwa [← List.append_assoc, List.drop_left' (by simp)] at hs'

theorem Head.readOptionalWhere_written
    (h : c.Sees (Keyword.whereClause.name :: ['\x7b'] :: rest)) :
    ∃ c', readOptionalWhere c = .ok c' ∧ c'.Shows rest := by
  obtain ⟨heat, hs⟩ := h.eatGlued?_name
  obtain ⟨hbrace, hs'⟩ := readOpenBrace_written hs.sees
  refine ⟨c.pass.pass, ?_, hs'⟩
  rw [readOptionalWhere, Cursor.skipGlued, heat]
  exact hbrace

/-- Where a body begins at once no WHERE is skipped. -/
theorem Head.readOptionalWhere_brace (h : c.Sees (['\x7b'] :: rest)) :
    readOptionalWhere c = .ok c.pass ∧ c.pass.Shows rest := by
  obtain ⟨hbrace, hs⟩ := readOpenBrace_written h
  refine ⟨?_, hs⟩
  rw [readOptionalWhere, Cursor.skipGlued,
    h.eatGlued?_eq_none (forall_nextToken rfl (by decide) rest)]
  exact hbrace

/-! ## 3. Updates -/

namespace UpdateHead

theorem readAttached?_written {attached : Option (List Statement)}
    (hs : ∀ body ∈ attached, ShapedBody .segmented body ∧ StableBody .segmented body ∧
      nestingAll body ≤ cfg.maxDepth)
    (h : c.Sees (lineTokens (attachedLines attached) ++ rest))
    (hnone : attached = none → ∀ w ∈ nextToken rest, Keyword.whereClause.leads w = false) :
    ∃ c', readAttached? cfg c = .ok (attached, c') ∧ c'.Sees rest := by
  cases attached with
  | none =>
    refine ⟨c, ?_, h⟩
    rw [readAttached?, Cursor.Sees.eatGlued?_eq_none h (hnone rfl)]
    rfl
  | some body =>
    obtain ⟨hshaped, hstable, hdepth⟩ := hs body rfl
    rw [attachedLines, Text.lineTokens_append, Text.lineTokens_cons, Text.lineTokens_cons,
      tokens_closeLine, whereLine, tokens_keyword_brace, Text.lineTokens_nil] at h
    simp only [List.append_assoc, List.cons_append, List.nil_append] at h
    obtain ⟨heat, hs₁⟩ := Cursor.Sees.eatGlued?_name (h.of_break rfl)
    obtain ⟨hbrace, hs₂⟩ := readOpenBrace_written hs₁.sees
    obtain ⟨c', hread, hs'⟩ := readBody_written hshaped hstable hdepth hs₂.sees
    refine ⟨c', ?_, hs'.sees⟩
    rw [readAttached?, heat]
    show (readOpenBrace c.pass >>= _) = _
    rw [hbrace]
    show (readBody cfg .segmented c.pass.pass >>= _) = _
    rw [hread]
    rfl

/-- Whether DATA stands before a template is seen from its first tokens. -/
theorem skipData_written {data : Bool}
    (h : c.Sees ((if data then [Keyword.data.name] else []) ++ ['\x7b'] :: rest)) :
    c.atGlued .data = data ∧ (c.skipGlued .data).Sees (['\x7b'] :: rest) := by
  cases data with
  | false =>
    have h : c.Sees (['\x7b'] :: rest) := h
    rw [Cursor.skipGlued, h.eatGlued?_eq_none (forall_nextToken rfl (by decide) rest)]
    refine ⟨?_, h⟩
    rw [h.atGlued_eq, nextToken_of_single rfl]
    decide
  | true =>
    have h : c.Sees (Keyword.data.name :: ['\x7b'] :: rest) := h
    obtain ⟨heat, hs⟩ := h.eatGlued?_name
    rw [Cursor.skipGlued, heat]
    refine ⟨?_, hs.sees⟩
    rw [h.atGlued_eq, nextToken_of_single (single_name _).2]
    decide

/-- The check for a WHERE body passes where one follows, or an update, or where none is needed. -/
theorem lacksWhere_eq_false {data : Bool} {template : List Statement}
    {attached : Option (List Statement)} (h : c.Sees (lineTokens (attachedLines attached) ++ rest))
    (hbound : cfg.strictUpdateWhere = true → attached = none → data = false →
      (Statement.unknownsAll template).isEmpty = false →
      ∃ w ∈ nextToken rest, Keyword.insert.spells w = true ∨ Keyword.delete.spells w = true) :
    lacksWhere cfg data template c = false := by
  rw [← Bool.not_eq_true]
  intro hlacks
  simp only [lacksWhere, Bool.and_eq_true, Bool.not_eq_true'] at hlacks
  obtain ⟨⟨⟨⟨hstrict, hdata⟩, hwhere⟩, hvars⟩, hupdate⟩ := hlacks
  cases attached with
  | none =>
    obtain ⟨w, hw, hspells⟩ := hbound hstrict rfl hdata hvars
    have h : c.Sees rest := h
    rw [atUpdate, Bool.or_eq_false_iff, h.atKeyword_eq, h.atKeyword_eq, hw] at hupdate
    rcases hspells with hs | hs
    · exact absurd hupdate.1 (by simp [hs])
    · exact absurd hupdate.2 (by simp [hs])
  | some body =>
    rw [h.atGlued_eq, attachedLines, List.cons_append, Text.lineTokens_cons, whereLine,
      tokens_keyword_brace, List.cons_append, nextToken_newline] at hwhere
    have hwhere : (nextToken (Keyword.whereClause.name :: _)).any _ = false := hwhere
    rw [nextToken_of_single (single_name _).2] at hwhere
    revert hwhere
    decide

/-- An update is read behind its keyword as it was written. -/
theorem read_written {head : UpdateHead} {template : List Statement}
    {attached : Option (List Statement)} (ht : ShapedBody .whole template)
    (hstable : StableBody .whole template) (hdepth : nestingAll template ≤ cfg.maxDepth)
    (ha : ∀ body ∈ attached, ShapedBody .segmented body ∧ StableBody .segmented body ∧
      nestingAll body ≤ cfg.maxDepth)
    (h : c.Sees ((if head.data then [Keyword.data.name] else []) ++ ['\x7b'] ::
      (lineTokens (layoutAll template) ++ ['\n'] :: ['\x7d'] ::
        (lineTokens (attachedLines attached) ++ rest))))
    (hnone : attached = none → ∀ w ∈ nextToken rest, Keyword.whereClause.leads w = false)
    (hbound : cfg.strictUpdateWhere = true → attached = none → head.data = false →
      (Statement.unknownsAll template).isEmpty = false →
      ∃ w ∈ nextToken rest, Keyword.insert.spells w = true ∨ Keyword.delete.spells w = true) :
    ∃ c', read cfg head.operation c = .ok (.update head template attached, c') ∧
      c'.Sees rest := by
  obtain ⟨hdata, hs₁⟩ := skipData_written h
  obtain ⟨hbrace, hs₂⟩ := readOpenBrace_written hs₁
  obtain ⟨c₃, hread, hs₃⟩ := readBody_written ht hstable hdepth hs₂.sees
  have hlacks : lacksWhere cfg head.data template c₃ = false :=
    lacksWhere_eq_false hs₃.sees hbound
  obtain ⟨c', hattached, hs'⟩ := readAttached?_written ha hs₃.sees hnone
  refine ⟨c', ?_, hs'⟩
  rw [read, hbrace]
  show (readBody cfg .whole (c.skipGlued .data).pass >>= _) = _
  rw [hread]
  dsimp only [bind, Except.bind]
  rw [hdata, hlacks, if_neg (by decide), hattached]
  rfl

end UpdateHead

/-! ## 4. Statements -/

/-- The keyword that a statement of a query begins with. -/
def Statement.opener : Statement → Keyword
  | .update head _ _ => head.operation.keyword
  | s => match s.kind with
    | .select => .select
    | .describe => .describe
    | .construct => .construct
    | .ask => .ask
    | _ => .whereClause

/-- The draft once a statement was read. -/
def Draft.take (d : Draft) (s : Statement) : Draft :=
  match s.kind with
  | .pattern => d.add s
  | .select => d.addForm .select false s
  | .describe => d.addForm .describe true s
  | .construct => d.addForm .construct true s
  | .ask => d.addForm .ask true s
  | _ => d.addForm .update false s

/-- True of drafts to which a statement can be added: there is only one form other than updates,
and nothing follows one that ends the query. -/
def Draft.Admits (d : Draft) (s : Statement) : Prop :=
  d.complete = false ∧ (s.kind = .update → d.form = none ∨ d.form = some .update) ∧
    (s.kind ≠ .update → s.kind ≠ .pattern → d.form = none)

/-- What may follow a statement, by the tokens behind it. -/
structure Statement.FollowedBy (cfg : Config) (s : Statement) (rest : List Text) : Prop where
  ends : ∀ w ∈ nextToken rest, Modifier.Ends w
  noWhere : ∀ head template, s = .update head template none →
    ∀ w ∈ nextToken rest, Keyword.whereClause.leads w = false
  bound : cfg.strictUpdateWhere = true → s.Unbound →
    ∃ w ∈ nextToken rest, Keyword.insert.spells w = true ∨ Keyword.delete.spells w = true

namespace Draft

variable {d d' : Draft} {c' : Cursor} {k : Keyword} {s : Statement}

/-- A step reads the clause whose keyword comes next. -/
theorem step_written {ws : List Text} (hd : d.complete = false) (h : c.Sees (k.name :: ws))
    (hread : readClause cfg k d c = .ok (d', c')) : step cfg d c = .ok (some (d', c')) := by
  rw [step_of_next hd (h.next (single_name k).2).1 k.spells_name, hread]
  rfl

/-- The projection of a SELECT or DESCRIBE form is read behind its keyword. -/
theorem readProjection_written {p : Projection} (k : Keyword) (hp : p.Shaped)
    (hin : p.inBlock = false) (h : c.Sees ((lineTokens (p.opening k)).tail ++ rest)) :
    (∃ ws, c.Sees (k.name :: ws)) ∧
      ∃ c', Projection.read false c.pass = .ok ({ p with modifiers := [] }, c') ∧
        c'.Shows rest := by
  obtain ⟨ps, hne, hps, hs, hfirst⟩ := hp.projected
  rw [Projection.lineTokens_opening k hne hps (fun w hw => (hs w hw).1) hp.graph,
    if_neg (by rw [hin]; decide)] at h
  simp only [List.nil_append, List.cons_append, List.tail_cons] at h
  obtain ⟨t, -, -, -, hs'⟩ := h.step (single_name k).2
  have hsees : c.pass.Sees (p.writtenTokens ps ++ rest) := by
    rw [Projection.writtenTokens]
    simpa using hs'.sees
  obtain ⟨c', hread, hs''⟩ := Projection.read_written hp hne hps hs hfirst hsees
  refine ⟨⟨_, h⟩, c', ?_, hs''⟩
  rw [← hin]
  exact hread

/-- The head of a CONSTRUCT form is read as it was written, template and all. -/
theorem readConstruct_written {template : Text} {modifiers : List Text}
    (ht : Template template)
    (h : c.Sees ((lineTokens (Head.construct template modifiers).opening).tail ++ rest)) :
    (∃ ws, c.Sees (Keyword.construct.name :: ws)) ∧
      ∃ c', Head.readConstruct c.pass = .ok (.construct template [], c') ∧ c'.Shows rest := by
  rw [Head.lineTokens_construct, List.cons_append, List.tail_cons, List.append_assoc] at h
  have h : c.Sees (Keyword.construct.name :: (['\x7b'] :: _ ++ ['\n'] ::
    Keyword.whereClause.name :: ['\x7b'] :: _)) := h
  obtain ⟨t, -, -, -, hs₁⟩ := h.step (single_name _).2
  obtain ⟨c₂, htemplate, hs₂⟩ := Head.readTemplate_written ht hs₁.sees
  obtain ⟨c₃, hwhere, hs₃⟩ := Head.readOptionalWhere_written (hs₂.sees.of_break rfl)
  exact ⟨⟨_, h⟩, c₃, bind_eq_ok.2 ⟨_, htemplate, bind_eq_ok.2 ⟨_, hwhere, rfl⟩⟩, hs₃⟩

/-- A block is read from its keyword on as it was written. -/
theorem readClause_block {head : Head} {body : List Statement} (ht : head.Top)
    (hs : ShapedBody head.bodyStyle body) (hstable : StableBody head.bodyStyle body)
    (hdepth : nestingAll body ≤ cfg.maxDepth) (hd : d.Admits (.block head body))
    (hends : ∀ w ∈ nextToken rest, Modifier.Ends w)
    (h : c.Sees ((lineTokens head.opening).tail ++
      (lineTokens (layoutAll body) ++ lineTokens head.closing ++ rest))) :
    (∃ ws, c.Sees ((Statement.block head body).opener.name :: ws)) ∧
      ∃ c', readClause cfg (Statement.block head body).opener d c
        = .ok (d.take (.block head body), c') ∧ c'.Sees rest := by
  have hblock : ∀ c₁ : Cursor, c₁.Sees (lineTokens (layoutAll body) ++ lineTokens head.closing ++
      rest) → ∃ c', head.bare.readBlock cfg c₁ = .ok (.block head body, c') ∧ c'.Sees rest :=
    fun c₁ h₁ => ht.readBlock_written hs hstable hdepth h₁ hends
  have hform := hd.2.2
  -- It is left to read the head of the block up to the opening brace, and then its parts are read.
  cases ht with
  | pattern =>
    rw [Head.opening, Text.lineTokens_cons, whereLine, tokens_keyword_brace] at h
    have h : c.Sees (Keyword.whereClause.name :: ['\x7b'] :: _) := h
    obtain ⟨t, -, -, -, hs₁⟩ := h.step (single_name _).2
    obtain ⟨hbrace, hs₂⟩ := readOpenBrace_written hs₁.sees
    obtain ⟨c', hread, hs'⟩ := hblock _ hs₂.sees
    exact ⟨⟨_, h⟩, c', (ClauseParts.whereClause hbrace hread).readClause, hs'⟩
  | ask =>
    rw [Head.opening, Text.lineTokens_cons, tokens_keyword_brace] at h
    have h : c.Sees (Keyword.ask.name :: ['\x7b'] :: _) := h
    obtain ⟨t, -, -, -, hs₁⟩ := h.step (single_name _).2
    obtain ⟨hbrace, hs₂⟩ := Head.readOptionalWhere_brace hs₁.sees
    obtain ⟨c', hread, hs'⟩ := hblock _ hs₂.sees
    have hdataset : readDataset? c.pass = .ok (none, c.pass) := by
      rw [readDataset?, hs₁.sees.eat?_eq_none (forall_nextToken rfl (by decide) _)]
      rfl
    have hask := ClauseParts.ask (hform (by rintro ⟨⟩) (by rintro ⟨⟩)) hdataset hbrace hread
    exact ⟨⟨_, h⟩, c', hask.readClause, hs'⟩
  | @select p hin hp =>
    obtain ⟨hsees, c₁, hproj, hs₁⟩ := readProjection_written .select hp hin h
    obtain ⟨c', hread, hs'⟩ := hblock _ hs₁.sees
    have hselect := ClauseParts.select (hform (by rintro ⟨⟩) (by rintro ⟨⟩)) hproj hread
    exact ⟨hsees, c', hselect.readClause, hs'⟩
  | @describe p hin hp =>
    obtain ⟨hsees, c₁, hproj, hs₁⟩ := readProjection_written .describe hp hin h
    obtain ⟨c', hread, hs'⟩ := hblock _ hs₁.sees
    have hdescribe := ClauseParts.describe (hform (by rintro ⟨⟩) (by rintro ⟨⟩)) hproj hread
    exact ⟨hsees, c', hdescribe.readClause, hs'⟩
  | @construct template modifiers htemplate hm =>
    obtain ⟨hsees, c₁, hhead, hs₁⟩ := readConstruct_written htemplate h
    obtain ⟨c', hread, hs'⟩ := hblock _ hs₁.sees
    have hconstruct := ClauseParts.construct (hform (by rintro ⟨⟩) (by rintro ⟨⟩)) hhead hread
    exact ⟨hsees, c', hconstruct.readClause, hs'⟩

/-- An update is read from its keyword on as it was written. -/
theorem readClause_update {head : UpdateHead} {template : List Statement}
    {attached : Option (List Statement)} (ht : ShapedBody .whole template)
    (hstable : StableBody .whole template) (hdepth : nestingAll template ≤ cfg.maxDepth)
    (ha : ∀ body ∈ attached, ShapedBody .segmented body ∧ StableBody .segmented body ∧
      nestingAll body ≤ cfg.maxDepth)
    (hd : d.Admits (.update head template attached))
    (hfollow : (Statement.update head template attached).FollowedBy cfg rest)
    (h : c.Sees ((lineTokens (layout (.update head template attached))).tail ++ rest)) :
    (∃ ws, c.Sees (head.operation.keyword.name :: ws)) ∧
      ∃ c', readClause cfg head.operation.keyword d c
        = .ok (d.take (.update head template attached), c') ∧ c'.Sees rest := by
  rw [Statement.layout_update, List.cons_append, Text.lineTokens_cons, List.tail_cons,
    UpdateHead.tokens_opening, Text.lineTokens_append, Text.lineTokens_cons, tokens_closeLine] at h
  simp only [List.cons_append, List.append_assoc, List.nil_append] at h
  obtain ⟨t, -, -, -, hs₁⟩ := h.step (single_name _).2
  obtain ⟨c', hread, hs'⟩ := UpdateHead.read_written ht hstable hdepth ha hs₁.sees
    (fun hnone => hfollow.noWhere head template (by rw [hnone]))
    (fun hstrict hnone hdata hvars => hfollow.bound hstrict ⟨head, template, by rw [hnone], hdata,
      hvars⟩)
  refine ⟨⟨_, h⟩, c', ?_, hs'⟩
  have hform : d.form = none ∨ d.form = some .update := hd.2.1 rfl
  cases hop : head.operation with
  | insert =>
    rw [hop] at hread
    exact (ClauseParts.insert hform hread).readClause
  | delete =>
    rw [hop] at hread
    exact (ClauseParts.delete hform hread).readClause

/-- A statement of a query is read as it was written, if it may stand there. -/
theorem step_statement (ht : s.Top) (hstable : s.Stable) (hdepth : s.depth ≤ cfg.maxDepth)
    (hd : d.Admits s) (hfollow : s.FollowedBy cfg rest)
    (h : c.Sees ((lineTokens s.layout).tail ++ rest)) :
    ∃ c', step cfg d c = .ok (some (d.take s, c')) ∧ c'.Sees rest := by
  cases ht with
  | @block head body htop hs =>
    have hne : lineTokens head.opening ≠ [] := by
      cases htop <;> simp [Head.opening, Projection.opening]
    rw [lineTokens_layout_block, List.append_assoc,
      List.tail_append_of_ne_nil hne, List.append_assoc] at h
    obtain ⟨⟨ws, hsees⟩, c', hread, hs'⟩ :=
      readClause_block htop hs hstable hdepth hd hfollow.ends h
    exact ⟨c', step_written hd.1 hsees hread, hs'⟩
  | @update head template attached hs ha =>
    obtain ⟨hdepth₁, hdepth₂⟩ := Nat.max_le.1 hdepth
    obtain ⟨⟨ws, hsees⟩, c', hread, hs'⟩ := readClause_update hs hstable.1 hdepth₁
      (fun body hbody => ⟨ha body hbody, hstable.2 body hbody, by
        cases attached with
        | none => cases hbody
        | some b =>
          obtain rfl := Option.some.inj hbody
          exact hdepth₂⟩) hd hfollow h
    exact ⟨c', step_written hd.1 hsees hread, hs'⟩

end Draft

/-! ## 5. Declarations -/

/-- The line of a BASE or WITH declaration. -/
def iriLine (k : Keyword) (iri : Text) : Text := Text.spaced [k.name, Text.angled iri]

/-- The line of a PREFIX declaration. -/
def prefixLine (label iri : Text) : Text :=
  Text.spaced [Keyword.prefixDecl.name, label ++ [':'], Text.angled iri]

theorem tokens_iriLine (k : Keyword) {iri : Text} (h : IsIri iri) :
    Text.tokens (iriLine k iri) = [k.name, Text.angled iri] := by
  refine Text.tokens_line fun w hw => ?_
  rcases List.mem_cons.1 hw with rfl | hw
  · exact single_name k
  · exact List.mem_singleton.1 hw ▸ single_angled h

theorem single_labelColon {label : Text} (h : ∀ ch ∈ label, Text.continuesWord ch = true) :
    Single (label ++ [':']) := by
  have hall : ∀ ch ∈ label ++ [':'], Text.continuesWord ch = true :=
    List.forall_mem_append.2 ⟨h, List.forall_mem_singleton.2 (by decide)⟩
  exact ⟨.word _ (by simp) hall, Text.isBreak_of_word hall⟩

/-- The colon behind a label belongs to the token of the label if that is a word. -/
theorem tokens_prefixLine {label iri : Text} (hl : IsLabel label) (h : IsIri iri) :
    ((∀ ch ∈ label, Text.continuesWord ch = true) ∧
      Text.tokens (prefixLine label iri)
        = [Keyword.prefixDecl.name, label ++ [':'], Text.angled iri]) ∨
    (Single label ∧ label.getLast? ≠ some ':' ∧
      Text.tokens (prefixLine label iri)
        = [Keyword.prefixDecl.name, label, [':'], Text.angled iri]) := by
  by_cases hword : ∀ ch ∈ label, Text.continuesWord ch = true
  · refine .inl ⟨hword, Text.tokens_line fun w hw => ?_⟩
    rw [List.mem_cons, List.mem_cons, List.mem_singleton] at hw
    rcases hw with rfl | rfl | rfl
    · exact single_name _
    · exact single_labelColon hword
    · exact single_angled h
  · -- Any other label is a token that ends on its own, so the colon begins the next one.
    have hsingle : Single label := hl.resolve_left hword
    refine .inr ⟨hsingle, fun hlast => ?_, ?_⟩
    · exact hword (hsingle.1.word_of_getLast hlast (by decide) (by decide))
    · have hline : prefixLine label iri = Keyword.prefixDecl.name ++
          ' ' :: (label ++ ([':'] ++ ' ' :: Text.angled iri)) := by
        simp [prefixLine, Text.spaced]
      have hcolon : IsToken [':'] :=
        .word _ (by decide) (List.forall_mem_singleton.2 (by decide))
      rw [hline, Text.tokens_append (single_name _).1 fun _ ch hch => by
          obtain rfl := Option.some.inj hch
          decide,
        Text.tokens_space, Text.tokens_append hsingle.1 fun hall => absurd hall hword,
        Text.tokens_append hcolon fun _ ch hch => by
          obtain rfl := Option.some.inj hch
          decide,
        Text.tokens_space]
      have hspaced : Text.spaced [Text.angled iri] = Text.angled iri := by simp [Text.spaced]
      have hiri : Text.tokens (Text.spaced [Text.angled iri]) = [Text.angled iri] :=
        Text.tokens_line (forall_single (single_angled h))
      rw [hspaced] at hiri
      rw [hiri]

namespace Draft

variable {d : Draft}

theorem step_base (cfg : Config) {iri : Text} (hd : d.complete = false)
    (hopen : d.prologueClosed = false) (hiri : IsIri iri)
    (h : c.Sees (Text.tokens (iriLine .base iri) ++ rest)) :
    ∃ c', step cfg d c = .ok (some ({ d with base := some iri }, c')) ∧ c'.Sees rest := by
  rw [tokens_iriLine .base hiri] at h
  have h : c.Sees (Keyword.base.name :: Text.angled iri :: rest) := h
  obtain ⟨t, -, -, -, hs⟩ := h.step (single_name _).2
  obtain ⟨hread, hs'⟩ := hs.sees.requireIri
  exact ⟨_, step_written hd h (ClauseParts.base hopen hread).readClause, hs'.sees⟩

theorem step_withGraph (cfg : Config) {iri : Text} (hd : d.complete = false)
    (hiri : IsIri iri) (h : c.Sees (Text.tokens (iriLine .withGraph iri) ++ rest)) :
    ∃ c', step cfg d c = .ok (some ({ d with graph := some iri }, c')) ∧ c'.Sees rest := by
  rw [tokens_iriLine .withGraph hiri] at h
  have h : c.Sees (Keyword.withGraph.name :: Text.angled iri :: rest) := h
  obtain ⟨t, -, -, -, hs⟩ := h.step (single_name _).2
  obtain ⟨hread, hs'⟩ := hs.sees.requireIri
  exact ⟨_, step_written hd h (ClauseParts.withGraph hread).readClause, hs'.sees⟩

theorem step_prefixDecl (cfg : Config) {label iri : Text} (hd : d.complete = false)
    (hopen : d.prologueClosed = false) (hl : IsLabel label) (hiri : IsIri iri)
    (h : c.Sees (Text.tokens (prefixLine label iri) ++ rest)) :
    ∃ c', step cfg d c
      = .ok (some ({ d with prefixes := d.prefixes.insert label iri }, c')) ∧ c'.Sees rest := by
  -- Where the label is a word the colon is part of its token; otherwise it is a token of its own.
  rcases tokens_prefixLine hl hiri with ⟨hword, htokens⟩ | ⟨hsingle, hlast, htokens⟩
  · rw [htokens] at h
    have h : c.Sees (Keyword.prefixDecl.name :: ([label ++ [':'], Text.angled iri] ++ rest)) := h
    obtain ⟨t, -, -, -, hs⟩ := h.step (single_name _).2
    have hsolid : ∀ w ∈ [label ++ [':'], Text.angled iri], isBreak w = false := by
      rw [List.forall_mem_cons, List.forall_mem_singleton]
      exact ⟨(single_labelColon hword).2, (single_angled hiri).2⟩
    obtain ⟨c', hfeeds, hs'⟩ := hs.sees.feeds
    rw [filter_solid hsolid] at hfeeds
    exact ⟨c', step_written hd h
      (ClauseParts.prefixDecl hopen (readPrefix_at hfeeds)).readClause, hs'⟩
  · rw [htokens] at h
    have h : c.Sees (Keyword.prefixDecl.name :: ([label, [':'], Text.angled iri] ++ rest)) := h
    obtain ⟨t, -, -, -, hs⟩ := h.step (single_name _).2
    have hsolid : ∀ w ∈ [label, [':'], Text.angled iri], isBreak w = false := by
      rw [List.forall_mem_cons, List.forall_mem_cons, List.forall_mem_singleton]
      exact ⟨hsingle.2, rfl, (single_angled hiri).2⟩
    obtain ⟨c', hfeeds, hs'⟩ := hs.sees.feeds
    rw [filter_solid hsolid] at hfeeds
    exact ⟨c', step_written hd h
      (ClauseParts.prefixDecl hopen (readPrefix_apart hlast hfeeds)).readClause, hs'⟩

end Draft

end SparqlTree
