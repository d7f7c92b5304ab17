import SparqlTree.Proofs.Grammar.Written

/-!
# Queries that are read as they were written

A query is canonical if it is shaped as a query that was read and all its bodies are stable. The
text of a canonical query is read as that query again (`Query.parse_render`), whether it was read
from a text or put together by hand. The reader takes one step for each declaration and each
statement.
-/

namespace SparqlTree

open Text (Closed lineTokens isBreak)
open Statement (layout layoutAll)

/-! ## 1. The lines of a query -/

theorem iriLine_eq (k : Keyword) (iri : Text) :
    iriLine k iri = k.name ++ ' ' :: Text.angled iri := by
  simp [iriLine, Text.spaced]

theorem prefixLine_eq (label iri : Text) : prefixLine label iri =
    Keyword.prefixDecl.name ++ ' ' :: (label ++ ':' :: ' ' :: Text.angled iri) := by
  simp [prefixLine, Text.spaced]

namespace Query

theorem prologue_eq (q : Query) : q.prologue =
    (q.base.map (iriLine .base)).toList ++ (q.prefixes.toList.map fun p => prefixLine p.1 p.2) ++
      (q.graph.map (iriLine .withGraph)).toList := by
  have hbase : (fun iri => "BASE ".toList ++ Text.angled iri) = iriLine .base :=
    funext fun iri => (iriLine_eq .base iri).symm
  have hgraph : (fun iri => "WITH ".toList ++ Text.angled iri) = iriLine .withGraph :=
    funext fun iri => (iriLine_eq .withGraph iri).symm
  have hprefix : (fun p : Text × Text =>
      "PREFIX ".toList ++ p.1 ++ ": ".toList ++ Text.angled p.2)
        = fun p => prefixLine p.1 p.2 := by
    funext p
    rw [prefixLine_eq, List.append_assoc, List.append_assoc]
    rfl
  rw [prologue, hbase, hgraph, ← hprefix]

end Query

theorem closed_iriLine (k : Keyword) {iri : Text} (h : IsIri iri) : Closed (iriLine k iri) := by
  rw [Closed, tokens_iriLine k h]
  intro w hw
  rcases List.mem_cons.1 hw with rfl | hw
  · exact (single_name k).1
  · exact List.mem_singleton.1 hw ▸ (single_angled h).1

theorem closed_prefixLine {label iri : Text} (hl : IsLabel label) (h : IsIri iri) :
    Closed (prefixLine label iri) := by
  have hcolon : ∀ ch ∈ ([':'] : Text), Text.continuesWord ch = true :=
    List.forall_mem_singleton.2 (by decide)
  rw [Closed]
  rcases tokens_prefixLine hl h with ⟨hword, htokens⟩ | ⟨hsingle, -, htokens⟩
  · rw [htokens]
    intro w hw
    rw [List.mem_cons, List.mem_cons, List.mem_singleton] at hw
    rcases hw with rfl | rfl | rfl
    · exact (single_name _).1
    · refine .word _ (by simp) fun ch hch => ?_
      exact (List.mem_append.1 hch).elim (hword ch) (hcolon ch)
    · exact (single_angled h).1
  · rw [htokens]
    intro w hw
    rw [List.mem_cons, List.mem_cons, List.mem_cons, List.mem_singleton] at hw
    rcases hw with rfl | rfl | rfl | rfl
    · exact (single_name _).1
    · exact hsingle.1
    · exact .word _ (by simp) hcolon
    · exact (single_angled h).1

theorem Query.Shaped.closed_prologue {q : Query} (h : q.Shaped) : ∀ l ∈ q.prologue, Closed l := by
  intro l hl
  rw [Query.prologue_eq, List.mem_append, List.mem_append, Option.mem_toList, Option.mem_toList,
    Option.map_eq_some_iff, Option.map_eq_some_iff,
    List.mem_map] at hl
  rcases hl with (⟨iri, hiri, rfl⟩ | ⟨p, hp, rfl⟩) | ⟨iri, hiri, rfl⟩
  · exact closed_iriLine .base (h.base iri hiri)
  · exact closed_prefixLine (h.prefixes p hp).1 (h.prefixes p hp).2
  · exact closed_iriLine .withGraph (h.graph iri hiri)

/-- Of the lines of solution modifiers only the last can be left open. -/
theorem Modifiers.closed_dropLast {ms : List Text} (h : Modifiers ms) :
    ∀ m ∈ ms.dropLast, Closed m := by
  obtain ⟨mss, rfl, hms, hb, hscan⟩ := h
  obtain rfl | ⟨init, last, rfl⟩ := List.eq_nil_or_concat mss
  · exact fun _ h => nomatch h
  · rw [List.concat_eq_append] at hms hb hscan ⊢
    rw [List.map_append, List.map_singleton, List.dropLast_concat]
    have hne : last ≠ [] := by
      rintro rfl
      nomatch hms [] (by simp)
    rw [List.flatten_append] at hscan hb
    refine closed_of_single fun w hw => ⟨?_, hb w (List.mem_append_left _ hw)⟩
    exact hscan.forall_of_append (by simpa using hne) w hw

theorem Template.closed_opening {template : Text} (h : Template template) (ms : List Text) :
    ∀ l ∈ (Head.construct template ms).opening, Closed l := by
  intro l hl
  rw [Head.opening, h.trim_eq, List.cons_append, List.mem_cons, List.mem_append, List.mem_cons,
    List.mem_singleton] at hl
  rcases hl with rfl | hl | rfl | rfl
  · exact closed_keyword_brace .construct
  · split at hl
    · exact absurd hl List.not_mem_nil
    · rw [List.mem_singleton.1 hl]
      exact fun w hw => (h.tokens w hw).1
  · exact closed_closeLine
  · exact closed_keyword_brace .whereClause

theorem Head.Top.closed_opening {head : Head} (h : head.Top) : ∀ l ∈ head.opening, Closed l := by
  cases h with
  | pattern => exact List.forall_mem_singleton.2 (closed_keyword_brace .whereClause)
  | ask => exact List.forall_mem_singleton.2 (closed_keyword_brace .ask)
  | select _ hp => exact hp.closed_opening .select
  | describe _ hp => exact hp.closed_opening .describe
  | construct ht => exact ht.closed_opening _

theorem closed_attachedLines {attached : Option (List Statement)}
    (h : ∀ body ∈ attached, ShapedBody .segmented body) :
    ∀ l ∈ attachedLines attached, Closed l := by
  intro l hl
  cases attached with
  | none => exact absurd hl List.not_mem_nil
  | some body =>
    rw [attachedLines, List.cons_append, List.mem_cons, List.mem_append, List.mem_singleton] at hl
    rcases hl with rfl | hl | rfl
    · exact closed_keyword_brace .whereClause
    · exact closed_layoutAll (h body rfl) l hl
    · exact closed_closeLine

namespace Statement

variable {s : Statement}

/-- The lines of a statement up to its solution modifiers leave nothing open. -/
theorem Top.layout_eq (h : s.Top) :
    ∃ ls, s.layout = ls ++ s.modifiers ∧ (∀ l ∈ ls, Closed l) ∧ Modifiers s.modifiers := by
  cases h with
  | @block head body htop hs =>
    refine ⟨head.opening ++ layoutAll body ++ [closeLine], ?_, ?_, htop.modifiers⟩
    · rw [layout, htop.closing_eq, List.append_assoc _ [closeLine]]
      rfl
    · rw [List.forall_mem_append, List.forall_mem_append, List.forall_mem_singleton]
      exact ⟨⟨htop.closed_opening, closed_layoutAll hs⟩, closed_closeLine⟩
  | @update head template attached ht ha =>
    refine ⟨_, (List.append_nil _).symm, fun l hl => ?_, modifiers_nil⟩
    rw [layout_update, List.cons_append, List.mem_cons, List.mem_append, List.mem_cons] at hl
    rcases hl with rfl | hl | rfl | hl
    · rw [Closed, UpdateHead.tokens_opening]
      exact fun w hw => (UpdateHead.single_opening head w hw).1
    · exact closed_layoutAll ht l hl
    · exact closed_closeLine
    · exact closed_attachedLines ha l hl

/-- Where only the last statement can end with an open token, only the last line can be open. -/
theorem closed_dropLast_layoutAll {ss : List Statement} (htop : ∀ s ∈ ss, s.Top)
    (hclosed : ∀ s ∈ ss.dropLast, ∀ m ∈ s.modifiers, Closed m) :
    ∀ l ∈ (layoutAll ss).dropLast, Closed l := by
  induction ss with
  | nil => exact fun _ h => nomatch h
  | cons s ss ih =>
    obtain ⟨ls, hlayout, hls, hm⟩ := (htop s (by simp)).layout_eq
    intro l hl
    rw [layoutAll, List.dropLast_append] at hl
    cases ss with
    | nil =>
      have hl : l ∈ s.layout.dropLast := hl
      rw [hlayout, List.dropLast_append] at hl
      split at hl
      · exact hls l (List.dropLast_subset _ hl)
      · rcases List.mem_append.1 hl with hl | hl
        · exact hls l hl
        · exact hm.closed_dropLast l hl
    | cons t ts =>
      have hne : (layoutAll (t :: ts)).isEmpty = false := by
        rw [List.isEmpty_eq_false_iff, layoutAll]
        exact List.append_ne_nil_of_left_ne_nil (layout_ne_nil t) _
      rw [hne, if_neg (by decide), List.mem_append] at hl
      rcases hl with hl | hl
      · rw [hlayout, List.mem_append] at hl
        rcases hl with hl | hl
        · exact hls l hl
        · exact hclosed s (by simp) l hl
      · exact ih (fun u hu => htop u (List.mem_cons_of_mem _ hu))
          (fun u hu => hclosed u (by simp [hu])) l hl

end Statement

theorem TopLevel.ne_nil {form : QueryForm} {ss : List Statement} (h : TopLevel form ss) :
    ss ≠ [] := by
  cases h with
  | update _ hex =>
    obtain ⟨t, ht, -⟩ := hex
    exact List.ne_nil_of_mem ht
  | _ => simp

namespace Query

variable {q : Query}

theorem Shaped.layoutAll_ne_nil (h : q.Shaped) : layoutAll q.statements ≠ [] := by
  obtain ⟨s, ss, hss⟩ := List.exists_cons_of_ne_nil h.order.ne_nil
  rw [hss, layoutAll]
  exact List.append_ne_nil_of_left_ne_nil s.layout_ne_nil _

/-- The tokens of the text of a query are those of its lines. -/
theorem Shaped.tokens_render (h : q.Shaped) :
    ['\n'] :: Text.tokens q.render = lineTokens q.layout := by
  have hne : q.layout ≠ [] := List.append_ne_nil_of_right_ne_nil _ h.layoutAll_ne_nil
  have hclosed : ∀ l ∈ q.layout.dropLast, Closed l := by
    intro l hl
    have hall : (layoutAll q.statements).isEmpty = false :=
      List.isEmpty_eq_false_iff.2 h.layoutAll_ne_nil
    rw [layout, List.dropLast_append, hall, if_neg (by decide), List.mem_append] at hl
    rcases hl with hl | hl
    · exact h.closed_prologue l hl
    · exact Statement.closed_dropLast_layoutAll h.top h.closed l hl
  rw [← Text.tokens_newline, cons_render hne]
  have hsplit := List.dropLast_concat_getLast hne
  rw [← hsplit, Text.tokens_onNewLines hclosed]

end Query

/-! ## 2. What follows a statement -/

theorem ends_name (k : Keyword) (h : k ≠ .limit ∧ k ≠ .offset ∧ k ≠ .group ∧ k ≠ .order) :
    Modifier.Ends k.name :=
  ⟨Keyword.spells_eq_false k.spells_name h.1.symm, Keyword.spells_eq_false k.spells_name h.2.1.symm,
    Keyword.spells_eq_false k.spells_name h.2.2.1.symm,
    Keyword.spells_eq_false k.spells_name h.2.2.2.symm⟩

namespace Statement

variable {s : Statement} {cfg : Config}

/-- A statement of a query begins with its keyword. -/
theorem Top.nextToken_layout (h : s.Top) (rest : List Text) :
    nextToken (lineTokens s.layout ++ rest) = some s.opener.name := by
  apply nextToken_append
  have hline : ∀ (k : Keyword) (ls ms : List Text) (ws : List Text),
      Text.tokens (Text.spaced ls) = k.name :: ws →
      nextToken (lineTokens (Text.spaced ls :: ms)) = some k.name := by
    intro k ls ms ws hls
    rw [Text.lineTokens_cons, hls, nextToken_newline]
    exact nextToken_of_single (single_name k).2 _
  cases h with
  | @block head body htop hs =>
    cases htop with
    | pattern => exact hline .whereClause _ _ _ (tokens_keyword_brace .whereClause)
    | ask => exact hline .ask _ _ _ (tokens_keyword_brace .ask)
    | construct => exact hline .construct _ _ _ (tokens_keyword_brace .construct)
    | @select p hin hp =>
      obtain ⟨ps, hne, hps, hsingle, -⟩ := hp.projected
      have hs : ∀ w ∈ ps, Single w := fun w hw => (hsingle w hw).1
      rw [layout, Head.opening, Projection.opening, if_neg (by rw [hin]; decide),
        Projection.firstLine_eq .select hne hps hs]
      exact hline .select _ _ _ (Text.tokens_line (Projection.single_firstLine .select hs))
    | @describe p hin hp =>
      obtain ⟨ps, hne, hps, hsingle, -⟩ := hp.projected
      have hs : ∀ w ∈ ps, Single w := fun w hw => (hsingle w hw).1
      rw [layout, Head.opening, Projection.opening, if_neg (by rw [hin]; decide),
        Projection.firstLine_eq .describe hne hps hs]
      exact hline .describe _ _ _ (Text.tokens_line (Projection.single_firstLine .describe hs))
  | @update head template attached ht ha =>
    rw [layout_update]
    exact hline head.operation.keyword _ _ _ head.tokens_opening

/-- True if no update without WHERE body has a WHERE body of its own directly behind it: the two
would be read as one update. -/
def Apart : List Statement → Prop
  | [] => True
  | [_] => True
  | s :: t :: ss => ((∃ head template, s = .update head template none) → t.kind ≠ .pattern) ∧
    Apart (t :: ss)

theorem ends_opener (s : Statement) : Modifier.Ends s.opener.name := by
  cases s with
  | simple => exact ends_name .whereClause (by decide)
  | block head body =>
    cases head with
    | select p => exact ends_name .select (by decide)
    | describe p => exact ends_name .describe (by decide)
    | construct template ms => exact ends_name .construct (by decide)
    | ask => exact ends_name .ask (by decide)
    | pattern | group => exact ends_name .whereClause (by decide)
  | update head template attached =>
    obtain ⟨operation, data⟩ := head
    cases operation
    · exact ends_name .insert (by decide)
    · exact ends_name .delete (by decide)

theorem Top.not_leads_where (h : s.Top) (hk : s.kind ≠ .pattern) :
    Keyword.whereClause.leads s.opener.name = false := by
  cases h with
  | block htop =>
    cases htop with
    | pattern => exact absurd rfl hk
    | ask => exact (by decide : Keyword.whereClause.leads Keyword.ask.name = false)
    | select => exact (by decide : Keyword.whereClause.leads Keyword.select.name = false)
    | describe => exact (by decide : Keyword.whereClause.leads Keyword.describe.name = false)
    | construct => exact (by decide : Keyword.whereClause.leads Keyword.construct.name = false)
  | @update head =>
    obtain ⟨operation, data⟩ := head
    cases operation
    · exact (by decide : Keyword.whereClause.leads Keyword.insert.name = false)
    · exact (by decide : Keyword.whereClause.leads Keyword.delete.name = false)

theorem spells_opener_of_update (hk : s.kind = .update) :
    Keyword.insert.spells s.opener.name = true ∨ Keyword.delete.spells s.opener.name = true := by
  cases s with
  | simple => nomatch hk
  | block head => cases head <;> nomatch hk
  | update head =>
    obtain ⟨operation, data⟩ := head
    cases operation
    · exact .inl (Keyword.spells_name .insert)
    · exact .inr (Keyword.spells_name .delete)

/-- What follows a statement of a canonical query may follow it. -/
theorem followedBy {ss : List Statement} (htop : ∀ t ∈ ss, t.Top)
    (hapart : Apart (s :: ss)) (hbound : cfg.strictUpdateWhere = true → Bound false (s :: ss)) :
    s.FollowedBy cfg (lineTokens (layoutAll ss)) := by
  cases ss with
  | nil =>
    refine ⟨fun _ h => (nomatch h), fun _ _ _ _ h => (nomatch h), fun hstrict hs => ?_⟩
    nomatch hbound hstrict hs
  | cons t ts =>
    have ht := htop t (by simp)
    have hnext : nextToken (lineTokens (layoutAll (t :: ts))) = some t.opener.name := by
      rw [layoutAll, Text.lineTokens_append, ht.nextToken_layout]
    refine ⟨fun w hw => ?_, fun head template he w hw => ?_, fun hstrict hs => ?_⟩
    · rw [hnext] at hw
      exact Option.some.inj hw ▸ ends_opener t
    · rw [hnext] at hw
      exact Option.some.inj hw ▸ ht.not_leads_where (hapart.1 ⟨head, template, he⟩)
    · exact ⟨_, hnext, spells_opener_of_update ((hbound hstrict).1 hs)⟩

end Statement

/-! ## 3. Prefixes in order -/

namespace PrefixMap

theorem place_eq_append {label iri : Text} {ps : List (Text × Text)}
    (h : ∀ p ∈ ps, Text.before p.1 label = true) : place label iri ps = ps ++ [(label, iri)] := by
  induction ps with
  | nil => rfl
  | cons p ps ih =>
    have hp := h p (by simp)
    have hne : label ≠ p.1 := by
      rintro rfl
      rw [Text.not_before_self] at hp
      nomatch hp
    have hnot : ¬ Text.before label p.1 = true := by
      intro hlt
      have := Text.before_trans hlt hp
      rw [Text.not_before_self] at this
      nomatch this
    rw [place, if_neg hnot, if_neg hne, ih fun q hq => h q (List.mem_cons_of_mem _ hq)]
    rfl

/-- Declarations made in ascending order stand in the map in that order. -/
theorem toList_foldl_insert {m : PrefixMap} {ps : List (Text × Text)}
    (h : (m.toList ++ ps).Pairwise (Text.before ·.1 ·.1)) :
    (ps.foldl (fun m p => m.insert p.1 p.2) m).toList = m.toList ++ ps := by
  induction ps generalizing m with
  | nil => simp
  | cons p ps ih =>
    have hplace : (m.insert p.1 p.2).toList = m.toList ++ [p] :=
      place_eq_append fun q hq => (List.pairwise_append.1 h).2.2 q hq p (by simp)
    rw [List.foldl_cons, ih (by rw [hplace]; simpa using h), hplace]
    simp

theorem foldl_insert_empty (m : PrefixMap) :
    m.toList.foldl (fun (m : PrefixMap) p => m.insert p.1 p.2) ∅ = m := by
  have h : (m.toList.foldl (fun (m : PrefixMap) p => m.insert p.1 p.2) ∅).toList = m.toList :=
    toList_foldl_insert (m := ∅) m.ascending
  obtain ⟨ps, hps⟩ := m
  generalize List.foldl _ _ _ = m at h ⊢
  obtain ⟨qs, hqs⟩ := m
  cases h
  rfl

end PrefixMap

/-! ## 4. Steps of the reader -/

theorem Cursor.Sees.tail_lineTokens {c : Cursor} {ls : List Text} (h : c.Sees (lineTokens ls)) :
    c.Sees (lineTokens ls).tail := by
  cases ls with
  | nil => exact h
  | cons l ls => exact h.of_break rfl

namespace Draft

variable {cfg : Config} {d d' : Draft} {c c' : Cursor} {ls : List Text}

/-- Reads clauses from a draft on. -/
abbrev readFrom (cfg : Config) (d : Draft) (c : Cursor) : Except ParseError (Draft × Cursor) :=
  Cursor.repeatStep (step cfg) (step_productive cfg) d c

theorem readFrom_of_step (h : step cfg d c = .ok (some (d', c'))) :
    readFrom cfg d c = readFrom cfg d' c' := by
  rw [readFrom, Cursor.repeatStep_eq, h]
  rfl

theorem readFrom_of_end (h : c.Sees []) : readFrom cfg d c = .ok (d, c) := by
  have hstep : step cfg d c = .ok none := by
    unfold step
    split
    · rfl
    · rw [h.peek_eq_none rfl]
      rfl
  rw [readFrom, Cursor.repeatStep_eq, hstep]
  rfl

theorem readFrom_base (cfg : Config) {base : Option Text} (hd : d.complete = false)
    (hopen : d.prologueClosed = false) (hbase : d.base = none) (hiri : ∀ iri ∈ base, IsIri iri)
    (h : c.Sees (lineTokens ((base.map (iriLine .base)).toList ++ ls)).tail) :
    ∃ c', readFrom cfg d c = readFrom cfg { d with base } c' ∧ c'.Sees (lineTokens ls).tail ∧
      (c.Lexed → c'.Lexed) := by
  cases base with
  | none =>
    refine ⟨c, ?_, h, id⟩
    rw [← hbase]
  | some iri =>
    obtain ⟨c', hstep, hs⟩ := step_base cfg hd hopen (hiri iri rfl) h
    exact ⟨c', readFrom_of_step hstep, hs.tail_lineTokens, fun hc => lexed_of_step hc hstep⟩

theorem readFrom_prefixes (cfg : Config) {ps : List (Text × Text)} (hd : d.complete = false)
    (hopen : d.prologueClosed = false) (hps : ∀ p ∈ ps, IsLabel p.1 ∧ IsIri p.2)
    (h : c.Sees (lineTokens ((ps.map fun p => prefixLine p.1 p.2) ++ ls)).tail) :
    ∃ c', readFrom cfg d c = readFrom cfg
      { d with prefixes := ps.foldl (fun m p => m.insert p.1 p.2) d.prefixes } c' ∧
      c'.Sees (lineTokens ls).tail ∧ (c.Lexed → c'.Lexed) := by
  induction ps generalizing c d with
  | nil => exact ⟨c, rfl, h, id⟩
  | cons p ps ih =>
    obtain ⟨hl, hiri⟩ := hps p (by simp)
    obtain ⟨c₁, hstep, hs⟩ := step_prefixDecl cfg hd hopen hl hiri h
    obtain ⟨c', hread, hs', hc'⟩ := ih
      (d := { d with prefixes := d.prefixes.insert p.1 p.2 }) hd hopen
      (fun q hq => hps q (List.mem_cons_of_mem _ hq)) hs.tail_lineTokens
    exact ⟨c', (readFrom_of_step hstep).trans hread, hs', fun hc => hc' (lexed_of_step hc hstep)⟩

theorem readFrom_graph (cfg : Config) {graph : Option Text} (hd : d.complete = false)
    (hgraph : d.graph = none) (hiri : ∀ iri ∈ graph, IsIri iri)
    (h : c.Sees (lineTokens ((graph.map (iriLine .withGraph)).toList ++ ls)).tail) :
    ∃ c', readFrom cfg d c = readFrom cfg { d with graph } c' ∧ c'.Sees (lineTokens ls).tail ∧
      (c.Lexed → c'.Lexed) := by
  cases graph with
  | none =>
    refine ⟨c, ?_, h, id⟩
    rw [← hgraph]
  | some iri =>
    obtain ⟨c', hstep, hs⟩ := step_withGraph cfg hd (hiri iri rfl) h
    exact ⟨c', readFrom_of_step hstep, hs.tail_lineTokens, fun hc => lexed_of_step hc hstep⟩

/-- True if the statements can be added to the draft one after the other. -/
def AdmitsAll (d : Draft) : List Statement → Prop
  | [] => True
  | s :: ss => d.Admits s ∧ (d.take s).AdmitsAll ss

/-- Statements are read one after the other as they were written. -/
theorem readFrom_statements {ss : List Statement} (htop : ∀ s ∈ ss, s.Top)
    (hstable : ∀ s ∈ ss, s.Stable) (hdepth : ∀ s ∈ ss, s.depth ≤ cfg.maxDepth)
    (hadmits : d.AdmitsAll ss) (hapart : Statement.Apart ss)
    (hbound : cfg.strictUpdateWhere = true → Statement.Bound false ss)
    (h : c.Sees (lineTokens (layoutAll ss)).tail) :
    ∃ c', readFrom cfg d c = .ok (ss.foldl take d, c') := by
  induction ss generalizing c d with
  | nil => exact ⟨c, readFrom_of_end h⟩
  | cons s ss ih =>
    have hne : lineTokens s.layout ≠ [] := by
      obtain ⟨l, ls, hl⟩ := List.exists_cons_of_ne_nil s.layout_ne_nil
      rw [hl, Text.lineTokens_cons]
      exact List.cons_ne_nil _ _
    rw [layoutAll, Text.lineTokens_append, List.tail_append_of_ne_nil hne] at h
    obtain ⟨c₁, hstep, hs⟩ := step_statement (htop s (by simp)) (hstable s (by simp))
      (hdepth s (by simp)) hadmits.1
      (Statement.followedBy (fun t ht => htop t (List.mem_cons_of_mem _ ht)) hapart hbound) h
    have hapart' : Statement.Apart ss := by
      cases ss with
      | nil => exact trivial
      | cons t ts => exact hapart.2
    have hbound' : cfg.strictUpdateWhere = true → Statement.Bound false ss := by
      intro hstrict
      cases ss with
      | nil => exact trivial
      | cons t ts => exact (hbound hstrict).2
    obtain ⟨c', hread⟩ := ih (fun t ht => htop t (List.mem_cons_of_mem _ ht))
      (fun t ht => hstable t (List.mem_cons_of_mem _ ht))
      (fun t ht => hdepth t (List.mem_cons_of_mem _ ht)) hadmits.2 hapart' hbound'
      hs.tail_lineTokens
    exact ⟨c', (readFrom_of_step hstep).trans hread⟩

theorem take_eq (d : Draft) (s : Statement) : (d.take s).base = d.base ∧
    (d.take s).prefixes = d.prefixes ∧ (d.take s).graph = d.graph ∧
    (d.take s).statements = d.statements ++ [s] := by
  rw [take]
  split <;> exact ⟨rfl, rfl, rfl, rfl⟩

theorem foldl_take_eq (d : Draft) (ss : List Statement) : (ss.foldl take d).base = d.base ∧
    (ss.foldl take d).prefixes = d.prefixes ∧ (ss.foldl take d).graph = d.graph ∧
    (ss.foldl take d).statements = d.statements ++ ss := by
  induction ss generalizing d with
  | nil => simp
  | cons s ss ih =>
    obtain ⟨h₁, h₂, h₃, h₄⟩ := d.take_eq s
    rw [List.foldl_cons]
    obtain ⟨i₁, i₂, i₃, i₄⟩ := ih (d.take s)
    exact ⟨i₁.trans h₁, i₂.trans h₂, i₃.trans h₃, by rw [i₄, h₄, List.append_assoc]; rfl⟩

theorem admitsAll_append {ss ts : List Statement} :
    d.AdmitsAll (ss ++ ts) ↔ d.AdmitsAll ss ∧ (ss.foldl take d).AdmitsAll ts := by
  induction ss generalizing d with
  | nil => simp [AdmitsAll]
  | cons s ss ih => simp [AdmitsAll, ih, and_assoc]

/-- WHERE bodies can be added to a draft at any time and keep its form. -/
theorem admitsAll_patterns {ss : List Statement} (hss : ∀ s ∈ ss, s.kind = .pattern)
    (hd : d.complete = false) : d.AdmitsAll ss ∧ (ss.foldl take d).form = d.form ∧
      (ss.foldl take d).complete = false := by
  induction ss generalizing d with
  | nil => exact ⟨trivial, rfl, hd⟩
  | cons s ss ih =>
    have hs := hss s (by simp)
    have htake : d.take s = d.add s := by rw [take, hs]
    obtain ⟨i₁, i₂, i₃⟩ := ih (d := d.add s) (fun t ht => hss t (List.mem_cons_of_mem _ ht)) hd
    rw [AdmitsAll, List.foldl_cons, htake]
    refine ⟨⟨⟨hd, fun h => ?_, fun _ h => absurd hs h⟩, i₁⟩, i₂, i₃⟩
    rw [hs] at h
    nomatch h

/-- Behind WHERE bodies the statement that gives the query its form can be added. -/
theorem admitsAll_form {before : List Statement} {s : Statement}
    (hbefore : ∀ t ∈ before, t.kind = .pattern) (hd : d.complete = false) (hform : d.form = none)
    (hs : s.kind ≠ .update) : d.AdmitsAll (before ++ [s]) := by
  obtain ⟨h₁, h₂, h₃⟩ := admitsAll_patterns hbefore hd
  exact admitsAll_append.2 ⟨h₁, ⟨h₃, fun h => absurd h hs, fun _ _ => h₂.trans hform⟩, trivial⟩

theorem admitsAll_updates {ss : List Statement}
    (hss : ∀ s ∈ ss, s.kind = .pattern ∨ s.kind = .update) (hd : d.complete = false)
    (hform : d.form = none ∨ d.form = some .update) : d.AdmitsAll ss ∧
      ((∃ s ∈ ss, s.kind = .update) ∨ d.form = some .update →
        (ss.foldl take d).form = some .update) := by
  induction ss generalizing d with
  | nil => exact ⟨trivial, by simp⟩
  | cons s ss ih =>
    have hss' := fun t ht => hss t (List.mem_cons_of_mem s ht)
    rw [AdmitsAll, List.foldl_cons]
    rcases hss s (by simp) with hs | hs
    · have htake : d.take s = d.add s := by rw [take, hs]
      rw [htake]
      obtain ⟨i₁, i₂⟩ := ih (d := d.add s) hss' hd hform
      refine ⟨⟨⟨hd, fun _ => hform, fun _ h => absurd hs h⟩, i₁⟩, fun h => i₂ ?_⟩
      rcases h with ⟨t, ht, hk⟩ | h
      · rcases List.mem_cons.1 ht with rfl | ht
        · rw [hs] at hk
          nomatch hk
        · exact .inl ⟨t, ht, hk⟩
      · exact .inr h
    · have htake : d.take s = d.addForm .update false s := by rw [take, hs]
      rw [htake]
      obtain ⟨i₁, i₂⟩ := ih (d := d.addForm .update false s) hss' rfl (.inr rfl)
      exact ⟨⟨⟨hd, fun _ => hform, fun h => absurd hs h⟩, i₁⟩, fun _ => i₂ (.inr rfl)⟩

/-- Statements in the order that a form demands can be added to a new draft and give it the
form. -/
theorem admitsAll_of_topLevel {form : QueryForm} {ss : List Statement} (h : TopLevel form ss)
    (hd : d.complete = false) (hform : d.form = none) :
    d.AdmitsAll ss ∧ (ss.foldl take d).form = some form := by
  cases h with
  | @select before after s hb hs =>
    have hb₁ := fun t ht => hb t (List.mem_append_left after ht)
    have hone := admitsAll_form hb₁ hd hform (s := s) (by rw [hs]; decide)
    obtain ⟨h₁, h₂, h₃⟩ := admitsAll_patterns hb₁ hd
    have htake : (before ++ [s]).foldl take d = (before.foldl take d).addForm .select false s := by
      rw [List.foldl_append]
      show (before.foldl take d).take s = _
      rw [take, hs]
    obtain ⟨i₁, i₂, -⟩ := admitsAll_patterns (d := (before.foldl take d).addForm .select false s)
      (fun t ht => hb t (List.mem_append_right before ht)) rfl
    have happend : before ++ s :: after = (before ++ [s]) ++ after := by simp
    rw [happend, admitsAll_append, List.foldl_append (l := before ++ [s]), htake]
    exact ⟨⟨hone, i₁⟩, i₂⟩
  | describe hb hs | construct hb hs | ask hb hs =>
    refine ⟨admitsAll_form hb hd hform (by rw [hs]; decide), ?_⟩
    rw [List.foldl_append]
    show (Draft.take _ _).form = _
    rw [take, hs]
    rfl
  | update hall hex =>
    obtain ⟨h₁, h₂⟩ := admitsAll_updates hall hd (.inl hform)
    exact ⟨h₁, h₂ (.inl hex)⟩

end Draft

/-! ## 5. Canonical queries -/

namespace Query

/-- True of queries that read as what they are. -/
def Stable (q : Query) : Prop := ∀ s ∈ q.statements, s.Stable

/-- A query as it is read from its own text: shaped and stable, with no WHERE body of its own behind
an update that has none, with blocks no deeper than may be read, and under strict checking with a
WHERE body wherever one is needed. -/
structure Canonical (cfg : Config) (q : Query) : Prop where
  shaped : q.Shaped
  stable : q.Stable
  apart : Statement.Apart q.statements
  depth : ∀ s ∈ q.statements, s.depth ≤ cfg.maxDepth
  bound : cfg.strictUpdateWhere = true → Statement.Bound false q.statements

variable {cfg : Config} {q : Query}

/-- The draft of a query whose declarations were read. -/
def declared (q : Query) : Draft := { base := q.base, prefixes := q.prefixes, graph := q.graph }

/-- The declarations of a shaped query are read from its text as they were written. -/
theorem Shaped.read_declarations (cfg : Config) (h : q.Shaped) :
    ∃ c, Draft.read cfg (cursor cfg q.render) = Draft.readFrom cfg q.declared c ∧
      c.Sees (lineTokens (layoutAll q.statements)).tail ∧ c.Lexed := by
  have hsees : (cursor cfg q.render).Sees (lineTokens q.layout).tail := by
    rw [← h.tokens_render, List.tail_cons]
    exact Cursor.Shows.sees (Cursor.Shows.of_texts fun _ ht => Text.kind_tokenize ht)
  rw [layout, prologue_eq, List.append_assoc, List.append_assoc] at hsees
  obtain ⟨c₁, h₁, hs₁, hc₁⟩ := Draft.readFrom_base cfg (d := {}) rfl rfl rfl h.base hsees
  obtain ⟨c₂, h₂, hs₂, hc₂⟩ := Draft.readFrom_prefixes cfg (d := { base := q.base })
    rfl rfl h.prefixes hs₁
  rw [PrefixMap.foldl_insert_empty] at h₂
  obtain ⟨c₃, h₃, hs₃, hc₃⟩ := Draft.readFrom_graph cfg
    (d := { base := q.base, prefixes := q.prefixes }) rfl rfl h.graph hs₂
  exact ⟨c₃, h₁.trans (h₂.trans h₃), hs₃, hc₃ (hc₂ (hc₁ (lexed_cursor cfg q.render)))⟩

/-- The clauses of a canonical query are read as the draft of that query. -/
theorem Canonical.read_written (h : q.Canonical cfg) :
    ∃ c, Draft.read cfg (cursor cfg q.render)
      = .ok (q.statements.foldl Draft.take q.declared, c) := by
  obtain ⟨c, hread, hs, -⟩ := h.shaped.read_declarations cfg
  obtain ⟨hadmits, -⟩ := Draft.admitsAll_of_topLevel (d := q.declared) h.shaped.order rfl rfl
  obtain ⟨c', hread'⟩ := Draft.readFrom_statements h.shaped.top h.stable h.depth hadmits
    h.apart h.bound hs
  exact ⟨c', hread.trans hread'⟩

/-- The draft of a query becomes that query. -/
theorem Shaped.query?_draft (h : q.Shaped) (text : Text) :
    (q.statements.foldl Draft.take q.declared).query? text = some { q with source := text } := by
  obtain ⟨-, hform⟩ := Draft.admitsAll_of_topLevel (d := q.declared) h.order rfl rfl
  obtain ⟨hbase, hprefixes, hgraph, hstatements⟩ := Draft.foldl_take_eq q.declared q.statements
  rw [Draft.query?, hform, hbase, hprefixes, hgraph, hstatements]
  rfl

/-- The text of a canonical query is read as that query. -/
theorem parse_render (h : q.Canonical cfg) :
    parse cfg q.render = .ok { q with source := q.render } := by
  obtain ⟨c, hread⟩ := h.read_written
  exact parse_of_read hread (h.shaped.query?_draft q.render)

theorem parse_render_select :
    let q : Query :=
      { prefixes := (∅ : PrefixMap).insert "ex".toList "http://e/".toList
        form := .select
        statements := [.block (.select { quantifier := some .distinct
                                         projected := "?s".toList
                                         modifiers := ["LIMIT 5".toList] })
          [.simple "?s ex:p ?o .\n ?o a ?t".toList,
            .block (.group (some "http://g".toList) false)
              [.simple "?t ?p ?r .".toList, .simple "?r ?p ?u".toList]]] }
    q.Canonical {} ∧ parse {} q.render = .ok { q with source := q.render } := by
  intro q
  -- All texts in the tree are words, with a line break in one of them.
  have htext : ∀ t ∈ ["?s ex:p ?o .\n ?o a ?t".toList, "?t ?p ?r .".toList, "?r ?p ?u".toList],
      Text.Fragment t := by
    intro t ht
    simp only [List.mem_cons, List.not_mem_nil, or_false] at ht
    rcases ht with rfl | rfl | rfl <;>
      exact Text.fragment_of_words (by decide) (by decide +kernel) (by decide +kernel)
  have hgroup : ShapedBody .segmented [.simple "?t ?p ?r .".toList, .simple "?r ?p ?u".toList] := by
    refine .simple ⟨htext _ (by simp), fun _ => ?_, fun _ _ _ => ⟨rfl, by decide⟩⟩
      (.simple ⟨htext _ (by simp), fun _ => ?_, fun _ _ h => nomatch h⟩ .nil)
    · exact ⟨["?t".toList, "?p".toList, "?r".toList], [['.']], by decide +kernel, .inr rfl,
        by decide, by decide⟩
    · exact ⟨["?r".toList, "?p".toList, "?u".toList], [], by decide +kernel, .inl rfl,
        by decide, by decide⟩
  have hbody : ShapedBody .whole [.simple "?s ex:p ?o .\n ?o a ?t".toList,
      .block (.group (some "http://g".toList) false)
        [.simple "?t ?p ?r .".toList, .simple "?r ?p ?u".toList]] := by
    refine .simple ⟨htext _ (by simp), fun h => (nomatch h), fun _ _ h => nomatch h⟩
      (.block (.group (fun iri h => ?_) fun _ => rfl) hgroup .nil)
    obtain rfl := Option.some.inj h
    unfold IsIri
    decide
  have hprojection : Projection.Shaped { quantifier := some .distinct
                                         projected := "?s".toList
                                         modifiers := ["LIMIT 5".toList] } := by
    refine ⟨⟨["?s".toList], by decide, by decide, fun w hw => ?_, fun h => (nomatch h)⟩,
      fun _ h => (nomatch h), fun h => (nomatch h),
      [["LIMIT".toList, "5".toList]], by decide, fun ms hms => ?_, by decide,
      .of_forall fun w hw => ?_⟩
    · obtain rfl := List.mem_singleton.1 hw
      have hword : Text.IsToken "?s".toList := .word _ (by decide) (List.all_eq_true.1 (by decide))
      exact ⟨⟨hword, by decide⟩, by unfold Projected; decide⟩
    · rw [List.mem_singleton.1 hms]
      exact .limit (by decide)
    · have hword : ∀ w ∈ ["LIMIT".toList, "5".toList], w ≠ [] ∧
          w.all Text.continuesWord = true := by decide
      exact .word w (hword w hw).1 (List.all_eq_true.1 (hword w hw).2)
  have h : q.Canonical {} := by
    refine ⟨⟨fun _ h => (nomatch h), fun p hp => ?_, fun _ h => (nomatch h),
      @TopLevel.select [] [] _ (fun _ h => nomatch h) rfl, fun s hs => ?_,
      fun _ h => nomatch h⟩, fun s hs => ?_, trivial, by decide, fun _ h => ?_⟩
    · rw [List.mem_singleton.1 hp]
      exact ⟨.inl (List.all_eq_true.1 (by decide)), by unfold IsIri; decide⟩
    · rw [List.mem_singleton.1 hs]
      exact .block (.select rfl hprojection) hbody
    · rw [List.mem_singleton.1 hs]
      have hwords : ∀ t ∈ ["?s ex:p ?o .\n ?o a ?t".toList, "?t ?p ?r .".toList,
          "?r ?p ?u".toList], (∀ w ∈ Text.tokens t, Keyword.graph.leads w = false ∧
            Keyword.optional.leads w = false) ∧ t.head? ≠ some '.' := by
        decide +kernel
      have hstable : ∀ t ∈ ["?s ex:p ?o .\n ?o a ?t".toList, "?t ?p ?r .".toList,
          "?r ?p ?u".toList], ∀ style ss, StableAt style (.simple t) ss :=
        fun t ht _ _ => ⟨(hwords t ht).1, fun _ => (hwords t ht).2⟩
      exact .simple (hstable _ (by simp) _ _) (.block (fun h => nomatch h)
        (.simple (hstable _ (by simp) _ _) (.simple (hstable _ (by simp) _ _) .nil)) .nil)
    · obtain ⟨_, _, he, -⟩ := h
      nomatch he
  exact ⟨h, parse_render h⟩

end Query

end SparqlTree
