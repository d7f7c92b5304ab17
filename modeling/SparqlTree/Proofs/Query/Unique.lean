import SparqlTree.Proofs.Query.Canonical

/-!
# The tokens of statements determine them

Two shaped bodies that are written in the same tokens are the same body (`ShapedBody.unique`), also
if they are not read again as what they are, and the same holds of the statements of a query
(`Statement.layoutAll_injective`). Where a text ends is seen from the line break and the brace or
keyword behind it. The parts of heads are what the reader makes of their tokens.
-/

namespace SparqlTree

open Text (isBreak IsToken Fragment lineTokens)
open Statement (layout layoutAll lineTokens_layoutAll_simple lineTokens_layout_block)

/-! ## 1. Lines and braces -/

/-- There is a cursor before any tokens. -/
theorem Cursor.exists_shows (ws : List Text) : ∃ c : Cursor, c.Shows ws :=
  ⟨start (ws.map fun w => ⟨TokenKind.classify w, w, default⟩) 0, List.map_map⟩

/-- Tokens without a brace that go up to the end of a line are not those of a line with that
brace. -/
theorem line_ne {ts ks us vs : List Text} {b : Text} (hb : isBreak b = false)
    (ht : ∀ t ∈ ts, t ≠ b) (hk : ∀ k ∈ ks, isBreak k = false) :
    ts ++ ['\n'] :: us ≠ ks ++ b :: vs := by
  induction ts generalizing ks with
  | nil =>
    cases ks with
    | nil =>
      intro he
      obtain ⟨rfl, -⟩ := List.cons_eq_cons.1 he
      nomatch hb
    | cons k ks =>
      intro he
      obtain ⟨rfl, -⟩ := List.cons_eq_cons.1 he
      nomatch hk _ List.mem_cons_self
  | cons t ts ih =>
    cases ks with
    | nil =>
      intro he
      exact ht t (by simp) (List.cons_eq_cons.1 he).1
    | cons k ks =>
      intro he
      exact ih (fun u hu => ht u (List.mem_cons_of_mem _ hu))
        (fun j hj => hk j (List.mem_cons_of_mem _ hj)) (List.cons_eq_cons.1 he).2

/-- True of tokens other than braces. -/
def noBrace (w : Text) : Bool := w != ['\x7b'] && w != ['\x7d']

theorem noBrace_iff {w : Text} : noBrace w = true ↔ w ≠ ['\x7b'] ∧ w ≠ ['\x7d'] := by
  rw [noBrace, Bool.and_eq_true, bne_iff_ne, bne_iff_ne]

theorem noBrace_name (k : Keyword) : noBrace k.name = true := by cases k <;> decide

theorem noBrace_angled (iri : Text) : noBrace (Text.angled iri) = true :=
  noBrace_iff.2 ⟨fun h => (nomatch (List.cons_eq_cons.1 h).1), fun h =>
    nomatch (List.cons_eq_cons.1 h).1⟩

/-- The token before the first brace. -/
def beforeBrace (ws : List Text) : Option Text := (ws.takeWhile noBrace).getLast?

theorem beforeBrace_append {us ws : List Text} {v : Text} (hu : ∀ u ∈ us, noBrace u = true)
    (h : beforeBrace ws = some v) : beforeBrace (us ++ ws) = some v := by
  have hws : (ws.takeWhile noBrace).getLast? = some v := h
  rw [beforeBrace, List.takeWhile_append_of_pos hu, List.getLast?_append, hws]
  rfl

theorem beforeBrace_eq {us : List Text} {b : Text} (ws : List Text)
    (hu : ∀ u ∈ us, noBrace u = true) (hb : noBrace b = false) :
    beforeBrace (us ++ b :: ws) = us.getLast? := by
  rw [beforeBrace, List.takeWhile_append_of_pos hu,
    List.takeWhile_cons_of_neg (by rw [hb]; decide), List.append_nil]

/-- A body and what closes it and its block. -/
def bodyTokens (body : List Statement) (rest : List Text) : List Text :=
  lineTokens (layoutAll body) ++ ['\n'] :: ['\x7d'] :: rest

theorem bodyTokens_nil (rest : List Text) : bodyTokens [] rest = ['\n'] :: ['\x7d'] :: rest := rfl

theorem bodyTokens_simple (t : Text) (ss : List Statement) (rest : List Text) :
    bodyTokens (.simple t :: ss) rest = ['\n'] :: (Text.tokens t ++ bodyTokens ss rest) := by
  rw [bodyTokens, lineTokens_layoutAll_simple, List.cons_append, List.append_assoc, bodyTokens]

theorem lineTokens_block (head : Head) (inner : List Statement) (rest : List Text) :
    lineTokens (layout (.block head inner)) ++ rest =
      lineTokens head.opening ++ bodyTokens inner (lineTokens head.closing.tail ++ rest) := by
  rw [lineTokens_layout_block, head.closing_eq, Text.lineTokens_cons, tokens_closeLine, bodyTokens]
  simp

theorem bodyTokens_block (head : Head) (inner ss : List Statement) (rest : List Text) :
    bodyTokens (.block head inner :: ss) rest = lineTokens head.opening ++
      bodyTokens inner (lineTokens head.closing.tail ++ bodyTokens ss rest) := by
  rw [bodyTokens, layoutAll, Text.lineTokens_append, List.append_assoc, ← bodyTokens,
    lineTokens_block]

/-- A body begins on a new line. -/
theorem exists_bodyTokens (body : List Statement) (rest : List Text) :
    ∃ ws, bodyTokens body rest = ['\n'] :: ws := by
  rw [bodyTokens]
  cases layoutAll body with
  | nil => exact ⟨_, rfl⟩
  | cons l ls => exact ⟨_, by rw [Text.lineTokens_cons, List.cons_append]⟩

/-- The first line of a nested block ends with a brace. -/
theorem Head.Nested.exists_opening {head : Head} (h : head.Nested) :
    ∃ ks ws, lineTokens head.opening = ['\n'] :: (ks ++ ['\x7b'] :: ws) ∧
      ∀ k ∈ ks, isBreak k = false ∧ noBrace k = true ∧ k ≠ Keyword.whereClause.name := by
  have hangled : ∀ graph, Text.angled graph ≠ Keyword.whereClause.name := fun graph h =>
    absurd (List.cons_eq_cons.1 (h.trans Keyword.names_in_lines.1)).1 (by decide)
  cases h with
  | @group graph optional hiri hno =>
    cases graph with
    | none =>
      cases optional with
      | false =>
        refine ⟨[], [], ?_, fun _ h => nomatch h⟩
        rw [opening, Text.lineTokens_cons, tokens_openBrace]
        rfl
      | true =>
        refine ⟨[Keyword.optional.name], [], ?_, fun k hk => ?_⟩
        · rw [opening, Text.lineTokens_cons, optionalLine, tokens_keyword_brace]
          rfl
        · rw [List.mem_singleton.1 hk]
          exact ⟨(single_name _).2, noBrace_name _, by decide⟩
    | some graph =>
      obtain rfl := hno rfl
      refine ⟨[Keyword.graph.name, Text.angled graph], [], ?_, fun k hk => ?_⟩
      · rw [opening, Text.lineTokens_cons, tokens_graphLine (hiri graph rfl)]
        rfl
      · rw [List.mem_cons, List.mem_singleton] at hk
        rcases hk with rfl | rfl
        · exact ⟨(single_name _).2, noBrace_name _, by decide⟩
        · exact ⟨(single_angled (hiri graph rfl)).2, noBrace_angled graph, hangled graph⟩
  | @select p hin =>
    rw [opening, Projection.opening, if_pos hin, List.cons_append, List.cons_append,
      Text.lineTokens_cons, tokens_openBrace]
    exact ⟨[], _, rfl, fun _ h => nomatch h⟩

/-- The first line of a block in a body. -/
theorem bodyTokens_block_eq {head : Head} (inner ss : List Statement) (rest : List Text)
    (h : head.Nested) : ∃ ks ws, bodyTokens (.block head inner :: ss) rest
        = ['\n'] :: (ks ++ ['\x7b'] :: ws) ∧
      ∀ k ∈ ks, isBreak k = false ∧ noBrace k = true ∧ k ≠ Keyword.whereClause.name := by
  obtain ⟨ks, ws, hopen, hks⟩ := h.exists_opening
  refine ⟨ks, ws ++ bodyTokens inner (lineTokens head.closing.tail ++ bodyTokens ss rest), ?_, hks⟩
  rw [bodyTokens_block, hopen, List.cons_append, List.append_assoc, List.cons_append]

/-! ## 2. Texts -/

variable {style : BodyStyle} {ss ts us : List Statement}

/-- A text that ends with a full stop behind a blank has a token before it. -/
theorem Text.Fragment.exists_stop {u : Text} (hu : Fragment u) (hsuffix : [' ', '.'] <:+ u) :
    ∃ x init, Text.tokens u = x :: init ++ [['.']] := by
  obtain ⟨init, hinit⟩ := List.getLast?_eq_some_iff.1 (hu.getLast_tokens_of_suffix hsuffix)
  cases init with
  | nil =>
    have hone := hu.joined_eq
    rw [hinit] at hone
    rw [← hone] at hsuffix
    exact absurd hsuffix.length_le (by decide)
  | cons x init => exact ⟨x, init, hinit⟩

/-- In a segment no token stands behind a full stop, but for one at its beginning. -/
theorem Segment.tokens_ne {t x b : Text} {init bs : List Text} (h : Segment t) :
    Text.tokens t ≠ x :: init ++ ['.'] :: b :: bs := by
  intro htokens
  obtain ⟨xs, ds, hsplit, hds, -, hno⟩ := h
  rw [htokens] at hsplit
  have hmem : ['.'] ∈ xs.tail := by
    rcases hds with rfl | rfl
    · rw [List.append_nil] at hsplit
      rw [← hsplit]
      simp
    · -- The full stop that may end the segment is another one, since this is not the last token.
      obtain ⟨bs', v, hbs⟩ : ∃ bs' v, b :: bs = bs' ++ [v] :=
        ⟨_, _, (List.dropLast_concat_getLast (List.cons_ne_nil _ _)).symm⟩
      rw [hbs, ← List.cons_append, ← List.append_assoc] at hsplit
      obtain ⟨hxs, -⟩ := List.append_inj' hsplit rfl
      rw [← hxs]
      simp
  exact hno _ hmem rfl

/-- A text does not go on over the end of the text before it. -/
theorem ShapedBody.text_end {t u : Text} {as rest ws : List Text} (ht : Fragment t)
    (hu : Fragment u) (hseg : style = .segmented → Segment t)
    (h : ShapedBody style (.simple u :: us))
    (htokens : Text.tokens t = Text.tokens u ++ as)
    (hrest : bodyTokens us rest = as ++ ['\n'] :: ws) : as = [] := by
  by_cases has : as = []
  · exact has
  obtain ⟨a, bs, rfl⟩ := List.exists_cons_of_ne_nil has
  obtain ⟨vs, hvs⟩ := exists_bodyTokens us rest
  have hnewline : a = ['\n'] := (List.cons_eq_cons.1 (hvs.symm.trans hrest)).1.symm
  subst hnewline
  have hplain : ∀ b ∈ bs, noBrace b = true := fun b hb =>
    noBrace_iff.2 (ht.plain b (by rw [htokens]; simp [hb])).2
  have hsame : vs = bs ++ ['\n'] :: ws := (List.cons_eq_cons.1 (hvs.symm.trans hrest)).2
  cases h with
  | simple hs hss =>
    cases hss with
    | nil =>
      -- Behind the last text the body is closed.
      have hclose : vs = [] ++ ['\x7d'] :: rest := (List.cons_eq_cons.1 hvs).2.symm
      exact absurd (hsame.symm.trans hclose) (line_ne rfl
        (fun b hb => (noBrace_iff.1 (hplain b hb)).2) fun _ h => nomatch h)
    | @block _ head inner ss hs' _ _ =>
      obtain ⟨ks, xs, hopen, hks⟩ := bodyTokens_block_eq inner ss rest hs'
      have hopen' := (List.cons_eq_cons.1 (hvs.symm.trans hopen)).2
      exact absurd (hsame.symm.trans hopen') (line_ne rfl
        (fun b hb => (noBrace_iff.1 (hplain b hb)).1) fun k hk => (hks k hk).1)
    | @simple _ v ss _ _ =>
      -- Before another text the text ends with a full stop, behind which no text goes on.
      obtain ⟨hstyle, hsuffix⟩ := hs.2.2 v ss rfl
      obtain ⟨x, init, hinit⟩ := hu.exists_stop hsuffix
      rw [hinit, List.append_assoc] at htokens
      exact absurd htokens (hseg hstyle).tokens_ne

/-- The first texts of two bodies in the same tokens are the same. -/
theorem ShapedBody.text_unique {t u : Text} {r r' : List Text}
    (ht : ShapedBody style (.simple t :: ts)) (hu : ShapedBody style (.simple u :: us))
    (he : Text.tokens t ++ bodyTokens ts r = Text.tokens u ++ bodyTokens us r') :
    t = u ∧ bodyTokens ts r = bodyTokens us r' := by
  have htexts : Fragment t ∧ (style = .segmented → Segment t) := by
    cases ht with
    | simple hs _ => exact ⟨hs.1, hs.2.1⟩
  have hutexts : Fragment u ∧ (style = .segmented → Segment u) := by
    cases hu with
    | simple hs _ => exact ⟨hs.1, hs.2.1⟩
  obtain ⟨ws, hws⟩ := exists_bodyTokens ts r
  obtain ⟨ws', hws'⟩ := exists_bodyTokens us r'
  have htokens : Text.tokens t = Text.tokens u := by
    rcases List.append_eq_append_iff.1 he with ⟨as, h₁, h₂⟩ | ⟨as, h₁, h₂⟩
    · have hnil := ShapedBody.text_end hutexts.1 htexts.1 hutexts.2 ht h₁ (hws' ▸ h₂)
      rw [h₁, hnil, List.append_nil]
    · have hnil := ShapedBody.text_end htexts.1 hutexts.1 htexts.2 hu h₁ (hws ▸ h₂)
      rw [h₁, hnil, List.append_nil]
  refine ⟨?_, ?_⟩
  · rw [← htexts.1.written, ← hutexts.1.written, htokens]
  · rw [htokens] at he
    exact List.append_cancel_left he

/-! ## 3. Bodies -/

theorem Text.Fragment.bodyTokens_ne {t : Text} {rest rest' : List Text} (h : Fragment t) :
    bodyTokens (.simple t :: ss) rest ≠ bodyTokens [] rest' := by
  intro he
  obtain ⟨w, ws, hw⟩ := List.exists_cons_of_ne_nil h.tokens_ne_nil
  rw [bodyTokens_simple, bodyTokens_nil, hw, List.cons_append] at he
  exact (h.plain w (by simp [hw])).2.2 (List.cons_eq_cons.1 (List.cons_eq_cons.1 he).2).1

theorem Head.Nested.bodyTokens_ne {head : Head} {inner : List Statement} {rest rest' : List Text}
    (h : head.Nested) : bodyTokens (.block head inner :: ss) rest ≠ bodyTokens [] rest' := by
  intro he
  obtain ⟨ks, ws, hopen, hks⟩ := bodyTokens_block_eq inner ss rest h
  have he := (List.cons_eq_cons.1 (hopen.symm.trans he)).2
  cases ks with
  | nil => exact absurd (List.cons_eq_cons.1 he).1 (by decide)
  | cons k ks =>
    obtain ⟨rfl, -⟩ := List.cons_eq_cons.1 he
    exact absurd (hks ['\x7d'] (by simp)).2.1 (by decide)

theorem Head.Nested.bodyTokens_ne_simple {head : Head} {inner : List Statement} {t : Text}
    {rest rest' : List Text} (h : head.Nested) (ht : Fragment t) :
    bodyTokens (.block head inner :: ss) rest ≠ bodyTokens (.simple t :: ts) rest' := by
  intro he
  obtain ⟨ks, ws, hopen, hks⟩ := bodyTokens_block_eq inner ss rest h
  obtain ⟨vs, hvs⟩ := exists_bodyTokens ts rest'
  rw [hopen, bodyTokens_simple, hvs] at he
  exact line_ne rfl (fun w hw => (ht.plain w hw).2.1) (fun k hk => (hks k hk).1)
    (List.cons_eq_cons.1 he).2.symm

/-- The first brace in a body, or behind it, does not stand behind WHERE. -/
theorem ShapedBody.beforeBrace {body : List Statement} (h : ShapedBody style body)
    (rest : List Text) :
    ∃ v, SparqlTree.beforeBrace (bodyTokens body rest) = some v ∧
      v ≠ Keyword.whereClause.name := by
  induction h generalizing rest with
  | nil => exact ⟨['\n'], rfl, by decide⟩
  | @simple style t ss hs _ ih =>
    obtain ⟨v, hv, hne⟩ := ih rest
    rw [bodyTokens_simple, ← List.cons_append]
    refine ⟨v, beforeBrace_append (fun u hu => ?_) hv, hne⟩
    rcases List.mem_cons.1 hu with rfl | hu
    · rfl
    · exact noBrace_iff.2 (hs.1.plain u hu).2
  | @block style head inner ss hs _ _ _ _ =>
    obtain ⟨ks, xs, he, hks⟩ := bodyTokens_block_eq inner ss rest hs
    have hline : ∀ u ∈ ['\n'] :: ks, noBrace u = true := by
      intro u hu
      rcases List.mem_cons.1 hu with rfl | hu
      · rfl
      · exact (hks u hu).2.1
    obtain ⟨init, v, hlast⟩ : ∃ init v, ['\n'] :: ks = init ++ [v] :=
      ⟨_, _, (List.dropLast_concat_getLast (List.cons_ne_nil _ _)).symm⟩
    refine ⟨v, ?_, ?_⟩
    · rw [he, ← List.cons_append, beforeBrace_eq xs hline rfl, hlast, List.getLast?_concat]
    · have hmem : v ∈ ['\n'] :: ks := by simp [hlast]
      rcases List.mem_cons.1 hmem with rfl | hmem
      · decide
      · exact (hks v hmem).2.2

theorem Projection.noBrace_datasetTokens (p : Projection) :
    ∀ u ∈ p.datasetTokens, noBrace u = true := by
  intro u hu
  rw [datasetTokens] at hu
  split at hu
  · rw [List.cons_append, List.mem_cons, List.mem_append, List.mem_singleton] at hu
    rcases hu with rfl | hu | rfl
    · exact noBrace_name _
    · split at hu
      · exact List.mem_singleton.1 hu ▸ noBrace_name _
      · cases hu
    · exact noBrace_angled _
  · cases hu

/-- The second brace of a sub-select stands behind WHERE. -/
theorem Projection.Shaped.beforeBrace_opening {p : Projection} (h : p.Shaped)
    (hin : p.inBlock = true) (rest : List Text) :
    ∃ ws, lineTokens (p.opening .select) ++ rest = ['\n'] :: ['\x7b'] :: ws ∧
      beforeBrace ws = some Keyword.whereClause.name := by
  obtain ⟨ps, hne, hps, hs, -⟩ := h.projected
  rw [Projection.lineTokens_opening .select hne hps (fun w hw => (hs w hw).1) h.graph, if_pos hin]
  refine ⟨(['\n'] :: Keyword.select.name :: (p.quantifier.toList.map fun q => q.keyword.name) ++ ps
    ++ (if p.graph = none then [] else ['\n'] :: p.datasetTokens)
    ++ [['\n'], Keyword.whereClause.name]) ++ ['\x7b'] :: rest, by simp, ?_⟩
  rw [beforeBrace_eq _ (fun u hu => ?_) rfl]
  · rw [List.getLast?_append]
    rfl
  · simp only [List.mem_append, List.mem_cons, List.not_mem_nil, or_false, List.mem_map] at hu
    rcases hu with (((rfl | rfl | ⟨q, -, rfl⟩) | hu) | hu) | rfl | rfl
    · rfl
    · exact noBrace_name _
    · exact noBrace_name _
    · exact noBrace_iff.2 ⟨(hs u hu).2.1, (hs u hu).2.2.1⟩
    · split at hu
      · cases hu
      · rcases List.mem_cons.1 hu with rfl | hu
        · rfl
        · exact p.noBrace_datasetTokens u hu
    · rfl
    · exact noBrace_name _

namespace Head

variable {head head' : Head} {ws ws' : List Text}

theorem lineTokens_plain : lineTokens (group none false).opening = [['\n'], ['\x7b']] := by
  rw [opening, Text.lineTokens_cons, tokens_openBrace]
  rfl

theorem opening_bare (head : Head) : head.bare.opening = head.opening := by cases head <;> rfl

/-- A plain group is told from all other nested blocks. -/
theorem Nested.eq_plain (h : head.Nested)
    (hws : ∃ v, beforeBrace ws = some v ∧ v ≠ Keyword.whereClause.name)
    (he : lineTokens (Head.group none false).opening ++ ws = lineTokens head.opening ++ ws') :
    head = .group none false ∧ ws = ws' := by
  rw [lineTokens_plain] at he
  cases h with
  | @group graph optional hiri hno =>
    cases graph with
    | none =>
      cases optional with
      | false =>
        rw [lineTokens_plain] at he
        exact ⟨rfl, List.append_cancel_left he⟩
      | true =>
        rw [opening, Text.lineTokens_cons, optionalLine, tokens_keyword_brace] at he
        exact absurd (List.cons_eq_cons.1 (List.cons_eq_cons.1 he).2).1 (by decide)
    | some graph =>
      obtain rfl := hno rfl
      rw [opening, Text.lineTokens_cons, tokens_graphLine (hiri graph rfl)] at he
      exact absurd (List.cons_eq_cons.1 (List.cons_eq_cons.1 he).2).1 (by decide)
  | @select p hin hp =>
    obtain ⟨vs, hopen, hwhere⟩ := hp.beforeBrace_opening hin ws'
    have hsame : ws = vs := (List.cons_eq_cons.1 (List.cons_eq_cons.1 (he.trans hopen)).2).2
    obtain ⟨v, hv, hne⟩ := hws
    rw [hsame, hwhere] at hv
    exact absurd (Option.some.inj hv).symm hne

/-- The lines before the body of a nested block determine its head up to its modifiers. -/
theorem Nested.opening_unique (h : head.Nested) (h' : head'.Nested)
    (hws : ∃ v, beforeBrace ws = some v ∧ v ≠ Keyword.whereClause.name)
    (hws' : ∃ v, beforeBrace ws' = some v ∧ v ≠ Keyword.whereClause.name)
    (he : lineTokens head.opening ++ ws = lineTokens head'.opening ++ ws') :
    head.bare = head'.bare ∧ ws = ws' := by
  by_cases hplain : head = .group none false
  · subst hplain
    obtain ⟨hhead, hrest⟩ := h'.eq_plain hws he
    exact ⟨by rw [hhead], hrest⟩
  · by_cases hplain' : head' = .group none false
    · subst hplain'
      obtain ⟨hhead, hrest⟩ := h.eq_plain hws' he.symm
      exact ⟨by rw [hhead], hrest.symm⟩
    · -- The reader makes one head of these tokens.
      obtain ⟨c, hc⟩ := Cursor.exists_shows (lineTokens head.opening ++ ws)
      obtain ⟨-, c₁, hread, hs⟩ := h.read_written hc.sees fun hgroup => absurd hgroup hplain
      rw [he] at hc
      obtain ⟨-, c₂, hread', hs'⟩ := h'.read_written hc.sees fun hgroup => absurd hgroup hplain'
      obtain ⟨hbare, rfl⟩ := Prod.mk.inj (Except.ok.inj (hread.symm.trans hread'))
      exact ⟨hbare, hs.texts.symm.trans hs'.texts⟩

/-- What closes nested blocks that were opened in the same way determines their heads. -/
theorem Nested.closing_unique (h : head.Nested) (h' : head'.Nested) (hbare : head.bare = head'.bare)
    (he : lineTokens head.closing.tail ++ ws = lineTokens head'.closing.tail ++ ws') :
    head = head' ∧ ws = ws' := by
  obtain ⟨c, hc⟩ := Cursor.exists_shows (lineTokens head.closing.tail ++ ws)
  obtain ⟨c₁, hclose, -⟩ := h.close_written hc.sees
  rw [he] at hc
  obtain ⟨c₂, hclose', -⟩ := h'.close_written hc.sees
  rw [hbare] at hclose
  obtain ⟨rfl, -⟩ := Prod.mk.inj (Except.ok.inj (hclose.symm.trans hclose'))
  exact ⟨rfl, List.append_cancel_left he⟩

end Head

/-- Shaped bodies in the same tokens are the same. -/
theorem ShapedBody.unique {body body' : List Statement} {rest rest' : List Text}
    (h : ShapedBody style body) (h' : ShapedBody style body')
    (he : bodyTokens body rest = bodyTokens body' rest') : body = body' ∧ rest = rest' := by
  -- By induction on the one body; the first token tells which constructor made the other.
  induction h generalizing body' rest rest' with
  | nil =>
    cases h' with
    | nil => exact ⟨rfl, (List.cons_eq_cons.1 (List.cons_eq_cons.1 he).2).2⟩
    | simple ht _ => exact absurd he.symm ht.1.bodyTokens_ne
    | block hs _ _ => exact absurd he.symm (Head.Nested.bodyTokens_ne hs)
  | @simple style t ss hs hss ih =>
    cases h' with
    | nil => exact absurd he hs.1.bodyTokens_ne
    | @simple _ u us hu hus =>
      rw [bodyTokens_simple, bodyTokens_simple] at he
      obtain ⟨rfl, hrest⟩ := ShapedBody.text_unique (.simple hs hss) (.simple hu hus)
        (List.cons_eq_cons.1 he).2
      obtain ⟨rfl, rfl⟩ := ih hus hrest
      exact ⟨rfl, rfl⟩
    | block hu _ _ => exact absurd he.symm (Head.Nested.bodyTokens_ne_simple hu hs.1)
  | @block style head inner ss hs hinner _ ih₁ ih₂ =>
    cases h' with
    | nil => exact absurd he (Head.Nested.bodyTokens_ne hs)
    | simple ht _ => exact absurd he (Head.Nested.bodyTokens_ne_simple hs ht.1)
    | @block _ head' inner' us hu hinner' hus =>
      rw [bodyTokens_block, bodyTokens_block] at he
      obtain ⟨hbare, hbody⟩ := Head.Nested.opening_unique hs hu
        (ShapedBody.beforeBrace hinner _) (ShapedBody.beforeBrace hinner' _) he
      have hstyle : head'.bodyStyle = head.bodyStyle := by
        rw [← head.bodyStyle_bare, hbare, Head.bodyStyle_bare]
      rw [hstyle] at hinner'
      obtain ⟨rfl, hclose⟩ := ih₁ hinner' hbody
      obtain ⟨rfl, hrest⟩ := Head.Nested.closing_unique hs hu hbare hclose
      obtain ⟨rfl, rfl⟩ := ih₂ hus hrest
      exact ⟨rfl, rfl⟩

/-! ## 4. Statements of a query -/

namespace Head.Top

variable {head head' : Head} {ws ws' : List Text}

/-- The projections of two forms that begin with the same keyword and in the same tokens are the
same up to their modifiers. -/
theorem projection_unique {p p' : Projection} (k : Keyword) (hp : p.Shaped) (hp' : p'.Shaped)
    (hin : p.inBlock = false) (hin' : p'.inBlock = false)
    (he : lineTokens (p.opening k) ++ ws = lineTokens (p'.opening k) ++ ws') :
    { p with modifiers := [] } = ({ p' with modifiers := [] } : Projection) := by
  have hne : ∀ q : Projection, lineTokens (q.opening k) ≠ [] := fun q => by
    simp [Projection.opening]
  have htail := congrArg List.tail he
  rw [List.tail_append_of_ne_nil (hne p), List.tail_append_of_ne_nil (hne p')] at htail
  obtain ⟨c, hc⟩ := Cursor.exists_shows ((lineTokens (p.opening k)).tail ++ ws)
  obtain ⟨-, c₁, hread, -⟩ := Draft.readProjection_written k hp hin hc.sees
  rw [htail] at hc
  obtain ⟨-, c₂, hread', -⟩ := Draft.readProjection_written k hp' hin' hc.sees
  exact (Prod.mk.inj (Except.ok.inj (hread.symm.trans hread'))).1

/-- The templates of two CONSTRUCT forms that begin in the same tokens are the same. -/
theorem template_unique {t t' : Text} {ms ms' : List Text} (ht : Template t) (ht' : Template t')
    (he : lineTokens (Head.construct t ms).opening ++ ws
      = lineTokens (Head.construct t' ms').opening ++ ws') : t = t' := by
  rw [lineTokens_construct, lineTokens_construct, List.append_assoc, List.append_assoc] at he
  have htail : ['\x7b'] :: lineTokens (_ ++ [closeLine]) ++ (_ ++ ws)
      = ['\x7b'] :: lineTokens (_ ++ [closeLine]) ++ (_ ++ ws') :=
    (List.cons_eq_cons.1 (List.cons_eq_cons.1 he).2).2
  obtain ⟨c, hc⟩ := Cursor.exists_shows _
  obtain ⟨c₁, hread, -⟩ := readTemplate_written ht hc.sees
  rw [htail] at hc
  obtain ⟨c₂, hread', -⟩ := readTemplate_written ht' hc.sees
  exact (Prod.mk.inj (Except.ok.inj (hread.symm.trans hread'))).1

/-- The lines before the body of a form determine its head up to its modifiers. -/
theorem opening_unique (h : head.Top) (h' : head'.Top) (hkind : head.kind = head'.kind)
    (he : lineTokens head.opening ++ ws = lineTokens head'.opening ++ ws') :
    head.bare = head'.bare ∧ ws = ws' := by
  have hbare : head.bare = head'.bare := by
    cases h with
    | pattern => cases h' <;> first | rfl | cases hkind
    | ask => cases h' <;> first | rfl | cases hkind
    | select hin hp =>
      cases h' with
      | select hin' hp' => exact congrArg Head.select (projection_unique .select hp hp' hin hin' he)
      | _ => cases hkind
    | describe hin hp =>
      cases h' with
      | describe hin' hp' =>
        exact congrArg Head.describe (projection_unique .describe hp hp' hin hin' he)
      | _ => cases hkind
    | @construct template ms ht =>
      cases h' with
      | @construct template' ms' ht' =>
        rw [Head.bare, Head.bare, template_unique ht ht' he]
      | _ => cases hkind
  have hopening : head.opening = head'.opening := by
    rw [← opening_bare, hbare, opening_bare]
  rw [hopening] at he
  exact ⟨hbare, List.append_cancel_left he⟩

/-- What closes forms that were opened in the same way determines their heads. -/
theorem closing_unique (h : head.Top) (h' : head'.Top) (hbare : head.bare = head'.bare)
    (hends : ∀ w ∈ nextToken ws, Modifier.Ends w) (hends' : ∀ w ∈ nextToken ws', Modifier.Ends w)
    (he : lineTokens head.closing.tail ++ ws = lineTokens head'.closing.tail ++ ws') :
    head = head' ∧ ws = ws' := by
  obtain ⟨c, hc⟩ := Cursor.exists_shows (lineTokens head.closing.tail ++ ws)
  obtain ⟨c₁, hclose, -⟩ := h.close_written hc.sees hends
  rw [he] at hc
  obtain ⟨c₂, hclose', -⟩ := h'.close_written hc.sees hends'
  rw [hbare] at hclose
  obtain ⟨rfl, -⟩ := Prod.mk.inj (Except.ok.inj (hclose.symm.trans hclose'))
  exact ⟨rfl, List.append_cancel_left he⟩

end Head.Top

namespace Statement

variable {s s' : Statement} {ws ws' : List Text} {cfg : Config}

theorem lineTokens_update (head : UpdateHead) (template : List Statement)
    (attached : Option (List Statement)) (rest : List Text) :
    lineTokens (layout (.update head template attached)) ++ rest =
      ['\n'] :: head.operation.keyword.name ::
        ((if head.data then [Keyword.data.name] else []) ++ ['\x7b'] ::
          bodyTokens template (lineTokens (attachedLines attached) ++ rest)) := by
  rw [layout_update, List.cons_append, Text.lineTokens_cons, UpdateHead.tokens_opening,
    Text.lineTokens_append, Text.lineTokens_cons, tokens_closeLine, bodyTokens]
  simp

theorem lineTokens_attached (body : List Statement) (rest : List Text) :
    lineTokens (attachedLines (some body)) ++ rest =
      ['\n'] :: Keyword.whereClause.name :: ['\x7b'] :: bodyTokens body rest := by
  rw [attachedLines, List.cons_append, Text.lineTokens_cons, whereLine, tokens_keyword_brace,
    Text.lineTokens_append, Text.lineTokens_cons, tokens_closeLine, bodyTokens]
  simp

/-- A text that begins with an attached body is told from one that begins with no WHERE. -/
theorem attached_ne {body : List Statement} {rest : List Text}
    (hno : ∀ w ∈ nextToken ws, Keyword.whereClause.leads w = false) :
    ws ≠ lineTokens (attachedLines (some body)) ++ rest := by
  rintro rfl
  rw [lineTokens_attached, nextToken_newline, nextToken_of_single (single_name _).2] at hno
  have hleads := Keyword.leads_of_spells (Keyword.spells_name .whereClause)
  rw [hno _ rfl] at hleads
  nomatch hleads

/-- A WHERE body that may be attached to an update is seen from the tokens behind its template. -/
theorem attached_unique {attached attached' : Option (List Statement)}
    (h : ∀ body ∈ attached, ShapedBody .segmented body)
    (h' : ∀ body ∈ attached', ShapedBody .segmented body)
    (hno : attached = none → ∀ w ∈ nextToken ws, Keyword.whereClause.leads w = false)
    (hno' : attached' = none → ∀ w ∈ nextToken ws', Keyword.whereClause.leads w = false)
    (he : lineTokens (attachedLines attached) ++ ws = lineTokens (attachedLines attached') ++ ws') :
    attached = attached' ∧ ws = ws' := by
  cases attached with
  | none =>
    cases attached' with
    | none => exact ⟨rfl, he⟩
    | some body => exact absurd he (attached_ne (hno rfl))
  | some body =>
    cases attached' with
    | none => exact absurd he.symm (attached_ne (hno' rfl))
    | some body' =>
      rw [lineTokens_attached, lineTokens_attached] at he
      obtain ⟨rfl, hrest⟩ := (h body rfl).unique (h' body' rfl)
        (List.cons_eq_cons.1 (List.cons_eq_cons.1 (List.cons_eq_cons.1 he).2).2).2
      exact ⟨rfl, hrest⟩

theorem Top.kind_of_opener {head head' : Head} {body body' : List Statement} (h : head.Top)
    (h' : head'.Top)
    (ho : (Statement.block head body).opener = (Statement.block head' body').opener) :
    head.kind = head'.kind := by
  cases h <;> cases h' <;> first | rfl | nomatch ho

theorem Top.opener_ne {head : Head} {body template : List Statement} {u : UpdateHead}
    {attached : Option (List Statement)} (h : head.Top) :
    (Statement.block head body).opener ≠ (Statement.update u template attached).opener := by
  obtain ⟨operation, data⟩ := u
  cases h <;> cases operation <;> exact fun h => nomatch h

/-- The tokens in front of the template of an update say which one it is. -/
theorem UpdateHead.unique {head head' : UpdateHead} {vs vs' : List Text}
    (he : head.operation.keyword.name ::
        ((if head.data then [Keyword.data.name] else []) ++ ['\x7b'] :: vs) =
      head'.operation.keyword.name ::
        ((if head'.data then [Keyword.data.name] else []) ++ ['\x7b'] :: vs')) :
    head = head' ∧ vs = vs' := by
  obtain ⟨hname, hinside⟩ := List.cons_eq_cons.1 he
  obtain ⟨operation, data⟩ := head
  obtain ⟨operation', data'⟩ := head'
  have hop : operation = operation' := by
    have hk := Keyword.name_injective hname
    cases operation <;> cases operation' <;> first | rfl | nomatch hk
  have hbrace : ['\x7b'] ≠ Keyword.data.name := by decide
  have hdata : data = data' := by
    cases data <;> cases data'
    · rfl
    · exact absurd (List.cons_eq_cons.1 hinside).1 hbrace
    · exact absurd (List.cons_eq_cons.1 hinside).1.symm hbrace
    · rfl
  subst hop hdata
  exact ⟨rfl, (List.cons_eq_cons.1 (List.append_cancel_left hinside)).2⟩

/-- Statements of a query that begin in the same tokens are the same, if what follows them does not
belong to them. -/
theorem Top.unique (h : s.Top) (h' : s'.Top) (hfollow : s.FollowedBy cfg ws)
    (hfollow' : s'.FollowedBy cfg ws')
    (he : lineTokens s.layout ++ ws = lineTokens s'.layout ++ ws') : s = s' ∧ ws = ws' := by
  -- Both begin with the same keyword, so they are statements of one kind.
  have hopener : s.opener = s'.opener := by
    have hnext := h.nextToken_layout ws
    rw [he, h'.nextToken_layout] at hnext
    exact (Keyword.name_injective (Option.some.inj hnext)).symm
  cases h with
  | @block head body htop hbody =>
    cases h' with
    | @block head' body' htop' hbody' =>
      rw [lineTokens_block, lineTokens_block] at he
      obtain ⟨hbare, hinside⟩ := htop.opening_unique htop'
        (Top.kind_of_opener htop htop' hopener) he
      have hstyle : head'.bodyStyle = head.bodyStyle := by
        rw [← head.bodyStyle_bare, hbare, Head.bodyStyle_bare]
      rw [hstyle] at hbody'
      obtain ⟨rfl, hclose⟩ := hbody.unique hbody' hinside
      obtain ⟨rfl, hrest⟩ := htop.closing_unique htop' hbare hfollow.ends hfollow'.ends hclose
      exact ⟨rfl, hrest⟩
    | update => exact absurd hopener (Top.opener_ne htop)
  | @update head template attached ht ha =>
    cases h' with
    | block htop' => exact absurd hopener.symm (Top.opener_ne htop')
    | @update head' template' attached' ht' ha' =>
      rw [lineTokens_update, lineTokens_update] at he
      obtain ⟨rfl, hinside⟩ := UpdateHead.unique (List.cons_eq_cons.1 he).2
      obtain ⟨rfl, hattached⟩ := ht.unique ht' hinside
      obtain ⟨rfl, hrest⟩ := attached_unique ha ha'
        (fun hnone => hfollow.noWhere _ _ (by rw [hnone]))
        (fun hnone => hfollow'.noWhere _ _ (by rw [hnone])) hattached
      exact ⟨rfl, hrest⟩

theorem Apart.tail {ss : List Statement} (h : Apart (s :: ss)) : Apart ss := by
  cases ss with
  | nil => exact trivial
  | cons => exact h.2

/-- Statements of a query in the same tokens are the same. -/
theorem layoutAll_injective {ss ts : List Statement} (hss : ∀ s ∈ ss, s.Top)
    (hts : ∀ t ∈ ts, t.Top) (ha : Apart ss) (ha' : Apart ts)
    (he : lineTokens (layoutAll ss) = lineTokens (layoutAll ts)) : ss = ts := by
  have hne : ∀ (s : Statement) (ss : List Statement), lineTokens (layoutAll (s :: ss)) ≠ [] := by
    intro s ss
    obtain ⟨l, ls, hl⟩ := List.exists_cons_of_ne_nil s.layout_ne_nil
    rw [layoutAll, hl]
    simp
  have hlax : ({ strictUpdateWhere := false } : Config).strictUpdateWhere ≠ true := by decide
  induction ss generalizing ts with
  | nil =>
    cases ts with
    | nil => rfl
    | cons t ts => exact absurd he.symm (hne t ts)
  | cons s ss ih =>
    cases ts with
    | nil => exact absurd he (hne s ss)
    | cons t ts =>
      have hss' := fun u hu => hss u (List.mem_cons_of_mem s hu)
      have hts' := fun u hu => hts u (List.mem_cons_of_mem t hu)
      rw [layoutAll, layoutAll, Text.lineTokens_append, Text.lineTokens_append] at he
      obtain ⟨rfl, hrest⟩ := (hss s (by simp)).unique (hts t (by simp))
        (followedBy hss' ha fun h => absurd h hlax) (followedBy hts' ha' fun h => absurd h hlax) he
      rw [ih hss' hts' ha.tail ha'.tail hrest]

end Statement

end SparqlTree
