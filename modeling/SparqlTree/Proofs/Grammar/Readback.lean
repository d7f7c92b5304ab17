import SparqlTree.Proofs.Grammar.Feeds
import SparqlTree.Proofs.Statement.Tokens

/-!
# Reading heads that were written

The heads of blocks, and what closes them, are read again as they were written. Their lines hold the
tokens of a derivation with line breaks between, so each reading function makes of them what it
makes of that derivation. Where a loop ends, the lemma asks that the next token does not belong to
it.
-/

namespace SparqlTree

open Text (isBreak IsToken lineTokens)

variable {c : Cursor} {w : Text} {ws : List Text}

namespace Cursor

/-- The next token is the first one seen. -/
theorem Sees.peek_text (h : c.Sees ws) : c.peek.map Token.text = nextToken ws := by
  obtain ⟨bs, hbs, h⟩ := h
  rw [← nextToken_append_breaks hbs]
  cases hp : c.peek with
  | some t =>
    obtain ⟨bs', ws', he, hbs', hb, -⟩ := h.of_peek hp
    rw [he, nextToken_append_breaks hbs', nextToken_of_single hb]
    rfl
  | none =>
    cases hn : nextToken (bs ++ ws) with
    | none => rfl
    | some w =>
      obtain ⟨bs', ws', he, hbs', hb⟩ := exists_of_nextToken hn
      rw [he] at h
      obtain ⟨t, hp', -⟩ := h.step hbs' hb
      rw [hp] at hp'
      nomatch hp'

theorem Sees.forall_peek {P : Text → Prop} (h : c.Sees ws) (hP : ∀ w ∈ nextToken ws, P w) :
    ∀ t, c.peek = some t → P t.text := by
  intro t hp
  refine hP t.text ?_
  rw [← h.peek_text, hp]
  rfl

theorem Sees.peek_eq_none (h : c.Sees ws) (hn : nextToken ws = none) : c.peek = none := by
  rw [← h.peek_text, Option.map_eq_none_iff] at hn
  exact hn

/-! ## 1. Tokens that are seen -/

theorem Sees.next (h : c.Sees (w :: ws)) (hw : isBreak w = false) :
    c.Next w ∧ c.pass.Shows ws := by
  obtain ⟨t, hp, ht, hk, hs⟩ := h.step hw
  exact ⟨⟨t, hp, ht, hk⟩, hs⟩

/-- Tokens are fed to a reading function without the line breaks among them. -/
theorem Sees.feeds {vs : List Text} (h : c.Sees (vs ++ ws)) :
    ∃ c', c.Feeds (vs.filter (!isBreak ·)) c' ∧ c'.Sees ws := by
  induction vs generalizing c with
  | nil => exact ⟨c, rfl, h⟩
  | cons v vs ih =>
    cases hv : isBreak v with
    | true =>
      rw [List.filter_cons_of_neg (by rw [hv]; decide)]
      exact ih (h.of_break hv)
    | false =>
      obtain ⟨hnext, hs⟩ := Sees.next h hv
      obtain ⟨c', hfeeds, hs'⟩ := ih hs.sees
      rw [List.filter_cons_of_pos (by rw [hv]; decide)]
      exact ⟨c', ⟨hnext, hfeeds⟩, hs'⟩

/-- Behind an opening brace the cursor shows what follows, line breaks included. -/
theorem Sees.feeds_brace {vs : List Text} (h : c.Sees (vs ++ [['\x7b']] ++ ws)) :
    ∃ c', c.Feeds (vs.filter (!isBreak ·) ++ [['\x7b']]) c' ∧ c'.Shows ws := by
  rw [List.append_assoc] at h
  obtain ⟨c₁, hfeeds, hs₁⟩ := h.feeds
  obtain ⟨hbrace, hs⟩ := Sees.next hs₁ rfl
  exact ⟨c₁.pass, hfeeds.concat hbrace, hs⟩

theorem Sees.expect (h : c.Sees (w :: ws)) (hw : isBreak w = false) (e : Expectation) :
    ∃ t, t.text = w ∧ c.expect e = .ok (t, c.pass) ∧ c.pass.Shows ws := by
  obtain ⟨⟨t, hp, ht, -⟩, hs⟩ := h.next hw
  exact ⟨t, ht, expect_of_peek hp e, hs⟩

theorem Sees.require (h : c.Sees (w :: ws)) (hw : isBreak w = false) (e : Expectation)
    (accept : Token → Bool) (ha : ∀ t : Token, t.text = w → t.kind = TokenKind.classify w →
      accept t = true) :
    ∃ t, t.text = w ∧ c.require e accept = .ok (t, c.pass) ∧ c.pass.Shows ws := by
  obtain ⟨⟨t, hp, ht, hk⟩, hs⟩ := h.next hw
  exact ⟨t, ht, require_of_peek hp (ha t ht hk) e, hs⟩

theorem Sees.requireIri {iri : Text} (h : c.Sees (Text.angled iri :: ws)) :
    c.requireIri = .ok (iri, c.pass) ∧ c.pass.Shows ws := by
  obtain ⟨hnext, hs⟩ := h.next rfl
  exact ⟨hnext.requireIri, hs⟩

variable {k : Keyword}

theorem Sees.atKeyword_eq (h : c.Sees ws) :
    c.atKeyword k = (nextToken ws).any fun w => k.spells w := by
  rw [← h.peek_text, Option.any_map]
  rfl

theorem Sees.atGlued_eq (h : c.Sees ws) :
    c.atGlued k = (nextToken ws).any fun w => k.leads w := by
  rw [← h.peek_text, Option.any_map]
  rfl

theorem Sees.eat?_eq_none (h : c.Sees ws) (hno : ∀ w ∈ nextToken ws, k.spells w = false) :
    c.eat? k = none :=
  Cursor.eat?_eq_none (h.forall_peek hno)

theorem Sees.eatGlued?_eq_none (h : c.Sees ws) (hno : ∀ w ∈ nextToken ws, k.leads w = false) :
    c.eatGlued? k = none :=
  Cursor.eatGlued?_eq_none (h.forall_peek hno)

theorem Sees.eatGlued?_name (h : c.Sees (k.name :: ws)) :
    c.eatGlued? k = some c.pass ∧ c.pass.Shows ws := by
  obtain ⟨hnext, hs⟩ := h.next (single_name k).2
  exact ⟨hnext.eatGlued?_spells k.spells_name, hs⟩

end Cursor

theorem readOpenBrace_written (h : c.Sees (['\x7b'] :: ws)) :
    readOpenBrace c = .ok c.pass ∧ c.pass.Shows ws := by
  obtain ⟨hbrace, hs⟩ := h.next rfl
  exact ⟨hbrace.readOpenBrace, hs⟩

theorem filter_solid {vs : List Text} (h : ∀ v ∈ vs, isBreak v = false) :
    vs.filter (!isBreak ·) = vs :=
  List.filter_eq_self.2 fun v hv => by rw [h v hv]; rfl

/-! ## 2. Projections -/

/-- The tokens between SELECT or DESCRIBE and the opening brace, as they are written. -/
def Projection.writtenTokens (p : Projection) (ps : List Text) : List Text :=
  (p.quantifier.toList.map fun q => q.keyword.name) ++ ps
    ++ (if p.graph = none then [] else ['\n'] :: p.datasetTokens)
    ++ [['\n'], Keyword.whereClause.name, ['\x7b']]

namespace Projection

theorem quantifierFrom_written (q : Option SetQuantifier) :
    QuantifierFrom (q.toList.map fun q => q.keyword.name) q := by
  cases q with
  | none => exact .omitted
  | some q =>
    cases q with
    | distinct => exact .distinct (Keyword.spells_name _)
    | reduced => exact .reduced (Keyword.spells_name _)

theorem datasetFrom_written (p : Projection) :
    DatasetFrom p.datasetTokens (p.graph.map fun graph => (graph, p.fromNamed)) := by
  rw [datasetTokens]
  cases p.graph with
  | none => exact .omitted
  | some graph =>
    cases p.fromNamed with
    | true => exact .named (Keyword.spells_name _) (Keyword.spells_name _)
    | false => exact .plain (Keyword.spells_name _)

theorem filter_datasetTokens {p : Projection} (hg : ∀ iri ∈ p.graph, IsIri iri) :
    (if p.graph = none then [] else ['\n'] :: p.datasetTokens).filter (!isBreak ·)
      = p.datasetTokens := by
  have hsolid := filter_solid fun w hw => (single_datasetTokens hg w hw).2
  split
  · next hnone =>
    rw [datasetTokens, hnone]
    rfl
  · exact hsolid

/-- What is written before the brace has the projection as its meaning, but for its solution
modifiers, which are written behind the body. -/
theorem Shaped.projectionFrom {p : Projection} {ps : List Text} (hp : p.Shaped) (hne : ps ≠ [])
    (hps : p.projected = Text.spaced ps) (hs : ∀ w ∈ ps, Single w ∧ Projected w)
    (hfirst : p.quantifier = none → ∀ w ∈ ps.head?, Unquantified w) :
    ∃ vs, p.writtenTokens ps = vs ++ [['\x7b']] ∧
      ProjectionFrom p.inBlock (vs.filter (!isBreak ·)) { p with modifiers := [] } := by
  have hfrom : ProjectionFrom p.inBlock _ _ := .mk (quantifierFrom_written p.quantifier) hne
    (fun w hw => (hs w hw).2) hfirst (datasetFrom_written p)
    (.word (Keyword.spells_name .whereClause))
  -- A projection without graph has no FROM clause to be marked NAMED.
  have hnamed : (p.graph.map fun graph => (graph, p.fromNamed)).any Prod.snd = p.fromNamed := by
    cases hg : p.graph with
    | some graph => simp
    | none =>
      cases hn : p.fromNamed with
      | false => rfl
      | true =>
        have := hp.named hn
        rw [hg] at this
        cases this
  have hgraph : (p.graph.map fun graph => (graph, p.fromNamed)).map Prod.fst = p.graph := by
    cases p.graph <;> rfl
  have hquantifier : ∀ w ∈ p.quantifier.toList.map fun q => q.keyword.name, isBreak w = false := by
    intro w hw
    obtain ⟨q, -, rfl⟩ := List.mem_map.1 hw
    exact (single_name _).2
  rw [hnamed, hgraph, ← hps] at hfrom
  refine ⟨_ ++ [['\n'], Keyword.whereClause.name],
    (List.append_assoc _ [['\n'], Keyword.whereClause.name] [['\x7b']]).symm, ?_⟩
  rw [List.filter_append, List.filter_append, List.filter_append, filter_solid hquantifier,
    filter_solid fun w hw => (hs w hw).1.2, filter_datasetTokens hp.graph]
  exact hfrom

/-- A projection is read as it was written. Its modifiers are not known yet. -/
theorem read_written {p : Projection} {ps : List Text} (hp : p.Shaped)
    (hne : ps ≠ []) (hps : p.projected = Text.spaced ps) (hs : ∀ w ∈ ps, Single w ∧ Projected w)
    (hfirst : p.quantifier = none → ∀ w ∈ ps.head?, Unquantified w)
    (h : c.Sees (p.writtenTokens ps ++ ws)) :
    ∃ c', read p.inBlock c = .ok ({ p with modifiers := [] }, c') ∧ c'.Shows ws := by
  obtain ⟨vs, hvs, hfrom⟩ := hp.projectionFrom hne hps hs hfirst
  rw [hvs] at h
  obtain ⟨c', hfeeds, hshows⟩ := h.feeds_brace
  exact ⟨c', read_feeds hfrom hfeeds, hshows⟩

end Projection

/-! ## 3. Solution modifiers -/

namespace Modifier

/-- The lines of solution modifiers hold their tokens. -/
theorem filter_lineTokens {mss : List (List Text)} (hb : ∀ w ∈ mss.flatten, isBreak w = false)
    (hscan : Text.Scanned mss.flatten) :
    (lineTokens (mss.map Text.spaced)).filter (!isBreak ·) = mss.flatten := by
  rw [lineTokens_modifiers hscan]
  clear hscan
  induction mss with
  | nil => rfl
  | cons ms mss ih =>
    rw [List.flatten_cons] at hb ⊢
    rw [List.flatMap_cons, List.filter_append, ih fun w hw => hb w (List.mem_append_right _ hw)]
    exact congrArg (· ++ _) (filter_solid fun w hw => hb w (List.mem_append_left _ hw))

/-- Solution modifiers are read as they were written, up to a token that begins no other. -/
theorem readAll_written {modifiers : List Text} (hm : Modifiers modifiers)
    (h : c.Sees (lineTokens modifiers ++ ws)) (hends : ∀ w ∈ nextToken ws, Ends w) :
    ∃ c', readAll c = .ok (modifiers, c') ∧ c'.Sees ws := by
  obtain ⟨mss, rfl, hms, hb, hscan⟩ := hm
  obtain ⟨c', hfeeds, hs⟩ := h.feeds
  rw [filter_lineTokens hb hscan] at hfeeds
  exact ⟨c', readAll_feeds hms hfeeds (hs.forall_peek hends), hs⟩

end Modifier

/-! ## 4. Nested blocks -/

/-- The head before its block is closed: its solution modifiers are not known yet. -/
def Head.bare : Head → Head
  | select p => select { p with modifiers := [] }
  | describe p => describe { p with modifiers := [] }
  | construct template _ => construct template []
  | head => head

theorem Head.bodyStyle_bare (head : Head) : head.bare.bodyStyle = head.bodyStyle := by
  cases head <;> rfl

namespace Head

/-- The lines before a nested block hold the tokens of its head, and the opening brace. -/
theorem Nested.headFrom {head : Head} (hn : head.Nested) : ∃ vs,
    lineTokens head.opening = vs ++ [['\x7b']] ∧ HeadFrom (vs.filter (!isBreak ·)) head.bare := by
  cases hn with
  | @group graph optional hiri hno =>
    cases graph with
    | none =>
      cases optional with
      | false =>
        refine ⟨[['\n']], ?_, .group⟩
        rw [opening, Text.lineTokens_cons, tokens_openBrace]
        rfl
      | true =>
        refine ⟨[['\n'], Keyword.optional.name], ?_, .optional (Keyword.spells_name _)⟩
        rw [opening, Text.lineTokens_cons, optionalLine, tokens_keyword_brace]
        rfl
    | some graph =>
      obtain rfl := hno rfl
      refine ⟨[['\n'], Keyword.graph.name, Text.angled graph], ?_, .graph (Keyword.spells_name _)⟩
      rw [opening, Text.lineTokens_cons, tokens_graphLine (hiri graph rfl)]
      rfl
  | @select p hin hp =>
    obtain ⟨ps, hne, hps, hs, hfirst⟩ := hp.projected
    obtain ⟨vs, hvs, hfrom⟩ := hp.projectionFrom hne hps hs hfirst
    refine ⟨['\n'] :: ['\x7b'] :: ['\n'] :: Keyword.select.name :: vs, ?_,
      .select (Keyword.spells_name _) (hin ▸ hfrom)⟩
    rw [opening, Projection.lineTokens_opening .select hne hps (fun w hw => (hs w hw).1) hp.graph,
      if_pos hin]
    rw [Projection.writtenTokens] at hvs
    simp only [List.cons_append, List.nil_append, ← hvs]

/-- The head of a nested block is read as it was written, but for its solution modifiers. -/
theorem Nested.read_written {head : Head} (hn : head.Nested)
    (h : c.Sees (lineTokens head.opening ++ ws))
    (hselect : head = .group none false → ∀ w ∈ nextToken ws, Keyword.select.spells w = false) :
    AtNested c ∧ ∃ c', readNested c = .ok (head.bare, c') ∧ c'.Shows ws := by
  obtain ⟨vs, hvs, hfrom⟩ := hn.headFrom
  rw [hvs] at h
  obtain ⟨c', hfeeds, hshows⟩ := h.feeds_brace
  have hplain : head.bare = .group none false → head = .group none false := by
    cases hn with
    | group => exact id
    | select => intro hbare; nomatch hbare
  obtain ⟨hat, hread⟩ := readNested_feeds hfrom hfeeds fun hbare =>
    hshows.sees.forall_peek (P := (Keyword.select.spells · = false)) (hselect (hplain hbare))
  exact ⟨hat, c', hread, hshows⟩

/-- What closes a projection is read as it was written. -/
theorem closeProjection_written {p : Projection} (hm : Modifiers p.modifiers)
    (h : c.Sees (lineTokens p.closing.tail ++ ws))
    (hends : p.inBlock = false → ∀ w ∈ nextToken ws, Modifier.Ends w) :
    ∃ c', closeProjection { p with modifiers := [] } c = .ok (p, c') ∧ c'.Sees ws := by
  obtain ⟨mss, hmss, hms, hb, hscan⟩ := hm
  have hbrace : (lineTokens (if p.inBlock then [closeLine] else [])).filter (!isBreak ·)
      = if p.inBlock then [['\x7d']] else [] := by
    cases p.inBlock with
    | false => rfl
    | true =>
      rw [if_pos rfl, if_pos rfl, Text.lineTokens_cons, tokens_closeLine]
      rfl
  obtain ⟨c', hfeeds, hs⟩ := h.feeds
  rw [Projection.closing, List.cons_append, List.tail_cons, Text.lineTokens_append,
    List.filter_append, hmss, Modifier.filter_lineTokens hb hscan, hbrace] at hfeeds
  refine ⟨c', ?_, hs⟩
  rw [closeProjection_feeds (p := { p with modifiers := [] }) hms hfeeds fun hin =>
    hs.forall_peek (hends hin), ← hmss]

theorem Nested.close_written {head : Head} (hn : head.Nested)
    (h : c.Sees (lineTokens head.closing.tail ++ ws)) :
    ∃ c', head.bare.close c = .ok (head, c') ∧ c'.Sees ws := by
  cases hn with
  | @group graph optional hiri hno =>
    refine ⟨c, rfl, ?_⟩
    cases graph with
    | none => exact h
    | some graph =>
      obtain rfl := hno rfl
      exact h
  | @select p hin hp =>
    obtain ⟨c', hclose, hs⟩ := closeProjection_written hp.modifiers h fun hno => by
      rw [hin] at hno; nomatch hno
    refine ⟨c', ?_, hs⟩
    rw [bare, close, hclose]
    rfl

end Head

end SparqlTree
