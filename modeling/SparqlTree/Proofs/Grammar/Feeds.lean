import SparqlTree.Grammar.Draft
import SparqlTree.Proofs.Grammar.Derivation

/-!
# Reading the tokens of a derivation

The relations between tokens and what they mean (`ProjectionFrom`, `HeadFrom`, `CloseFrom` and
others) say what the reading functions make of these tokens, wherever lines are broken between them.
There is one lemma for each function. Where a function also looks at the token behind, the lemma
asks that this token does not belong to what is read.
-/

namespace SparqlTree

variable {c c' : Cursor} {w : Text} {ws : List Text}

namespace Cursor

/-- The token that comes next has the given text, and the kind of that text. -/
def Next (c : Cursor) (w : Text) : Prop :=
  ∃ t, c.peek = some t ∧ t.text = w ∧ t.kind = TokenKind.classify w

/-- The tokens with the given texts come next, up to the second cursor. -/
def Feeds : Cursor → List Text → Cursor → Prop
  | c, [], c' => c = c'
  | c, w :: ws, c' => c.Next w ∧ c.pass.Feeds ws c'

theorem Feeds.append {vs : List Text} (h : c.Feeds (vs ++ ws) c') :
    ∃ c₁, c.Feeds vs c₁ ∧ c₁.Feeds ws c' := by
  induction vs generalizing c with
  | nil => exact ⟨c, rfl, h⟩
  | cons v vs ih =>
    obtain ⟨hv, h⟩ := h
    obtain ⟨c₁, h₁, h₂⟩ := ih h
    exact ⟨c₁, ⟨hv, h₁⟩, h₂⟩

theorem Feeds.concat {vs : List Text} (h : c.Feeds vs c') (hw : c'.Next w) :
    c.Feeds (vs ++ [w]) c'.pass := by
  induction vs generalizing c with
  | nil =>
    obtain rfl : c = c' := h
    exact ⟨hw, rfl⟩
  | cons v vs ih => exact ⟨h.1, ih h.2⟩

/-- Where a token comes next, nothing else does. -/
theorem Next.forall_peek {P : Text → Prop} (h : c.Next w) (hP : P w) :
    ∀ t, c.peek = some t → P t.text := by
  intro t ht
  obtain ⟨u, hu, rfl, -⟩ := h
  obtain rfl := Option.some.inj (ht.symm.trans hu)
  exact hP

/-! ## 1. Single tokens -/

theorem expect_of_peek {t : Token} (hp : c.peek = some t) (e : Expectation) :
    c.expect e = .ok (t, c.pass) := by
  rw [Cursor.expect, next, ← peek_eq_head?_skipBreaks, hp]

theorem require_of_peek {t : Token} {accept : Token → Bool} (hp : c.peek = some t)
    (ha : accept t = true) (e : Expectation) : c.require e accept = .ok (t, c.pass) := by
  rw [Cursor.require, expect_of_peek hp]
  show (if accept t = true then _ else _) = _
  rw [if_pos ha]
  rfl

theorem Next.requireKind {kind : TokenKind} (h : c.Next w) (e : Expectation)
    (hkind : TokenKind.classify w = kind) : c.requireKind e kind = .ok c.pass := by
  obtain ⟨t, hp, -, hk⟩ := h
  rw [Cursor.requireKind, require_of_peek hp (by rw [hk, hkind, beq_self_eq_true])]
  rfl

theorem Next.requireIri {iri : Text} (h : c.Next (Text.angled iri)) :
    c.requireIri = .ok (iri, c.pass) := by
  obtain ⟨t, hp, ht, -⟩ := h
  have hi : t.iri? = some iri := by
    rw [Token.iri?, ht]
    show (if (iri ++ ['>']).getLast? = some '>' then some (iri ++ ['>']).dropLast else none) = _
    rw [List.getLast?_concat, if_pos rfl, List.dropLast_concat]
  rw [Cursor.requireIri, expect_of_peek hp]
  dsimp only [bind, Except.bind]
  rw [hi]
  rfl

variable {k : Keyword}

theorem eat?_eq_none (hno : ∀ t, c.peek = some t → k.spells t.text = false) : c.eat? k = none := by
  rw [eat?, if_neg]
  intro hat
  obtain ⟨t, hp, ht⟩ := atKeyword_eq_true.1 hat
  rw [hno t hp] at ht
  cases ht

theorem Next.forall_not_spells (h : c.Next w) (hw : k.spells w = false) :
    ∀ t, c.peek = some t → k.spells t.text = false :=
  h.forall_peek (P := (k.spells · = false)) hw

theorem Next.eat?_eq_none (h : c.Next w) (hw : k.spells w = false) : c.eat? k = none :=
  Cursor.eat?_eq_none (h.forall_not_spells hw)

theorem Next.eat?_spells (h : c.Next w) (hw : k.spells w = true) : c.eat? k = some c.pass := by
  obtain ⟨t, hp, rfl, -⟩ := h
  exact eat?_eq_some.2 ⟨t, hp, hw, rfl⟩

theorem Next.atKeyword_eq (h : c.Next w) : c.atKeyword k = k.spells w := by
  obtain ⟨t, hp, rfl, -⟩ := h
  rw [atKeyword, hp]
  rfl

theorem eatGlued?_eq_none (hno : ∀ t, c.peek = some t → k.leads t.text = false) :
    c.eatGlued? k = none := by
  rw [eatGlued?, if_neg]
  intro hat
  obtain ⟨t, hp, ht⟩ := atGlued_eq_true.1 hat
  rw [hno t hp] at ht
  exact Bool.false_ne_true ht

theorem Next.eatGlued?_eq_none (h : c.Next w) (hw : k.leads w = false) : c.eatGlued? k = none :=
  Cursor.eatGlued?_eq_none (h.forall_peek (P := (k.leads · = false)) hw)

/-- Nothing is cut from a token that is no longer than the head to be broken off. -/
theorem breakOff_pass {t : Token} {head : Text} (hp : c.peek = some t)
    (hlen : t.text.length ≤ head.length) : c.pass.breakOff head = c.pass := by
  rw [breakOff]
  cases hb : c.pass.breakOff? head with
  | none => rfl
  | some c' =>
    obtain ⟨u, before, hcons, -, hlt, -⟩ := breakOff?_eq_some hb
    rw [consumed_pass_of_peek hp] at hcons
    obtain ⟨rfl, -⟩ := List.cons_eq_cons.1 hcons
    omega

/-- A keyword that stands alone is consumed whole. -/
theorem Next.eatGlued?_spells (h : c.Next w) (hw : k.spells w = true) :
    c.eatGlued? k = some c.pass := by
  obtain ⟨t, hp, rfl, -⟩ := h
  rw [eatGlued?, if_pos (atGlued_eq_true.2 ⟨t, hp, Keyword.leads_of_spells hw⟩),
    breakOff_pass hp (Nat.le_of_eq (Text.length_eq_of_sameLetters hw))]

end Cursor

theorem Cursor.Next.readOpenBrace (h : c.Next ['\x7b']) : readOpenBrace c = .ok c.pass :=
  h.requireKind _ rfl

/-! ## 2. Projections -/

namespace Projection

theorem readQuantifier?_feeds {q : Option SetQuantifier} (hq : QuantifierFrom ws q)
    (h : c.Feeds ws c') (hfirst : q = none → ∀ t, c'.peek = some t → Unquantified t.text) :
    readQuantifier? c = (q, c') := by
  rw [readQuantifier?]
  cases hq with
  | omitted =>
    obtain rfl : c = c' := h
    rw [Cursor.eat?_eq_none fun t ht => (hfirst rfl t ht).1,
      Cursor.eat?_eq_none fun t ht => (hfirst rfl t ht).2]
  | distinct hk =>
    obtain ⟨hnext, rfl⟩ := h
    rw [hnext.eat?_spells hk]
  | reduced hk =>
    obtain ⟨hnext, rfl⟩ := h
    have hd : c.eat? .distinct = none := hnext.eat?_eq_none (Keyword.spells_eq_false hk (by decide))
    rw [hd, hnext.eat?_spells hk]

theorem isProjected_of_projected {t : Token} (hk : t.kind = TokenKind.classify t.text)
    (h : Projected t.text) : isProjected t = true := by
  obtain ⟨h1, h2, h3, h4⟩ := h
  simp only [isProjected, Bool.not_eq_true', Bool.or_eq_false_iff, beq_eq_false_iff_ne, ne_eq, hk,
    Text.classify_eq_openBrace, Text.classify_eq_closeBrace]
  exact ⟨⟨⟨h1, h2⟩, h3⟩, h4⟩

/-- A run of projected tokens is taken up to a token that is not projected. -/
theorem takeRun_feeds (hws : ∀ p ∈ ws, Projected p) (h : c.Feeds ws c') (hnext : c'.Next w)
    (hend : ¬ Projected w) :
    (c.takeRun isProjected).1.map Token.text = ws ∧ (c.takeRun isProjected).2 = c' := by
  induction ws generalizing c with
  | nil =>
    obtain rfl : c = c' := h
    obtain ⟨t, hp, rfl, hk⟩ := hnext
    rw [Cursor.takeRun]
    split
    · next u hu =>
      obtain rfl := Option.some.inj (hp.symm.trans hu)
      rw [if_neg fun ha => hend (projected_of_isProjected hk ha)]
      exact ⟨rfl, rfl⟩
    · exact ⟨rfl, rfl⟩
  | cons p ps ih =>
    obtain ⟨⟨t, hp, rfl, hk⟩, h⟩ := h
    obtain ⟨ih₁, ih₂⟩ := ih (fun q hq => hws q (List.mem_cons_of_mem _ hq)) h
    rw [Cursor.takeRun]
    split
    · next u hu =>
      obtain rfl := Option.some.inj (hp.symm.trans hu)
      rw [if_pos (isProjected_of_projected hk (hws t.text (by simp)))]
      exact ⟨by rw [List.map_cons, ih₁], ih₂⟩
    · next hu =>
      rw [hp] at hu
      nomatch hu

end Projection

theorem not_projected_spells {w : Text} {k : Keyword} (h : k.spells w = true)
    (hk : k = .fromClause ∨ k = .whereClause) : ¬ Projected w := by
  rintro ⟨-, -, hfrom, hwhere⟩
  rcases hk with rfl | rfl
  · rw [h] at hfrom
    nomatch hfrom
  · rw [Keyword.leads_of_spells h] at hwhere
    nomatch hwhere

theorem spells_angled (k : Keyword) (iri : Text) : k.spells (Text.angled iri) = false := by
  rw [← Bool.not_eq_true]
  intro hs
  exact absurd (Keyword.word_of_spells hs '<' (by simp [Text.angled])) (by decide)

theorem readDataset?_feeds {d : Option (Text × Bool)} (hd : DatasetFrom ws d) (h : c.Feeds ws c')
    (hno : ∀ t, c'.peek = some t → Keyword.fromClause.spells t.text = false) :
    readDataset? c = .ok (d, c') := by
  -- Whether NAMED stands there is asked at the cursor behind FROM.
  have hclause : ∀ {isNamed : Bool} {iri : Text} {c₁ c₂ : Cursor}, c.eat? .fromClause = some c₁ →
      c₁.atKeyword .named = isNamed → c₁.skip .named = c₂ → c₂.Next (Text.angled iri) →
      readDataset? c = .ok (some (iri, isNamed), c₂.pass) := by
    rintro isNamed iri c₁ c₂ hfrom rfl rfl hiri
    rw [readDataset?, hfrom]
    show ((c₁.skip .named).requireIri >>= fun r =>
      pure (some (r.1, c₁.atKeyword .named), r.2)) = _
    rw [hiri.requireIri]
    rfl
  cases hd with
  | omitted =>
    obtain rfl : c = c' := h
    rw [readDataset?, Cursor.eat?_eq_none hno]
    rfl
  | plain hf =>
    obtain ⟨hfrom, hiri, rfl⟩ := h
    have hnamed : c.pass.atKeyword .named = false := hiri.atKeyword_eq.trans (spells_angled _ _)
    refine hclause (hfrom.eat?_spells hf) hnamed ?_ hiri
    rw [Cursor.skip, Cursor.eat?, hnamed]
    rfl
  | named hf hn =>
    obtain ⟨hfrom, hnamed, hiri, rfl⟩ := h
    refine hclause (hfrom.eat?_spells hf) (hnamed.atKeyword_eq.trans hn) ?_ hiri
    rw [Cursor.skip, hnamed.eat?_spells hn]
    rfl

namespace Projection

theorem readWhere_feeds (hasGraph : Bool) (hw : WhereFrom ws) (h : c.Feeds (ws ++ [['\x7b']]) c') :
    readWhere hasGraph c = .ok c' := by
  rw [readWhere]
  cases hw with
  | omitted =>
    obtain ⟨hbrace, rfl⟩ := h
    have hat : c.atKind .openBrace = true := by
      obtain ⟨t, hp, -, hk⟩ := hbrace
      rw [Cursor.atKind, hp]
      exact beq_iff_eq.2 hk
    rw [hbrace.eatGlued?_eq_none (by decide)]
    dsimp only
    rw [if_pos hat, hbrace.readOpenBrace]
  | word hk =>
    obtain ⟨hwhere, hbrace, rfl⟩ := h
    rw [hwhere.eatGlued?_spells hk]
    exact hbrace.readOpenBrace

/-- The token behind what is projected ends it. -/
theorem exists_next_of_where {ds vs : List Text} {d : Option (Text × Bool)} (hd : DatasetFrom ds d)
    (hw : WhereFrom vs) (h : c.Feeds (ds ++ (vs ++ [['\x7b']])) c') :
    ∃ w, c.Next w ∧ ¬ Projected w := by
  cases hd with
  | omitted =>
    cases hw with
    | omitted => exact ⟨_, h.1, fun hp => hp.1 rfl⟩
    | word hk => exact ⟨_, h.1, not_projected_spells hk (.inr rfl)⟩
  | plain hf => exact ⟨_, h.1, not_projected_spells hf (.inl rfl)⟩
  | named hf => exact ⟨_, h.1, not_projected_spells hf (.inl rfl)⟩

theorem read_feeds {inBlock : Bool} {p : Projection} (hp : ProjectionFrom inBlock ws p)
    (h : c.Feeds (ws ++ [['\x7b']]) c') : read inBlock c = .ok (p, c') := by
  cases hp with
  | @mk qs ps ds vs quantifier dataset hq hne hps hfirst hd hw =>
    simp only [List.append_assoc] at h
    obtain ⟨v, ps, rfl⟩ := List.exists_cons_of_ne_nil hne
    obtain ⟨c₁, hquant, h⟩ := h.append
    obtain ⟨c₂, hrun, h⟩ := h.append
    obtain ⟨w, hnext, hend⟩ := exists_next_of_where hd hw h
    obtain ⟨c₃, hdataset, h⟩ := h.append
    have hfrom : ∀ t, c₃.peek = some t → Keyword.fromClause.spells t.text = false := by
      cases hw with
      | omitted => exact h.1.forall_not_spells (by decide)
      | word hk => exact h.1.forall_not_spells (Keyword.spells_eq_false hk (by decide))
    -- The run ends where FROM, WHERE or the brace stands, so the greedy loop takes no more than it.
    obtain ⟨htexts, hcursor⟩ := takeRun_feeds hps hrun hnext hend
    have hempty : (c₁.takeRun isProjected).1.isEmpty = false := by
      rw [← Bool.not_eq_true, List.isEmpty_iff, ← List.map_eq_nil_iff (f := Token.text), htexts]
      exact List.cons_ne_nil _ _
    rw [read, readQuantifier?_feeds hq hquant fun hnone => hrun.1.forall_peek (hfirst hnone v rfl)]
    dsimp only
    rw [hempty, if_neg (by decide), hcursor, readDataset?_feeds hd hdataset hfrom]
    show (readWhere _ c₃ >>= fun c => pure (_, c)) = _
    rw [readWhere_feeds _ hw h, htexts]
    rfl

end Projection

/-! ## 3. Solution modifiers -/

namespace Modifier

/-- True of tokens that begin no solution modifier. -/
def Ends (w : Text) : Prop :=
  Keyword.limit.spells w = false ∧ Keyword.offset.spells w = false ∧
    Keyword.group.spells w = false ∧ Keyword.order.spells w = false

theorem read?_feeds (hms : IsModifier ws) (h : c.Feeds ws c') :
    read? c = .ok (some (Text.spaced ws, c')) := by
  rw [read?]
  -- Its first word tells which modifier it is, since no word spells two keywords.
  cases hms with
  | limit hk =>
    obtain ⟨⟨t, hp, rfl, -⟩, ⟨u, hu, rfl, -⟩, rfl⟩ := h
    rw [hp]
    dsimp only
    rw [if_pos (by rw [hk, Bool.true_or]), Cursor.expect_of_peek hu]
    rfl
  | offset hk =>
    obtain ⟨⟨t, hp, rfl, -⟩, ⟨u, hu, rfl, -⟩, rfl⟩ := h
    rw [hp]
    dsimp only
    rw [if_pos (by rw [hk, Bool.or_true]), Cursor.expect_of_peek hu]
    rfl
  | group hk hby hx =>
    obtain ⟨⟨t, hp, rfl, -⟩, ⟨u, hu, rfl, -⟩, ⟨v, hv, rfl, -⟩, rfl⟩ := h
    rw [hp]
    dsimp only
    rw [if_neg (by rw [Keyword.spells_eq_false hk (by decide),
      Keyword.spells_eq_false hk (by decide)]; decide), if_pos hk, Cursor.require_of_peek hu hby]
    have hx : (v.text.head? == some '?') = true := beq_iff_eq.2 hx
    show (c.pass.pass.require _ (·.text.head? == some '?') >>= _) = _
    rw [Cursor.require_of_peek hv hx]
    rfl
  | order hk hby =>
    obtain ⟨⟨t, hp, rfl, -⟩, ⟨u, hu, rfl, -⟩, ⟨v, hv, rfl, -⟩, rfl⟩ := h
    rw [hp]
    dsimp only
    rw [if_neg (by rw [Keyword.spells_eq_false hk (by decide),
      Keyword.spells_eq_false hk (by decide)]; decide),
      if_neg (by rw [Keyword.spells_eq_false hk (by decide)]; decide), if_pos hk,
      Cursor.require_of_peek hu hby]
    show (c.pass.pass.expect _ >>= _) = _
    rw [Cursor.expect_of_peek hv]
    rfl

theorem read?_eq_none (hends : ∀ t, c.peek = some t → Ends t.text) : read? c = .ok none := by
  rw [read?]
  split
  · rfl
  · next t hp =>
    obtain ⟨h1, h2, h3, h4⟩ := hends t hp
    rw [h1, h2, h3, h4]
    rfl

/-- Modifiers are read up to a token that begins no other. -/
theorem readAll_feeds {mss : List (List Text)} (hms : ∀ ms ∈ mss, IsModifier ms)
    (h : c.Feeds mss.flatten c') (hends : ∀ t, c'.peek = some t → Ends t.text) :
    readAll c = .ok (mss.map Text.spaced, c') := by
  -- The loop adds to what was read before, so the induction is on any such beginning.
  suffices hstep : ∀ before : List Text, Cursor.repeatStep step step_productive before c
      = .ok (before ++ mss.map Text.spaced, c') from hstep []
  induction mss generalizing c with
  | nil =>
    intro before
    obtain rfl : c = c' := h
    rw [Cursor.repeatStep_eq, step, read?_eq_none hends, List.map_nil, List.append_nil]
    rfl
  | cons ms mss ih =>
    intro before
    rw [List.flatten_cons] at h
    obtain ⟨c₁, hread, h⟩ := h.append
    rw [Cursor.repeatStep_eq, step, read?_feeds (hms ms (by simp)) hread]
    show Cursor.repeatStep step step_productive (before ++ [Text.spaced ms]) c₁ = _
    rw [ih (fun l hl => hms l (List.mem_cons_of_mem _ hl)) h, List.append_assoc]
    rfl

end Modifier

/-! ## 4. Nested blocks -/

namespace Head

theorem ends_closeBrace : Modifier.Ends ['\x7d'] := ⟨by decide, by decide, by decide, by decide⟩

/-- What comes next begins a nested block. -/
def AtNested (c : Cursor) : Prop := ∃ t, c.peek = some t ∧ t.kind ≠ .closeBrace ∧ begins t = true

theorem atNested_of_next (h : c.Next w)
    (hw : w = ['\x7b'] ∨ Keyword.graph.leads w = true ∨ Keyword.optional.leads w = true) :
    AtNested c := by
  obtain ⟨t, hp, rfl, hk⟩ := h
  refine ⟨t, hp, ?_, ?_⟩
  · rw [hk, ne_eq, Text.classify_eq_closeBrace]
    intro hb
    rw [hb] at hw
    revert hw
    decide
  · rw [begins, hk, Bool.or_eq_true, Bool.or_eq_true, beq_iff_eq, Text.classify_eq_openBrace]
    rcases hw with hw | hw | hw
    · exact .inl (.inl hw)
    · exact .inl (.inr hw)
    · exact .inr hw

theorem readNested_of_not_select (h : atSubSelect c = false) : readNested c = readGroup c := by
  rw [readNested, if_neg (by rw [h]; decide)]

theorem atSubSelect_eq_false (h : c.Next w) (hno : w = ['\x7b'] →
    ∀ t, c.pass.peek = some t → Keyword.select.spells t.text = false) : atSubSelect c = false := by
  rw [← Bool.not_eq_true, atSubSelect_eq_true]
  rintro ⟨t, u, hp, hk, hu, hs⟩
  obtain ⟨t', hp', rfl, hk'⟩ := h
  obtain rfl := Option.some.inj (hp.symm.trans hp')
  rw [hk', Text.classify_eq_openBrace] at hk
  rw [hno hk u hu] at hs
  nomatch hs

/-- The word GRAPH does not begin with OPTIONAL, which is longer. -/
theorem not_leads_optional (hw : Keyword.graph.spells w = true) :
    Keyword.optional.leads w = false := by
  rw [← Bool.not_eq_true, Keyword.leads, Bool.and_eq_true]
  rintro ⟨hsame, -⟩
  have hlen := Text.length_eq_of_sameLetters hsame
  have hlen' : w.length = 5 := Text.length_eq_of_sameLetters hw
  rw [List.length_take, hlen'] at hlen
  exact absurd hlen (by decide)

/-- A block that begins with a keyword is no sub-select. -/
theorem atSubSelect_of_spells {k : Keyword} (h : c.Next w) (hk : k.spells w = true) :
    atSubSelect c = false := by
  refine atSubSelect_eq_false h ?_
  rintro rfl
  exact absurd (Keyword.word_of_spells hk _ List.mem_cons_self) (by decide)

/-- The head of a nested block is read from its tokens, but for its solution modifiers. A plain
group is told from a sub-select by the token behind its brace. -/
theorem readNested_feeds {head : Head} (hhead : HeadFrom ws head)
    (h : c.Feeds (ws ++ [['\x7b']]) c') (hselect : head = .group none false →
      ∀ t, c'.peek = some t → Keyword.select.spells t.text = false) :
    AtNested c ∧ readNested c = .ok (head, c') := by
  cases hhead with
  | group =>
    obtain ⟨hbrace, rfl⟩ := h
    refine ⟨atNested_of_next hbrace (.inl rfl), ?_⟩
    rw [readNested_of_not_select (atSubSelect_eq_false hbrace fun _ => hselect rfl), readGroup,
      hbrace.eatGlued?_eq_none (by decide)]
    dsimp only
    rw [hbrace.eatGlued?_eq_none (by decide)]
    dsimp only
    rw [hbrace.readOpenBrace]
    rfl
  | @optional k hk =>
    obtain ⟨hoptional, hbrace, rfl⟩ := h
    refine ⟨atNested_of_next hoptional (.inr (.inr (Keyword.leads_of_spells hk))), ?_⟩
    rw [readNested_of_not_select (atSubSelect_of_spells hoptional hk), readGroup,
      hoptional.eatGlued?_spells hk]
    dsimp only
    rw [hbrace.readOpenBrace]
    rfl
  | @graph k iri hk =>
    obtain ⟨hgraph, hiri, hbrace, rfl⟩ := h
    refine ⟨atNested_of_next hgraph (.inr (.inl (Keyword.leads_of_spells hk))), ?_⟩
    rw [readNested_of_not_select (atSubSelect_of_spells hgraph hk), readGroup,
      hgraph.eatGlued?_eq_none (not_leads_optional hk)]
    dsimp only
    rw [hgraph.eatGlued?_spells hk]
    dsimp only
    rw [hiri.requireIri]
    show (readOpenBrace c.pass.pass >>= _) = _
    rw [hbrace.readOpenBrace]
    rfl
  | select hk hp =>
    obtain ⟨hbrace, hword, h⟩ := h
    refine ⟨atNested_of_next hbrace (.inl rfl), ?_⟩
    -- The brace and the keyword are what a sub-select is told from a group by.
    have hat : atSubSelect c = true := by
      obtain ⟨t, ht, -, htk⟩ := hbrace
      obtain ⟨u, hu, rfl, -⟩ := hword
      exact atSubSelect_eq_true.2 ⟨t, u, ht, htk, hu, hk⟩
    rw [readNested, if_pos hat, Projection.read_feeds hp h]
    rfl

/-- What closes a projection is read from its tokens. In a block the second brace ends it. -/
theorem closeProjection_feeds {p : Projection} {mss : List (List Text)}
    (hms : ∀ ms ∈ mss, IsModifier ms)
    (h : c.Feeds (mss.flatten ++ if p.inBlock then [['\x7d']] else []) c')
    (hends : p.inBlock = false → ∀ t, c'.peek = some t → Modifier.Ends t.text) :
    closeProjection p c = .ok ({ p with modifiers := mss.map Text.spaced }, c') := by
  obtain ⟨c₁, hall, h⟩ := h.append
  rw [closeProjection]
  cases hin : p.inBlock with
  | false =>
    rw [hin, if_neg (by decide)] at h
    obtain rfl : c₁ = c' := h
    rw [Modifier.readAll_feeds hms hall (hends hin)]
    rfl
  | true =>
    rw [hin, if_pos rfl] at h
    obtain ⟨hbrace, rfl⟩ := h
    rw [Modifier.readAll_feeds hms hall (hbrace.forall_peek ends_closeBrace)]
    show (c₁.requireKind .endOfSubSelect .closeBrace >>= fun c => pure (_, c)) = _
    rw [show c₁.requireKind .endOfSubSelect .closeBrace = .ok c₁.pass from hbrace.requireKind _ rfl]
    rfl

/-- What closes a nested block is read from its tokens. -/
theorem close_feeds {hs vs : List Text} {head closed : Head} (hhead : HeadFrom hs head)
    (hclose : CloseFrom head vs closed) (h : c.Feeds vs c') :
    head.close c = .ok (closed, c') := by
  cases hclose with
  | group =>
    obtain rfl : c = c' := h
    rfl
  | pattern | ask | describe | construct => nomatch hhead
  | @select p mss hms =>
    -- A nested projection stands in a block of its own.
    have hin : p.inBlock = true := by
      cases hhead with
      | select _ hp => cases hp; rfl
    have hclose := closeProjection_feeds hms h fun hno => by
      rw [hin] at hno
      nomatch hno
    rw [close, hclose]
    rfl

end Head

/-! ## 5. Declarations -/

namespace Draft

/-- The step that reads a clause whose keyword comes next. -/
theorem step_of_next {cfg : Config} {d : Draft} {k : Keyword} (hd : d.complete = false)
    (h : c.Next w) (hw : k.spells w = true) :
    step cfg d c = readClause cfg k d c >>= fun r => pure (some r) := by
  obtain ⟨t, hp, rfl, -⟩ := h
  exact step_of_keyword hd hp (Keyword.ofText?_eq_some.2 hw)

/-- The label is read up to its last colon, or up to the colon behind it. -/
theorem readPrefix_at {label iri : Text}
    (h : c.Feeds [label ++ [':'], Text.angled iri] c') :
    readPrefix c = .ok (label, iri, c') := by
  obtain ⟨⟨t, hp, ht, -⟩, hiri, rfl⟩ := h
  rw [readPrefix, Cursor.expect_of_peek hp]
  dsimp only [bind, Except.bind]
  rw [ht, List.getLast?_concat, if_pos rfl, hiri.requireIri, List.dropLast_concat]
  rfl

theorem readPrefix_apart {label iri : Text} (hlast : label.getLast? ≠ some ':')
    (h : c.Feeds [label, [':'], Text.angled iri] c') : readPrefix c = .ok (label, iri, c') := by
  obtain ⟨⟨t, hp, ht, -⟩, ⟨u, hp₁, hu, -⟩, hiri, rfl⟩ := h
  rw [readPrefix, Cursor.expect_of_peek hp]
  dsimp only [bind, Except.bind]
  rw [ht, if_neg hlast, Cursor.require_of_peek hp₁ (by rw [hu]; rfl)]
  dsimp only
  rw [hiri.requireIri]
  rfl

end Draft

end SparqlTree
