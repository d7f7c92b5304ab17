import SparqlTree.Grammar.Body
import SparqlTree.Proofs.Cursor.Lookahead
import SparqlTree.Proofs.Cursor.View

/-!
# What a body consumes

The grammar of bodies over lists of tokens, line breaks left out. `Derives` relates the tokens of a
body to its items, one rule for each way in which reading goes on, and every successful reading of
a body has such a derivation (`readItems_sound`). The rules are stricter than they look: no word
holds `<` or a brace, so a keyword is never cut from what follows it where reading succeeds.
-/

namespace SparqlTree

open Text (isBreak IsToken)

/-- DISTINCT or REDUCED, or neither. -/
inductive QuantifierFrom : List Text → Option SetQuantifier → Prop
  | omitted : QuantifierFrom [] none
  | distinct {w : Text} : Keyword.distinct.spells w = true → QuantifierFrom [w] (some .distinct)
  | reduced {w : Text} : Keyword.reduced.spells w = true → QuantifierFrom [w] (some .reduced)

/-- FROM or FROM NAMED with a graph, or neither. -/
inductive DatasetFrom : List Text → Option (Text × Bool) → Prop
  | omitted : DatasetFrom [] none
  | plain {f iri : Text} : Keyword.fromClause.spells f = true →
    DatasetFrom [f, Text.angled iri] (some (iri, false))
  | named {f n iri : Text} : Keyword.fromClause.spells f = true → Keyword.named.spells n = true →
    DatasetFrom [f, n, Text.angled iri] (some (iri, true))

/-- WHERE, which may be left out. -/
inductive WhereFrom : List Text → Prop
  | omitted : WhereFrom []
  | word {w : Text} : Keyword.whereClause.spells w = true → WhereFrom [w]

/-- True of tokens that can stand in a projection. -/
def Projected (w : Text) : Prop :=
  w ≠ ['\x7b'] ∧ w ≠ ['\x7d'] ∧ Keyword.fromClause.spells w = false ∧
    Keyword.whereClause.leads w = false

/-- True of tokens that a projection without quantifier can begin with. -/
def Unquantified (w : Text) : Prop :=
  Keyword.distinct.spells w = false ∧ Keyword.reduced.spells w = false

/-- What stands between SELECT or DESCRIBE and the opening brace. -/
inductive ProjectionFrom (inBlock : Bool) : List Text → Projection → Prop
  | mk {qs ps ds vs : List Text} {quantifier : Option SetQuantifier}
    {dataset : Option (Text × Bool)} : QuantifierFrom qs quantifier → ps ≠ [] →
    (∀ p ∈ ps, Projected p) → (quantifier = none → ∀ p ∈ ps.head?, Unquantified p) →
    DatasetFrom ds dataset → WhereFrom vs →
    ProjectionFrom inBlock (qs ++ ps ++ ds ++ vs)
      { quantifier, projected := Text.spaced ps, graph := dataset.map Prod.fst,
        fromNamed := dataset.any Prod.snd, inBlock }

/-- The tokens of one solution modifier. -/
inductive IsModifier : List Text → Prop
  | limit {k v : Text} : Keyword.limit.spells k = true → IsModifier [k, v]
  | offset {k v : Text} : Keyword.offset.spells k = true → IsModifier [k, v]
  | group {k b x : Text} : Keyword.group.spells k = true → Keyword.by_.spells b = true →
    x.head? = some '?' → IsModifier [k, b, x]
  | order {k b x : Text} : Keyword.order.spells k = true → Keyword.by_.spells b = true →
    IsModifier [k, b, x]

/-- Tokens before the body of a nested block, its opening brace apart. -/
inductive HeadFrom : List Text → Head → Prop
  | group : HeadFrom [] (.group none false)
  | optional {k : Text} : Keyword.optional.spells k = true → HeadFrom [k] (.group none true)
  | graph {k iri : Text} : Keyword.graph.spells k = true →
    HeadFrom [k, Text.angled iri] (.group (some iri) false)
  | select {k : Text} {ws : List Text} {p : Projection} : Keyword.select.spells k = true →
    ProjectionFrom true ws p → HeadFrom (['\x7b'] :: k :: ws) (.select p)

/-- Tokens behind the closing brace of a body that belong to its block. -/
inductive CloseFrom : Head → List Text → Head → Prop
  | group {graph : Option Text} {optional : Bool} :
    CloseFrom (.group graph optional) [] (.group graph optional)
  | pattern : CloseFrom .pattern [] .pattern
  | ask : CloseFrom .ask [] .ask
  | select {p : Projection} {mss : List (List Text)} : (∀ ms ∈ mss, IsModifier ms) →
    CloseFrom (.select p) (mss.flatten ++ if p.inBlock then [['\x7d']] else [])
      (.select { p with modifiers := mss.map Text.spaced })
  | describe {p : Projection} {mss : List (List Text)} : (∀ ms ∈ mss, IsModifier ms) →
    CloseFrom (.describe p) (mss.flatten ++ if p.inBlock then [['\x7d']] else [])
      (.describe { p with modifiers := mss.map Text.spaced })
  | construct {template : Text} {before : List Text} {mss : List (List Text)} :
    (∀ ms ∈ mss, IsModifier ms) →
    CloseFrom (.construct template before) mss.flatten
      (.construct template (mss.map Text.spaced))

/-- True of texts that consist of line breaks. -/
def IsBreaks (b : Text) : Prop := ∀ c ∈ b, c = '\n' ∨ c = '\r'

theorem IsBreaks.all {b : Text} (hb : IsBreaks b) : AllBreaks (b.map fun c => [c]) := by
  intro w hw
  obtain ⟨c, hc, rfl⟩ := List.mem_map.1 hw
  rcases hb c hc with rfl | rfl <;> rfl

/-- True of words that are text where they stand: they open no block and end no statement. -/
structure IsItem (style : BodyStyle) (w : Text) : Prop where
  noBrace : w ≠ ['\x7b'] ∧ w ≠ ['\x7d']
  noGraph : Keyword.graph.leads w = false
  noOptional : Keyword.optional.leads w = false
  noStop : style = .segmented → w.head? ≠ some '.'

/-- True of the tokens behind the opening brace of a block unless the block is a plain group and
they begin with SELECT, as those of a sub-select do. -/
def NotSelect (head : Head) (us : List Text) : Prop :=
  head = .group none false → ∀ w ∈ us.head?, Keyword.select.spells w = false

/-- The tokens of a body, its closing brace apart, and the items that are read from them. Blocks
stand less than `limit` deep. -/
inductive Derives (limit : Nat) : BodyStyle → Nat → List Text → List Item → Prop
  | nil {style : BodyStyle} {depth : Nat} : Derives limit style depth [] []
  | word {style : BodyStyle} {depth : Nat} {ws : List Text} {items : List Item} {b w : Text} :
    IsBreaks b → isBreak w = false → IsItem style w → Derives limit style depth ws items →
    Derives limit style depth (w :: ws) (.word b w :: items)
  | stop {depth : Nat} {ws : List Text} {items : List Item} :
    Derives limit .segmented depth ws items →
    Derives limit .segmented depth (['.'] :: ws) (.stop :: items)
  | nested {style : BodyStyle} {depth : Nat} {hs us vs ws : List Text} {head closed : Head}
    {inner items : List Item} : depth < limit → HeadFrom hs head → NotSelect head us →
    Derives limit head.bodyStyle (depth + 1) us inner → CloseFrom head vs closed →
    Derives limit style depth ws items →
    Derives limit style depth (hs ++ ['\x7b'] :: us ++ ['\x7d'] :: vs ++ ws)
      (.nested (.block closed (Statement.ofItems inner)) :: items)

/-- What holds of a nested block and of what stands behind it holds of the tokens in its body, of
those behind the block, and of those around the body. -/
theorem forall_of_nested {P : Text → Prop} {hs us vs ws : List Text}
    (h : ∀ w ∈ hs ++ ['\x7b'] :: us ++ ['\x7d'] :: vs ++ ws, P w) :
    (∀ w ∈ us, P w) ∧ (∀ w ∈ ws, P w) ∧ ∀ w ∈ hs ++ vs, P w := by
  refine ⟨fun w hw => h w (by simp [hw]), fun w hw => h w (by simp [hw]), fun w hw => h w ?_⟩
  rcases List.mem_append.1 hw with hw | hw <;> simp [hw]

/-! ## 1. Single tokens -/

variable {c c' : Cursor}

open Cursor (Passed Took Lexed)

theorem Cursor.Lexed.expect_eq_ok {e : Expectation} {t : Token} (hc : c.Lexed)
    (h : c.expect e = .ok (t, c')) :
    c.Took [t.text] c' ∧ t.kind = TokenKind.classify t.text := by
  obtain ⟨hp, rfl⟩ := Cursor.expect_eq_ok h
  exact ⟨hc.took_pass hp, (hc.of_peek hp).2⟩

theorem Cursor.Lexed.require_eq_ok {e : Expectation} {accept : Token → Bool} {t : Token}
    (hc : c.Lexed) (h : c.require e accept = .ok (t, c')) :
    c.Took [t.text] c' ∧ accept t = true := by
  obtain ⟨hp, rfl, ha⟩ := Cursor.require_eq_ok h
  exact ⟨hc.took_pass hp, ha⟩

theorem Token.iri?_eq_some {t : Token} {iri : Text} (h : t.iri? = some iri) :
    t.text = Text.angled iri := by
  unfold Token.iri? at h
  split at h
  · next rest htext =>
    split at h
    · next hlast =>
      obtain rfl := Option.some.inj h
      obtain ⟨init, rfl⟩ := List.getLast?_eq_some_iff.1 hlast
      rw [htext, List.dropLast_concat]
      rfl
    · nomatch h
  · nomatch h

theorem took_requireIri {iri : Text} (hc : c.Lexed) (h : c.requireIri = .ok (iri, c')) :
    c.Took [Text.angled iri] c' := by
  obtain ⟨t, hp, rfl, hi⟩ := Cursor.requireIri_eq_ok h
  rw [← Token.iri?_eq_some hi]
  exact hc.took_pass hp

theorem took_requireBrace {e : Expectation} (hc : c.Lexed)
    (h : c.requireKind e .closeBrace = .ok c') : c.Took [['\x7d']] c' := by
  obtain ⟨t, hp, rfl, hk⟩ := Cursor.requireKind_eq_ok h
  rw [(hc.of_peek hp).2, Text.classify_eq_closeBrace] at hk
  rw [← hk]
  exact hc.took_pass hp

theorem took_readOpenBrace (hc : c.Lexed) (h : readOpenBrace c = .ok c') :
    c.Took [['\x7b']] c' := by
  obtain ⟨t, hp, rfl, hk⟩ := Cursor.requireKind_eq_ok h
  rw [(hc.of_peek hp).2, Text.classify_eq_openBrace] at hk
  rw [← hk]
  exact hc.took_pass hp

theorem took_eat? {k : Keyword} (hc : c.Lexed) (h : c.eat? k = some c') :
    ∃ w, k.spells w = true ∧ c.Took [w] c' := by
  obtain ⟨t, hp, ht, rfl⟩ := Cursor.eat?_eq_some.1 h
  exact ⟨t.text, ht, hc.took_pass hp⟩

theorem took_skip (hc : c.Lexed) (k : Keyword) :
    ∃ ws, c.Took ws (c.skip k) ∧ ∀ w ∈ ws, k.spells w = true := by
  rw [Cursor.skip]
  cases h : c.eat? k with
  | none => exact ⟨[], hc.took, List.forall_mem_nil _⟩
  | some c₁ =>
    obtain ⟨w, hw, hp⟩ := took_eat? hc h
    exact ⟨[w], hp, List.forall_mem_singleton.2 hw⟩

/-- Where a brace is due no parenthesis stands. -/
theorem not_paren_of_readOpenBrace (hc : c.Lexed) (h : readOpenBrace c = .ok c') :
    ¬ ∃ t, c.peek = some t ∧ t.text.head? = some '(' := by
  rintro ⟨t, hp, ht⟩
  obtain ⟨t', hp', rfl, hk⟩ := Cursor.requireKind_eq_ok h
  obtain rfl : t = t' := Option.some.inj (hp.symm.trans hp')
  rw [(hc.of_peek hp).2, Text.classify_eq_openBrace] at hk
  rw [hk] at ht
  nomatch ht

theorem not_paren_of_requireIri {iri : Text} (h : c.requireIri = .ok (iri, c')) :
    ¬ ∃ t, c.peek = some t ∧ t.text.head? = some '(' := by
  rintro ⟨t, hp, ht⟩
  obtain ⟨t', hp', rfl, hi⟩ := Cursor.requireIri_eq_ok h
  obtain rfl : t = t' := Option.some.inj (hp.symm.trans hp')
  rw [Token.iri?_eq_some hi] at ht
  nomatch ht

theorem lexed_eatGlued? {k : Keyword} (hc : c.Lexed) (h : c.eatGlued? k = some c') : c'.Lexed := by
  unfold Cursor.eatGlued? at h
  split at h
  · obtain rfl := Option.some.inj h
    exact hc.pass.breakOff k.word_name
  · cases h

/-- A keyword before something other than a parenthesis is a token of its own. -/
theorem took_eatGlued? {k : Keyword} (hc : c.Lexed) (h : c.eatGlued? k = some c')
    (hno : ¬ ∃ t, c'.peek = some t ∧ t.text.head? = some '(') :
    ∃ w, k.spells w = true ∧ c.Took [w] c' := by
  rcases hc.eatGlued?_eq_some h with ⟨t, hp, ht, rfl⟩ | hparen
  · exact ⟨t.text, ht, hc.took_pass hp⟩
  · exact absurd hparen hno

/-- A keyword that may be glued to the brace behind it is a token of its own. -/
theorem took_gluedBrace {k : Keyword} {c₁ : Cursor} (hc : c.Lexed) (h₁ : c.eatGlued? k = some c₁)
    (h : readOpenBrace c₁ = .ok c') : ∃ w, k.spells w = true ∧ c.Took [w, ['\x7b']] c' := by
  have hc₁ := lexed_eatGlued? hc h₁
  obtain ⟨w, hw, hp⟩ := took_eatGlued? hc h₁ (not_paren_of_readOpenBrace hc₁ h)
  exact ⟨w, hw, hp.trans (took_readOpenBrace hc₁ h)⟩

/-- The keyword before the brace may be left out. -/
theorem took_skipGlued_brace {k : Keyword} (hc : c.Lexed)
    (h : readOpenBrace (c.skipGlued k) = .ok c') :
    ∃ ws, c.Took (ws ++ [['\x7b']]) c' ∧ (ws = [] ∨ ∃ w, ws = [w] ∧ k.spells w = true) := by
  rw [Cursor.skipGlued] at h
  cases h₁ : c.eatGlued? k with
  | none =>
    rw [h₁] at h
    exact ⟨[], took_readOpenBrace hc h, .inl rfl⟩
  | some c₁ =>
    rw [h₁] at h
    obtain ⟨w, hw, hp⟩ := took_gluedBrace hc h₁ h
    exact ⟨[w], hp, .inr ⟨w, rfl, hw⟩⟩

/-! ## 2. Heads -/

theorem took_readDataset? {d : Option (Text × Bool)} (hc : c.Lexed)
    (h : readDataset? c = .ok (d, c')) : ∃ ws, c.Took ws c' ∧ DatasetFrom ws d := by
  unfold readDataset? at h
  split at h
  · obtain ⟨rfl, rfl⟩ := Prod.mk.inj (Except.ok.inj h)
    exact ⟨[], hc.took, .omitted⟩
  · next c₁ h₁ =>
    obtain ⟨f, hf, hp₁⟩ := took_eat? hc h₁
    obtain ⟨⟨iri, c₂⟩, h₂, h⟩ := bind_eq_ok.1 h
    obtain ⟨rfl, rfl⟩ := Prod.mk.inj (Except.ok.inj h)
    rw [Cursor.skip, Cursor.eat?] at h₂
    -- Whether NAMED stands there is asked at the cursor behind FROM.
    by_cases hn : c₁.atKeyword .named = true
    · obtain ⟨t, hp, ht⟩ := Cursor.atKeyword_eq_true.1 hn
      rw [if_pos hn] at h₂
      have hp₂ := hp₁.trans (hp₁.lexed.took_pass hp)
      refine ⟨_, hp₂.trans (took_requireIri hp₂.lexed h₂), ?_⟩
      rw [hn]
      exact .named hf ht
    · rw [if_neg hn] at h₂
      refine ⟨_, hp₁.trans (took_requireIri hp₁.lexed h₂), ?_⟩
      rw [Bool.not_eq_true] at hn
      rw [hn]
      exact .plain hf

namespace Projection

theorem took_readQuantifier? (hc : c.Lexed) :
    ∃ ws, c.Took ws (readQuantifier? c).2 ∧ QuantifierFrom ws (readQuantifier? c).1 ∧
      ((readQuantifier? c).1 = none →
        ∀ t, (readQuantifier? c).2.peek = some t → Unquantified t.text) := by
  rw [readQuantifier?]
  split
  · next c₁ h₁ =>
    obtain ⟨w, hw, hp⟩ := took_eat? hc h₁
    exact ⟨[w], hp, .distinct hw, fun h => nomatch h⟩
  · next hd =>
    split
    · next c₁ h₁ =>
      obtain ⟨w, hw, hp⟩ := took_eat? hc h₁
      exact ⟨[w], hp, .reduced hw, fun h => nomatch h⟩
    · next hr =>
      -- Neither keyword was there, so the next token is none of them.
      refine ⟨[], hc.took, .omitted, fun _ t ht => ⟨?_, ?_⟩⟩
      · rw [← Bool.not_eq_true]
        intro hs
        rw [Cursor.eat?_eq_some.2 ⟨t, ht, hs, rfl⟩] at hd
        nomatch hd
      · rw [← Bool.not_eq_true]
        intro hs
        rw [Cursor.eat?_eq_some.2 ⟨t, ht, hs, rfl⟩] at hr
        nomatch hr

theorem projected_of_isProjected {t : Token} (hk : t.kind = TokenKind.classify t.text)
    (h : isProjected t = true) : Projected t.text := by
  simp only [isProjected, Bool.not_eq_true', Bool.or_eq_false_iff, beq_eq_false_iff_ne, ne_eq, hk,
    Text.classify_eq_openBrace, Text.classify_eq_closeBrace] at h
  exact ⟨h.1.1.1, h.1.1.2, h.1.2, h.2⟩

theorem took_takeRun (hc : c.Lexed) :
    c.Took ((c.takeRun isProjected).1.map Token.text) (c.takeRun isProjected).2 ∧
      (∀ w ∈ (c.takeRun isProjected).1.map Token.text, Projected w) ∧
      ∀ t ∈ (c.takeRun isProjected).1.head?, c.peek = some t := by
  induction c using Cursor.size_induction with
  | ind c ih =>
    rw [Cursor.takeRun]
    -- The run ends at the first token that is not projected, or with the text.
    split
    · next t hp =>
      split
      · next ha =>
        have hpass := hc.took_pass hp
        obtain ⟨ih₁, ih₂, -⟩ := ih _ (Cursor.size_pass_lt hp) hpass.lexed
        refine ⟨hpass.trans ih₁, fun w hw => ?_, fun u hu => ?_⟩
        · rcases List.mem_cons.1 hw with rfl | hw
          · exact projected_of_isProjected (hc.of_peek hp).2 ha
          · exact ih₂ w hw
        · obtain rfl := Option.some.inj hu
          exact hp
      · exact ⟨hc.took, by simp, by simp⟩
    · exact ⟨hc.took, by simp, by simp⟩

theorem took_readWhere {hasGraph : Bool} (hc : c.Lexed) (h : readWhere hasGraph c = .ok c') :
    ∃ ws, c.Took (ws ++ [['\x7b']]) c' ∧ WhereFrom ws := by
  unfold readWhere at h
  split at h
  · next c₁ h₁ =>
    obtain ⟨w, hw, hp⟩ := took_gluedBrace hc h₁ h
    exact ⟨[w], hp, .word hw⟩
  · split at h
    · exact ⟨[], took_readOpenBrace hc h, .omitted⟩
    · nomatch h

theorem took_read {inBlock : Bool} {p : Projection} (hc : c.Lexed)
    (h : read inBlock c = .ok (p, c')) :
    ∃ ws, c.Took (ws ++ [['\x7b']]) c' ∧ ProjectionFrom inBlock ws p := by
  obtain ⟨qs, hq, hqf, hfirst⟩ := took_readQuantifier? hc
  obtain ⟨hr, hps, hpeek⟩ := took_takeRun hq.lexed
  unfold read at h
  dsimp only at h
  split at h
  · nomatch h
  · next hne =>
    obtain ⟨⟨d, c₂⟩, h₂, h⟩ := bind_eq_ok.1 h
    obtain ⟨c₃, h₃, h⟩ := bind_eq_ok.1 h
    obtain ⟨rfl, rfl⟩ := Prod.mk.inj (Except.ok.inj h)
    obtain ⟨ds, hd, hdf⟩ := took_readDataset? hr.lexed h₂
    obtain ⟨vs, hw, hwf⟩ := took_readWhere hd.lexed h₃
      -- The four parts of the head were consumed one behind the other.
    refine ⟨_, ?_, .mk hqf ?_ hps (fun hnone p hp => ?_) hdf hwf⟩
    · have hall := ((hq.trans hr).trans hd).trans hw
      rwa [← List.append_assoc] at hall
    · intro hnil
      rw [List.map_eq_nil_iff] at hnil
      rw [hnil] at hne
      exact hne rfl
    · rw [List.head?_map] at hp
      obtain ⟨t, ht, rfl⟩ := Option.map_eq_some_iff.1 hp
      exact hfirst hnone t (hpeek t ht)

end Projection

namespace Head

theorem took_readOptionalWhere (hc : c.Lexed) (h : readOptionalWhere c = .ok c') :
    ∃ ws, c.Took (ws ++ [['\x7b']]) c' ∧ WhereFrom ws := by
  obtain ⟨_, hp, rfl | ⟨w, rfl, hw⟩⟩ := took_skipGlued_brace hc h
  · exact ⟨[], hp, .omitted⟩
  · exact ⟨[w], hp, .word hw⟩

theorem took_readGroup {head : Head} (hc : c.Lexed) (h : readGroup c = .ok (head, c')) :
    ∃ ws, c.Took (ws ++ [['\x7b']]) c' ∧ HeadFrom ws head := by
  unfold readGroup at h
  split at h
  · next c₁ h₁ =>
    obtain ⟨c₂, h₂, h⟩ := bind_eq_ok.1 h
    obtain ⟨rfl, rfl⟩ := Prod.mk.inj (Except.ok.inj h)
    obtain ⟨w, hw, hp⟩ := took_gluedBrace hc h₁ h₂
    exact ⟨[w], hp, .optional hw⟩
  · split at h
    · next c₁ h₁ =>
      obtain ⟨⟨iri, c₂⟩, h₂, h⟩ := bind_eq_ok.1 h
      obtain ⟨c₃, h₃, h⟩ := bind_eq_ok.1 h
      obtain ⟨rfl, rfl⟩ := Prod.mk.inj (Except.ok.inj h)
      have hc₁ := lexed_eatGlued? hc h₁
      obtain ⟨w, hw, hp⟩ := took_eatGlued? hc h₁ (not_paren_of_requireIri h₂)
      have hp₂ := hp.trans (took_requireIri hc₁ h₂)
      exact ⟨[w, Text.angled iri], hp₂.trans (took_readOpenBrace hp₂.lexed h₃), .graph hw⟩
    · obtain ⟨c₂, h₂, h⟩ := bind_eq_ok.1 h
      obtain ⟨rfl, rfl⟩ := Prod.mk.inj (Except.ok.inj h)
      exact ⟨[], took_readOpenBrace hc h₂, .group⟩

/-- The token after the next one comes next once that one is consumed. -/
theorem peekNth_one (c : Cursor) : c.peekNth 1 = c.pass.peek := Cursor.peekNth_succ c 0

theorem atSubSelect_eq_true : atSubSelect c = true ↔
    ∃ t u, c.peek = some t ∧ t.kind = .openBrace ∧ c.pass.peek = some u ∧
      Keyword.select.spells u.text = true := by
  rw [atSubSelect, Bool.and_eq_true, Cursor.atKind, Option.any_eq_true, Option.any_eq_true,
    peekNth_one]
  constructor
  · rintro ⟨⟨t, hp, hk⟩, ⟨u, hu, hs⟩⟩
    exact ⟨t, u, hp, beq_iff_eq.1 hk, hu, hs⟩
  · rintro ⟨t, u, hp, hk, hu, hs⟩
    exact ⟨⟨t, hp, beq_iff_eq.2 hk⟩, ⟨u, hu, hs⟩⟩

/-- A plain group is read where no SELECT comes next in the braces. -/
theorem readGroup_plain (h : readGroup c = .ok (.group none false, c')) :
    c' = c.pass ∧ ∃ t, c.peek = some t ∧ t.kind = .openBrace := by
  unfold readGroup at h
  split at h
  · obtain ⟨c₂, -, h⟩ := bind_eq_ok.1 h
    nomatch (Prod.mk.inj (Except.ok.inj h)).1
  · split at h
    · obtain ⟨⟨graph, c₂⟩, -, h⟩ := bind_eq_ok.1 h
      obtain ⟨c₃, -, h⟩ := bind_eq_ok.1 h
      nomatch (Prod.mk.inj (Except.ok.inj h)).1
    · obtain ⟨c₂, h₂, h⟩ := bind_eq_ok.1 h
      obtain ⟨-, rfl⟩ := Prod.mk.inj (Except.ok.inj h)
      obtain ⟨t, hp, rfl, hk⟩ := Cursor.requireKind_eq_ok h₂
      exact ⟨rfl, t, hp, hk⟩

theorem readNested_plain {t : Token} (h : readNested c = .ok (.group none false, c'))
    (hp : c'.peek = some t) : Keyword.select.spells t.text = false := by
  unfold readNested at h
  split at h
  · obtain ⟨⟨p, c₁⟩, -, h⟩ := bind_eq_ok.1 h
    nomatch (Prod.mk.inj (Except.ok.inj h)).1
  · next hno =>
    obtain ⟨rfl, u, hu, hk⟩ := readGroup_plain h
    rw [← Bool.not_eq_true]
    exact fun hs => hno (atSubSelect_eq_true.2 ⟨u, t, hu, hk, hp, hs⟩)

theorem took_readNested {head : Head} (hc : c.Lexed) (h : readNested c = .ok (head, c')) :
    ∃ ws, c.Took (ws ++ [['\x7b']]) c' ∧ HeadFrom ws head := by
  unfold readNested at h
  split at h
  · next hs =>
    obtain ⟨t, u, hp, hk, hu, hs⟩ := atSubSelect_eq_true.1 hs
    obtain ⟨⟨p, c₁⟩, h₁, h⟩ := bind_eq_ok.1 h
    obtain ⟨rfl, rfl⟩ := Prod.mk.inj (Except.ok.inj h)
    rw [(hc.of_peek hp).2, Text.classify_eq_openBrace] at hk
    have hp₁ := hc.took_pass hp
    rw [hk] at hp₁
    have hp₂ := hp₁.trans (hp₁.lexed.took_pass hu)
    obtain ⟨ws, hw, hpf⟩ := Projection.took_read hp₂.lexed h₁
    exact ⟨['\x7b'] :: u.text :: ws, hp₂.trans hw, .select hs hpf⟩
  · exact took_readGroup hc h

end Head

/-! ## 3. What closes a block -/

namespace Modifier

theorem took_read? {m : Text} (hc : c.Lexed) (h : read? c = .ok (some (m, c'))) :
    ∃ ws, c.Took ws c' ∧ IsModifier ws ∧ m = Text.spaced ws := by
  unfold read? at h
  split at h
  · nomatch h
  · next t hp =>
    -- Each keyword decides how many tokens follow it.
    have hp₀ := hc.took_pass hp
    split at h
    · next hk =>
      obtain ⟨⟨v, c₁⟩, h₁, h⟩ := bind_eq_ok.1 h
      obtain ⟨rfl, rfl⟩ := Prod.mk.inj (Option.some.inj (Except.ok.inj h))
      refine ⟨_, hp₀.trans (hp₀.lexed.expect_eq_ok h₁).1, ?_, rfl⟩
      rw [Bool.or_eq_true] at hk
      rcases hk with hk | hk
      · exact .limit hk
      · exact .offset hk
    · split at h
      · next hk =>
        obtain ⟨⟨b, c₁⟩, h₁, h⟩ := bind_eq_ok.1 h
        obtain ⟨⟨x, c₂⟩, h₂, h⟩ := bind_eq_ok.1 h
        obtain ⟨rfl, rfl⟩ := Prod.mk.inj (Option.some.inj (Except.ok.inj h))
        obtain ⟨hp₁, hb⟩ := hp₀.lexed.require_eq_ok h₁
        obtain ⟨hp₂, hx⟩ := hp₁.lexed.require_eq_ok h₂
        exact ⟨_, (hp₀.trans hp₁).trans hp₂, .group hk hb (beq_iff_eq.1 hx), rfl⟩
      · split at h
        · next hk =>
          obtain ⟨⟨b, c₁⟩, h₁, h⟩ := bind_eq_ok.1 h
          obtain ⟨⟨x, c₂⟩, h₂, h⟩ := bind_eq_ok.1 h
          obtain ⟨rfl, rfl⟩ := Prod.mk.inj (Option.some.inj (Except.ok.inj h))
          obtain ⟨hp₁, hb⟩ := hp₀.lexed.require_eq_ok h₁
          exact ⟨_, (hp₀.trans hp₁).trans (hp₁.lexed.expect_eq_ok h₂).1, .order hk hb, rfl⟩
        · nomatch h

theorem took_repeatStep {before after : List Text} (hc : c.Lexed)
    (h : Cursor.repeatStep step step_productive before c = .ok (after, c')) :
    ∃ mss : List (List Text), c.Took mss.flatten c' ∧ (∀ ms ∈ mss, IsModifier ms) ∧
      after = before ++ mss.map Text.spaced := by
  induction h using Cursor.repeatStep_induction with
  | stop => exact ⟨[], hc.took, by simp, by simp⟩
  | turn hturn _ _ ih =>
    -- A modifier was read, and the run goes on with the modifiers behind it.
    obtain ⟨r, hr, hturn⟩ := bind_eq_ok.1 hturn
    cases r with
    | none => nomatch hturn
    | some r =>
      obtain ⟨m, c₁⟩ := r
      obtain ⟨rfl, rfl⟩ := Prod.mk.inj (Option.some.inj (Except.ok.inj hturn))
      obtain ⟨ms, hp, hm, rfl⟩ := took_read? hc hr
      obtain ⟨mss, hps, hms, rfl⟩ := ih hp.lexed
      refine ⟨ms :: mss, hp.trans hps, fun l hl => ?_, by simp⟩
      rcases List.mem_cons.1 hl with rfl | hl
      · exact hm
      · exact hms l hl

theorem took_readAll {modifiers : List Text} (hc : c.Lexed)
    (h : readAll c = .ok (modifiers, c')) :
    ∃ mss : List (List Text), c.Took mss.flatten c' ∧ (∀ ms ∈ mss, IsModifier ms) ∧
      modifiers = mss.map Text.spaced :=
  took_repeatStep hc h

end Modifier

namespace Head

theorem took_closeProjection {p q : Projection} (hc : c.Lexed)
    (h : closeProjection p c = .ok (q, c')) :
    ∃ mss : List (List Text),
      c.Took (mss.flatten ++ if p.inBlock then [['\x7d']] else []) c' ∧
      (∀ ms ∈ mss, IsModifier ms) ∧ q = { p with modifiers := mss.map Text.spaced } := by
  unfold closeProjection at h
  obtain ⟨⟨modifiers, c₁⟩, h₁, h⟩ := bind_eq_ok.1 h
  obtain ⟨mss, hp, hms, rfl⟩ := Modifier.took_readAll hc h₁
  dsimp only at h
  refine ⟨mss, ?_, hms, ?_⟩
  -- In a sub-select the brace of the block around it is consumed as well.
  · split at h
    · next hb =>
      obtain ⟨c₂, h₂, h⟩ := bind_eq_ok.1 h
      obtain ⟨rfl, rfl⟩ := Prod.mk.inj (Except.ok.inj h)
      rw [if_pos hb]
      exact hp.trans (took_requireBrace hp.lexed h₂)
    · next hb =>
      obtain ⟨rfl, rfl⟩ := Prod.mk.inj (Except.ok.inj h)
      rw [if_neg hb, List.append_nil]
      exact hp
  · split at h
    · obtain ⟨c₂, h₂, h⟩ := bind_eq_ok.1 h
      exact (Prod.mk.inj (Except.ok.inj h)).1.symm
    · exact (Prod.mk.inj (Except.ok.inj h)).1.symm

theorem took_close {head closed : Head} (hc : c.Lexed) (h : head.close c = .ok (closed, c')) :
    ∃ ws, c.Took ws c' ∧ CloseFrom head ws closed := by
  cases head with
  | select p =>
    obtain ⟨⟨q, c₁⟩, h₁, h⟩ := bind_eq_ok.1 h
    obtain ⟨rfl, rfl⟩ := Prod.mk.inj (Except.ok.inj h)
    obtain ⟨mss, hp, hms, rfl⟩ := took_closeProjection hc h₁
    exact ⟨_, hp, .select hms⟩
  | describe p =>
    obtain ⟨⟨q, c₁⟩, h₁, h⟩ := bind_eq_ok.1 h
    obtain ⟨rfl, rfl⟩ := Prod.mk.inj (Except.ok.inj h)
    obtain ⟨mss, hp, hms, rfl⟩ := took_closeProjection hc h₁
    exact ⟨_, hp, .describe hms⟩
  | construct template before =>
    obtain ⟨⟨modifiers, c₁⟩, h₁, h⟩ := bind_eq_ok.1 h
    obtain ⟨rfl, rfl⟩ := Prod.mk.inj (Except.ok.inj h)
    obtain ⟨mss, hp, hms, rfl⟩ := Modifier.took_readAll hc h₁
    exact ⟨_, hp, .construct hms⟩
  | group graph optional =>
    obtain ⟨rfl, rfl⟩ := Prod.mk.inj (Except.ok.inj h)
    exact ⟨[], hc.took, .group⟩
  | pattern =>
    obtain ⟨rfl, rfl⟩ := Prod.mk.inj (Except.ok.inj h)
    exact ⟨[], hc.took, .pattern⟩
  | ask =>
    obtain ⟨rfl, rfl⟩ := Prod.mk.inj (Except.ok.inj h)
    exact ⟨[], hc.took, .ask⟩

end Head

/-! ## 4. Bodies -/

theorem isBreaks_breaksBefore (hc : c.Lexed) : IsBreaks (breaksBefore c) := by
  intro ch hch
  obtain ⟨t, ht, hch⟩ := List.mem_flatMap.1 hch
  have hb : isBreak t.text = true := by
    have h := List.filter_eq_nil_iff.1 hc.filter_breaks t.text (List.mem_map_of_mem ht)
    simpa using h
  rcases Text.isBreak_iff.1 hb with he | he
  · exact .inl (List.mem_singleton.1 (he ▸ hch))
  · exact .inr (List.mem_singleton.1 (he ▸ hch))

/-- A token that begins with a full stop is a word, and no keyword and no brace. -/
theorem word_of_dot {t : Token} {r : Text} (hk : t.kind = TokenKind.classify t.text)
    (ht : t.text = '.' :: r) :
    t.kind = .word ∧ Head.begins t = false ∧ isStop .segmented t = true := by
  have hword : t.kind = .word := by
    rw [hk, ht]
    rfl
  refine ⟨hword, ?_, ?_⟩
  · rw [Head.begins, hword, ht]
    rfl
  · rw [isStop, ht]
    rfl

/-- Where a full stop ends a statement, only the full stop is consumed. -/
theorem passed_stop {t : Token} (hc : c.Lexed) (hp : c.peek = some t)
    (hstop : t.text.head? = some '.') : c.Passed [['.']] (c.pass.breakOff ['.']) := by
  have hdot : ∀ ch ∈ (['.'] : Text), Text.continuesWord ch = true :=
    List.forall_mem_singleton.2 (by decide)
  obtain ⟨rest, htext⟩ := List.head?_eq_some_iff.1 hstop
  rw [Cursor.breakOff]
  cases hb : c.pass.breakOff? ['.'] with
  | none =>
    -- The token is the full stop and nothing else.
    have hle := Cursor.length_le_of_breakOff?_eq_none hb (Cursor.consumed_pass_of_peek hp)
      (by decide) (by rw [htext]; rfl)
    have hnil : rest = [] := by
      rw [htext] at hle
      exact List.length_eq_zero_iff.1 (by simpa using hle)
    have h := hc.passed_pass hp
    rwa [htext, hnil] at h
  | some c₁ =>
    -- The token is cut. It is not WHERE, so that its pieces have its bulk.
    have hwhere : Keyword.whereClause.spells t.text = false := by
      rw [← Bool.not_eq_true, htext]
      exact fun hs => absurd (List.cons_eq_cons.1 (Text.sameLetters_iff.1 hs)).1 (by decide)
    have h := hc.passed_breakOff? hp hdot hwhere hb
    rwa [htext] at h

theorem isItem_of_not_begins {style : BodyStyle} {t : Token}
    (hk : t.kind = TokenKind.classify t.text) (hclose : t.kind ≠ .closeBrace)
    (hbegin : ¬ Head.begins t = true) (hstop : ¬ isStop style t = true) :
    IsItem style t.text where
  noBrace := by
    rw [Bool.not_eq_true, Head.begins, Bool.or_eq_false_iff, Bool.or_eq_false_iff,
      beq_eq_false_iff_ne, hk, ne_eq, Text.classify_eq_openBrace] at hbegin
    rw [hk, ne_eq, Text.classify_eq_closeBrace] at hclose
    exact ⟨hbegin.1.1, hclose⟩
  noGraph := by
    rw [Bool.not_eq_true, Head.begins, Bool.or_eq_false_iff, Bool.or_eq_false_iff] at hbegin
    exact hbegin.1.2
  noOptional := by
    rw [Bool.not_eq_true, Head.begins, Bool.or_eq_false_iff] at hbegin
    exact hbegin.2
  noStop := by
    rintro rfl he
    exact hstop (by rw [isStop, he]; rfl)

/-- The head of a nested block does not begin with the word SELECT. -/
theorem HeadFrom.not_select {hs us : List Text} {head : Head} (h : HeadFrom hs head) :
    ∀ w ∈ (hs ++ ['\x7b'] :: us).head?, Keyword.select.spells w = false := by
  intro w hw
  cases h with
  | group | select =>
    obtain rfl := Option.some.inj hw
    decide
  | optional hk | graph hk =>
    obtain rfl := Option.some.inj hw
    exact Keyword.spells_eq_false hk (by decide)

/-- What reading the items of a body can do at its first token. -/
inductive ItemsRead (cfg : Config) (c : Cursor) :
    BodyStyle → Nat → List Item → Cursor → Prop
  | close {style : BodyStyle} {depth : Nat} {t : Token} : c.peek = some t →
    t.kind = .closeBrace → ItemsRead cfg c style depth [] c.pass
  | nested {style : BodyStyle} {depth : Nat} {head closed : Head} {c₁ c₂ c₃ c' : Cursor}
    {inner items : List Item} : depth < cfg.maxDepth → Head.readNested c = .ok (head, c₁) →
    readItems cfg head.bodyStyle (depth + 1) c₁ = .ok (inner, c₂) →
    head.close c₂ = .ok (closed, c₃) → readItems cfg style depth c₃ = .ok (items, c') →
    ItemsRead cfg c style depth (.nested (.block closed (Statement.ofItems inner)) :: items) c'
  | stop {depth : Nat} {t : Token} {c' : Cursor} {items : List Item} : c.peek = some t →
    t.text.head? = some '.' →
    readItems cfg .segmented depth (c.pass.breakOff ['.']) = .ok (items, c') →
    ItemsRead cfg c .segmented depth (.stop :: items) c'
  | word {style : BodyStyle} {depth : Nat} {t : Token} {c' : Cursor} {items : List Item} :
    c.peek = some t → t.kind ≠ .closeBrace → ¬ Head.begins t = true → ¬ isStop style t = true →
    readItems cfg style depth c.pass = .ok (items, c') →
    ItemsRead cfg c style depth (.word (breaksBefore c) t.text :: items) c'

theorem readItems_cases {cfg : Config} {style : BodyStyle} {depth : Nat} {items : List Item}
    (h : readItems cfg style depth c = .ok (items, c')) : ItemsRead cfg c style depth items c' := by
  rw [readItems_eq] at h
  split at h
  · nomatch h
  · next t hp =>
    split at h
    · next hclose =>
      obtain ⟨rfl, rfl⟩ := Prod.mk.inj (Except.ok.inj h)
      exact .close hp hclose
    · next hclose =>
      split at h
      · split at h
        · nomatch h
        · next hdepth =>
          obtain ⟨⟨head, c₁⟩, h₁, h⟩ := bind_eq_ok.1 h
          obtain ⟨⟨inner, c₂⟩, h₂, h⟩ := bind_eq_ok.1 h
          obtain ⟨⟨closed, c₃⟩, h₃, h⟩ := bind_eq_ok.1 h
          obtain ⟨⟨rest, c₄⟩, h₄, h⟩ := bind_eq_ok.1 h
          obtain ⟨rfl, rfl⟩ := Prod.mk.inj (Except.ok.inj h)
          exact .nested (Nat.lt_of_not_le hdepth) h₁ h₂ h₃ h₄
      · next hbegin =>
        split at h
        · next hstop =>
          obtain ⟨⟨rest, c₁⟩, h₁, h⟩ := bind_eq_ok.1 h
          obtain ⟨rfl, rfl⟩ := Prod.mk.inj (Except.ok.inj h)
          rw [isStop, Bool.and_eq_true, beq_iff_eq, beq_iff_eq] at hstop
          obtain ⟨rfl, hdot⟩ := hstop
          exact .stop hp hdot h₁
        · next hstop =>
          obtain ⟨⟨rest, c₁⟩, h₁, h⟩ := bind_eq_ok.1 h
          obtain ⟨rfl, rfl⟩ := Prod.mk.inj (Except.ok.inj h)
          exact .word hp hclose hbegin hstop h₁

/-- Induction along the items that were read. A block gives two hypotheses, for its body is read by
the same function as what stands behind it. -/
@[elab_as_elim]
theorem readItems_induction {cfg : Config}
    {motive : (style : BodyStyle) → (depth : Nat) → (c : Cursor) → (items : List Item) →
      (c' : Cursor) → readItems cfg style depth c = .ok (items, c') → Prop}
    (close : ∀ {style depth c t} (_ : c.peek = some t) (_ : t.kind = .closeBrace) h,
      motive style depth c [] c.pass h)
    (nested : ∀ {style depth head closed c c₁ c₂ c₃ c' inner items} (_ : depth < cfg.maxDepth)
      (_ : Head.readNested c = .ok (head, c₁))
      (hinner : readItems cfg head.bodyStyle (depth + 1) c₁ = .ok (inner, c₂))
      (_ : head.close c₂ = .ok (closed, c₃))
      (hrest : readItems cfg style depth c₃ = .ok (items, c')) h,
      motive head.bodyStyle (depth + 1) c₁ inner c₂ hinner →
      motive style depth c₃ items c' hrest →
      motive style depth c (.nested (.block closed (Statement.ofItems inner)) :: items) c' h)
    (stop : ∀ {depth c c' t items} (_ : c.peek = some t) (_ : t.text.head? = some '.')
      (hrest : readItems cfg .segmented depth (c.pass.breakOff ['.']) = .ok (items, c')) h,
      motive .segmented depth (c.pass.breakOff ['.']) items c' hrest →
      motive .segmented depth c (.stop :: items) c' h)
    (word : ∀ {style depth c c' t items} (_ : c.peek = some t) (_ : t.kind ≠ .closeBrace)
      (_ : ¬ Head.begins t = true) (_ : ¬ isStop style t = true)
      (hrest : readItems cfg style depth c.pass = .ok (items, c')) h,
      motive style depth c.pass items c' hrest →
      motive style depth c (.word (breaksBefore c) t.text :: items) c' h)
    {style : BodyStyle} {depth : Nat} {c : Cursor} {items : List Item} {c' : Cursor}
    (h : readItems cfg style depth c = .ok (items, c')) : motive style depth c items c' h := by
  induction c using Cursor.size_induction generalizing style depth items c' with
  | ind c ih =>
    cases readItems_cases h with
    | close hp hclose => exact close hp hclose h
    | nested hdepth h₁ h₂ h₃ h₄ =>
      exact nested hdepth h₁ h₂ h₃ h₄ h (ih _ (Head.size_readNested_lt h₁) h₂)
        (ih _ (size_block_lt h₁ h₂ h₃) h₄)
    | stop hp hdot h₁ => exact stop hp hdot h₁ h (ih _ (Cursor.size_pass_breakOff_lt hp _) h₁)
    | word hp hclose hbegin hstop h₁ =>
      exact word hp hclose hbegin hstop h₁ h (ih _ (Cursor.size_pass_lt hp) h₁)

/-- The tokens that reading a body consumes derive the items that it gives. If they begin with
SELECT, then this is the token that comes next. -/
theorem readItems_sound {cfg : Config} {style : BodyStyle} {depth : Nat} {items : List Item}
    (hc : c.Lexed) (h : readItems cfg style depth c = .ok (items, c')) :
    ∃ ws, c.Passed (ws ++ [['\x7d']]) c' ∧ Derives cfg.maxDepth style depth ws items ∧
      ∀ w ∈ ws.head?, Keyword.select.spells w = true → ∃ t, c.peek = some t ∧ t.text = w := by
  induction h using readItems_induction with
  | close hp hclose =>
    rw [(hc.of_peek hp).2, Text.classify_eq_closeBrace] at hclose
    have hpass := hc.passed_pass hp
    rw [hclose] at hpass
    exact ⟨[], hpass, .nil, fun _ h => nomatch h⟩
  | @nested _ _ head _ _ _ _ _ _ _ _ hdepth h₁ _ h₃ _ _ ihinner ihrest =>
    obtain ⟨hs, p₁, hhead⟩ := Head.took_readNested hc h₁
    obtain ⟨us, p₂, hinner, hnext⟩ := ihinner p₁.lexed
    obtain ⟨vs, p₃, hclosed⟩ := Head.took_close p₂.lexed h₃
    obtain ⟨ws, p₄, hrest, -⟩ := ihrest p₃.lexed
    -- The reader looks one token ahead, and would have found the sub-select.
    have hselect : NotSelect head us := by
      rintro rfl w hw
      rw [← Bool.not_eq_true]
      intro hs
      obtain ⟨u, hu, rfl⟩ := hnext w hw hs
      rw [Head.readNested_plain h₁ hu] at hs
      nomatch hs
    refine ⟨_, ?_, .nested hdepth hhead hselect hinner hclosed hrest, fun w hw hspells => ?_⟩
    · have hall := ((p₁.toPassed.trans p₂).trans p₃.toPassed).trans p₄
      simpa using hall
    · have hw' : w ∈ (hs ++ ['\x7b'] :: (us ++ ['\x7d'] :: (vs ++ ws))).head? := by
        simpa using hw
      rw [hhead.not_select w hw'] at hspells
      nomatch hspells
  | stop hp hdot _ _ ih =>
    have hpass := passed_stop hc hp hdot
    obtain ⟨ws, hrest, hd, -⟩ := ih hpass.lexed
    refine ⟨['.'] :: ws, hpass.trans hrest, .stop hd, fun w hw hspells => ?_⟩
    obtain rfl := Option.some.inj hw
    exact absurd hspells (by decide)
  | @word _ _ _ _ t _ hp hclose hbegin hstop _ _ ih =>
    have hk := (hc.of_peek hp).2
    have hpass := hc.passed_pass hp
    obtain ⟨ws, hrest, hd, -⟩ := ih hpass.lexed
    exact ⟨t.text :: ws, hpass.trans hrest,
      .word (isBreaks_breaksBefore hc) (hc.of_peek hp).1
        (isItem_of_not_begins hk hclose hbegin hstop) hd,
      fun w hw _ => ⟨t, hp, Option.some.inj hw⟩⟩

end SparqlTree
