import SparqlTree.Proofs.Grammar.Failure
import SparqlTree.Proofs.Query.ErrorPlace

/-!
# Where errors point

Every refusal is raised at the cursor at which reading the text fails, and every error points at
the text that it names and quotes the tokens consumed before that cursor (`Query.located_of_parse`).
There is one lemma for each reading function: the error that it raises is one of the cursor that is
given for it, and that cursor stands among the tokens of the text.
-/

namespace SparqlTree

/-- If a reading of the text fails, its error is raised at the cursor `c`. -/
def FailsAt (text : Text) (window : Nat) {α : Type} (x : Except ParseError α) (c : Cursor) : Prop :=
  ∀ e, x = .error e → e.Raised text window c.consumed.reverse c.upcoming

variable {text : Text} {window : Nat} {c d : Cursor}

namespace FailsAt

variable {α β : Type} {x : Except ParseError α} {f : α → Except ParseError β} {there : α → Cursor}

theorem ok (a : α) : FailsAt text window (.ok a) c := fun _ h => nomatch h

theorem error {e : ParseError} (he : e.Raised text window c.consumed.reverse c.upcoming) :
    FailsAt text window (.error e : Except ParseError α) c := by
  rintro _ h
  obtain rfl := Except.error.inj h
  exact he

/-- Readings in a row fail where the first of them does that fails. -/
theorem bind (hx : FailsAt text window x c)
    (hf : ∀ a, x = .ok a → FailsAt text window (f a) (there a)) :
    FailsAt text window (x >>= f) (failAt x c there) := by
  cases x with
  | error e => exact error (hx e rfl)
  | ok a => exact hf a rfl

/-- The second reading may fail at the same cursor, as does a test of what the first one read. -/
theorem bind_same (hx : FailsAt text window x c)
    (hf : ∀ a, x = .ok a → FailsAt text window (f a) c) : FailsAt text window (x >>= f) c := by
  cases x with
  | error e => exact error (hx e rfl)
  | ok a => exact hf a rfl

end FailsAt

namespace Cursor.Stands

theorem pass (h : c.Stands text window) {t : Token} (hp : c.peek = some t) :
    c.pass.Stands text window :=
  (Simulation.along text window).pass h hp

theorem of_expect (h : c.Stands text window) {x : Expectation} {t : Token}
    (hd : c.expect x = .ok (t, d)) : d.Stands text window := by
  obtain ⟨hp, rfl⟩ := Cursor.expect_eq_ok hd
  exact h.pass hp

theorem of_require (h : c.Stands text window) {x : Expectation} {accept : Token → Bool} {t : Token}
    (hd : c.require x accept = .ok (t, d)) : d.Stands text window := by
  obtain ⟨hp, rfl, -⟩ := Cursor.require_eq_ok hd
  exact h.pass hp

/-- The cursors behind what is read are reached as well. -/
theorem of_both {α : Type} {R : α → α → Prop} {x : Except ParseError (α × Cursor)}
    (h : (Simulation.along text window).Both R x x) {r : α × Cursor} (hx : x = .ok r) :
    r.2.Stands text window :=
  (h.rel hx hx).2

/-- The same of a keyword that may be left out. -/
theorem of_option {o : Option Cursor}
    (h : o = none ∧ o = none ∨
      ∃ c₁ d₁, o = some c₁ ∧ o = some d₁ ∧ (Simulation.along text window).Cursors c₁ d₁)
    (hd : o = some d) : d.Stands text window := by
  rcases h with ⟨hno, -⟩ | ⟨c₁, d₁, h₁, h₂, hs⟩
  · rw [hno] at hd
    nomatch hd
  · obtain rfl := Option.some.inj (h₁.symm.trans hd)
    obtain rfl := Option.some.inj (h₂.symm.trans hd)
    exact hs

theorem of_eat? (h : c.Stands text window) {k : Keyword} (hd : c.eat? k = some d) :
    d.Stands text window :=
  of_option (Simulation.eat? h k) hd

theorem of_eatGlued? (h : c.Stands text window) {k : Keyword} (hd : c.eatGlued? k = some d) :
    d.Stands text window :=
  of_option (Simulation.eatGlued? h k) hd

end Cursor.Stands

/-! ## 1. Single tokens -/

section

variable {x : Expectation} (hc : c.Stands text window)
include hc

theorem failsAt_errorFound {α : Type} (hx : x.looksAhead = true) :
    FailsAt text window (.error (c.errorFound x) : Except ParseError α) c :=
  .error (hc.along.errorFound hc.settled hx)

theorem failsAt_expect (hx : x.looksAhead = false) : FailsAt text window (c.expect x) c.pass := by
  cases hp : c.peek with
  | none =>
    rw [Cursor.expect_of_peek_eq_none hp, Cursor.pass_eq_drain hp]
    exact .error (hc.along.errorAtEnd_drain hx)
  | some t =>
    rw [Cursor.expect_of_peek hp]
    exact .ok _

theorem failsAt_require (hx : x.looksAhead = false) (accept : Token → Bool) :
    FailsAt text window (c.require x accept) c.pass := by
  apply (failsAt_expect hc hx).bind_same
  rintro ⟨t, c₁⟩ h
  obtain ⟨hp, rfl⟩ := Cursor.expect_eq_ok h
  dsimp only
  split
  · exact .ok _
  · exact .error (hc.along.errorAt_pass hp hx)

theorem failsAt_requireKind (hx : x.looksAhead = false) (kind : TokenKind) :
    FailsAt text window (c.requireKind x kind) c.pass :=
  (failsAt_require hc hx _).bind_same fun _ _ => .ok _

theorem failsAt_requireIri : FailsAt text window c.requireIri c.pass := by
  apply (failsAt_expect hc rfl).bind_same
  rintro ⟨t, c₁⟩ h
  obtain ⟨hp, rfl⟩ := Cursor.expect_eq_ok h
  dsimp only
  cases t.iri? with
  | some iri => exact .ok _
  | none =>
    -- The hint that comes with the error does not change where it was raised.
    have hraised := hc.along.errorAt_pass hp (x := .iri) rfl
    exact .error { hraised with }

theorem failsAt_readOpenBrace : FailsAt text window (readOpenBrace c) c.pass :=
  failsAt_requireKind hc rfl _

end

/-! ## 2. Repeated steps -/

theorem failsAt_repeatStep {α : Type} {step : Cursor.Step α} {productive : step.Productive}
    {failure : α → Cursor → Cursor}
    (hfail : ∀ a c, c.Stands text window → FailsAt text window (step a c) (failure a c))
    (hnext : ∀ {a c a' c'}, c.Stands text window → step a c = .ok (some (a', c')) →
      c'.Stands text window)
    (hc : c.Stands text window) (a : α) :
    FailsAt text window (Cursor.repeatStep step productive a c)
      (Cursor.repeatFailure step productive failure a c) := by
  induction c using Cursor.size_induction generalizing a with
  | ind c ih =>
    rw [Cursor.repeatStep_eq, Cursor.repeatFailure_eq]
    apply (hfail a c hc).bind
    rintro (_ | ⟨a', c'⟩) hr
    · exact .ok _
    · exact ih c' (productive _ _ _ _ hr) (hnext hc hr) a'

/-! ## 3. Heads -/

section

variable (hc : c.Stands text window)
include hc

theorem failsAt_read? : FailsAt text window (Modifier.read? c) (Modifier.failure c) := by
  unfold Modifier.read? Modifier.failure
  cases hp : c.peek with
  | none => exact .ok _
  | some t =>
    have hpass := hc.pass hp
    dsimp only
    split
    · exact (failsAt_expect hpass rfl).bind_same fun _ _ => .ok _
    split
    · refine (failsAt_require hpass rfl _).bind ?_
      rintro ⟨link, c₁⟩ h₁
      exact (failsAt_require (hpass.of_require h₁) rfl _).bind_same fun _ _ => .ok _
    split
    · refine (failsAt_require hpass rfl _).bind ?_
      rintro ⟨link, c₁⟩ h₁
      exact (failsAt_expect (hpass.of_require h₁) rfl).bind_same fun _ _ => .ok _
    · exact .ok _

theorem failsAt_readAll : FailsAt text window (Modifier.readAll c) (Modifier.failureAll c) := by
  refine failsAt_repeatStep (fun ms c hc => ?_) (fun hc hr => ?_) hc []
  · refine (failsAt_read? hc).bind_same ?_
    rintro (_ | _) _
    · exact .ok _
    · exact .ok _
  · obtain ⟨o, ho, h⟩ := bind_eq_ok.1 hr
    have hread := (Simulation.read? hc).rel ho ho
    cases hread with
    | none => nomatch h
    | some hread =>
      obtain ⟨-, rfl⟩ := Prod.mk.inj (Option.some.inj (Except.ok.inj h))
      exact hread.2

theorem failsAt_readDataset? : FailsAt text window (readDataset? c) (failureDataset c) := by
  unfold readDataset? failureDataset
  cases h : c.eat? .fromClause with
  | none => exact .ok _
  | some c₁ =>
    have hskip := Simulation.skip (hc.of_eat? h) .named
    exact (failsAt_requireIri hskip).bind_same fun _ _ => .ok _

theorem failsAt_readWhere (hasGraph : Bool) :
    FailsAt text window (Projection.readWhere hasGraph c) (Projection.failureWhere c) := by
  unfold Projection.readWhere Projection.failureWhere
  cases h : c.eatGlued? .whereClause with
  | some c₁ => exact failsAt_readOpenBrace (hc.of_eatGlued? h)
  | none =>
    dsimp only
    split
    · exact failsAt_readOpenBrace hc
    · exact failsAt_errorFound hc (by cases hasGraph <;> rfl)

theorem failsAt_readProjection (inBlock : Bool) :
    FailsAt text window (Projection.read inBlock c) (Projection.failure c) := by
  have hq := (Simulation.readQuantifier? hc).2
  have hrun := (Simulation.takeRun Simulation.ignoresPlace_isProjected hq).2
  unfold Projection.read Projection.failure
  dsimp only
  split
  · exact failsAt_errorFound hrun rfl
  · apply (failsAt_readDataset? hrun).bind
    intro r hr
    have hr' := Cursor.Stands.of_both (Simulation.readDataset? hrun) hr
    exact (failsAt_readWhere hr' _).bind_same fun _ _ => .ok _

theorem failsAt_readOptionalWhere :
    FailsAt text window (Head.readOptionalWhere c) (Head.failureOptionalWhere c) :=
  failsAt_readOpenBrace (Simulation.skipGlued hc .whereClause)

theorem failsAt_readGroup : FailsAt text window (Head.readGroup c) (Head.failureGroup c) := by
  unfold Head.readGroup Head.failureGroup
  cases hopt : c.eatGlued? .optional with
  | some c₁ =>
    exact (failsAt_readOpenBrace (hc.of_eatGlued? hopt)).bind_same fun _ _ => .ok _
  | none =>
    dsimp only
    cases hgraph : c.eatGlued? .graph with
    | some c₁ =>
      have h₁ := hc.of_eatGlued? hgraph
      apply (failsAt_requireIri h₁).bind
      intro r hr
      have hr' := Cursor.Stands.of_both (Simulation.requireIri h₁) hr
      exact (failsAt_readOpenBrace hr').bind_same fun _ _ => .ok _
    | none => exact (failsAt_readOpenBrace hc).bind_same fun _ _ => .ok _

theorem failsAt_readNested : FailsAt text window (Head.readNested c) (Head.failureNested c) := by
  unfold Head.readNested Head.failureNested
  split
  · next hat =>
    -- The brace and SELECT were seen ahead.
    obtain ⟨t, u, ht, -, hu, -⟩ := Head.atSubSelect_eq_true.1 hat
    exact (failsAt_readProjection ((hc.pass ht).pass hu) true).bind_same fun _ _ => .ok _
  · exact failsAt_readGroup hc

theorem failsAt_readTemplate :
    FailsAt text window (Head.readTemplate c) (Head.failureTemplate c) := by
  rw [Head.readTemplate_eq, Head.failureTemplate]
  apply (failsAt_readOpenBrace hc).bind
  intro c₁ h₁
  have hc₁ : c₁.Stands text window := (Simulation.readOpenBrace hc).rel h₁ h₁
  rw [Head.readInside]
  dsimp only
  split
  · exact .ok _
  · exact .error (hc₁.along.errorAtEnd_drain rfl)

theorem failsAt_readConstruct :
    FailsAt text window (Head.readConstruct c) (Head.failureConstruct c) := by
  apply (failsAt_readTemplate hc).bind
  intro r hr
  have hr' := Cursor.Stands.of_both (Simulation.readTemplate hc) hr
  exact (failsAt_readOptionalWhere hr').bind_same fun _ _ => .ok _

theorem failsAt_close (head : Head) :
    FailsAt text window (head.close c) (head.failureClose c) := by
  have hclose (p : Projection) : FailsAt text window (Head.closeProjection p c)
      (failAt (Modifier.readAll c) (Modifier.failureAll c) fun r => r.2.pass) := by
    apply (failsAt_readAll hc).bind
    intro r hr
    have hr' := Cursor.Stands.of_both (Simulation.readAll hc) hr
    dsimp only
    split
    · exact (failsAt_requireKind hr' rfl _).bind_same fun _ _ => .ok _
    · exact .ok _
  cases head with
  | select p | describe p => exact (hclose p).bind_same fun _ _ => .ok _
  | construct => exact (failsAt_readAll hc).bind_same fun _ _ => .ok _
  | group | pattern | ask => exact .ok _

end

/-! ## 4. Bodies -/

theorem failsAt_readItems (cfg : Config) (hc : c.Stands text window) (style : BodyStyle)
    (depth : Nat) :
    FailsAt text window (readItems cfg style depth c) (failureItems cfg style depth c) := by
  have hcfg : cfg.SameRules cfg := ⟨rfl, rfl⟩
  induction c using Cursor.size_induction generalizing style depth with
  | ind c ih =>
    rw [readItems_eq, failureItems_eq]
    cases hp : c.peek with
    | none => exact .error (hc.along.errorAtEnd_drain rfl)
    | some t =>
      dsimp only
      split
      · exact .ok _
      split
      · split
        · have hraised := hc.along.errorFound hc.settled (x := .nestingAtMost cfg.maxDepth) rfl
          exact .error { hraised with }
        -- Each part of the block is read from where the part before it ends, and what follows the
        -- block from where its last part does.
        apply (failsAt_readNested hc).bind
        rintro ⟨head, c₁⟩ hopen
        have h₁ := Cursor.Stands.of_both (Simulation.readNested hc) hopen
        apply (ih c₁ (Head.size_readNested_lt hopen) h₁ head.bodyStyle (depth + 1)).bind
        rintro ⟨inner, c₂⟩ hinner
        have h₂ := Cursor.Stands.of_both (Simulation.readItems hcfg h₁ _ _) hinner
        apply (failsAt_close h₂ head).bind
        rintro ⟨closed, c₃⟩ hclose
        have h₃ := Cursor.Stands.of_both (Simulation.close h₂ rfl) hclose
        exact (ih c₃ (size_block_lt hopen hinner hclose) h₃ style depth).bind_same fun _ _ => .ok _
      split
      · next hstop =>
        have hcut := (Simulation.along text window).cut hc hp (.stop hstop)
        exact (ih _ (Cursor.size_pass_breakOff_lt hp _) hcut style depth).bind_same
          fun _ _ => .ok _
      · exact (ih _ (Cursor.size_pass_lt hp) (hc.pass hp) style depth).bind_same fun _ _ => .ok _

theorem failsAt_readBody (cfg : Config) (hc : c.Stands text window) (style : BodyStyle) :
    FailsAt text window (readBody cfg style c) (failureItems cfg style 0 c) :=
  (failsAt_readItems cfg hc style 0).bind_same fun _ _ => .ok _

theorem failsAt_readBlock (cfg : Config) (hc : c.Stands text window) (head : Head) :
    FailsAt text window (head.readBlock cfg c) (head.failureBlock cfg c) := by
  have hcfg : cfg.SameRules cfg := ⟨rfl, rfl⟩
  apply (failsAt_readBody cfg hc head.bodyStyle).bind
  intro r hr
  have hr' := Cursor.Stands.of_both (Simulation.readBody hcfg hc _) hr
  exact (failsAt_close hr' head).bind_same fun _ _ => .ok _

theorem failsAt_readAttached? (cfg : Config) (hc : c.Stands text window) :
    FailsAt text window (UpdateHead.readAttached? cfg c) (UpdateHead.failureAttached cfg c) := by
  unfold UpdateHead.readAttached? UpdateHead.failureAttached
  cases h : c.eatGlued? .whereClause with
  | none => exact .ok _
  | some c₁ =>
    have h₁ := hc.of_eatGlued? h
    apply (failsAt_readOpenBrace h₁).bind
    intro c₂ h₂
    have h₂' := (Simulation.readOpenBrace h₁).rel h₂ h₂
    exact (failsAt_readBody cfg h₂' .segmented).bind_same fun _ _ => .ok _

theorem failsAt_readUpdateBlock (cfg : Config) (hc : c.Stands text window)
    (operation : Operation) :
    FailsAt text window (UpdateHead.read cfg operation c) (UpdateHead.failure cfg c) := by
  have hcfg : cfg.SameRules cfg := ⟨rfl, rfl⟩
  have hskip := Simulation.skipGlued hc .data
  apply (failsAt_readOpenBrace hskip).bind
  intro c₁ h₁
  have h₁' := (Simulation.readOpenBrace hskip).rel h₁ h₁
  apply (failsAt_readBody cfg h₁' .whole).bind
  rintro ⟨template, c₂⟩ h₂
  have h₂' := Cursor.Stands.of_both (Simulation.readBody hcfg h₁' _) h₂
  dsimp only
  split
  · have hraised := h₂'.along.errorFound h₂'.settled (x := .whereAfterTemplate operation.name) rfl
    exact .error { hraised with }
  · exact (failsAt_readAttached? cfg h₂').bind_same fun _ _ => .ok _

/-! ## 5. Clauses -/

theorem failsAt_readPrefix (hc : c.Stands text window) :
    FailsAt text window (Draft.readPrefix c) (Draft.failurePrefix c) := by
  apply (failsAt_expect hc rfl).bind
  rintro ⟨label, c₁⟩ h₁
  have h₁' := hc.of_expect h₁
  dsimp only
  split
  · exact (failsAt_requireIri h₁').bind_same fun _ _ => .ok _
  · refine (failsAt_require h₁' rfl _).bind ?_
    rintro ⟨colon, c₂⟩ h₂
    exact (failsAt_requireIri (h₁'.of_require h₂)).bind_same fun _ _ => .ok _

section

variable {t : Token} (hc : c.Stands text window) (hp : c.peek = some t)
include hc hp

theorem failsAt_readDeclaration (k : Keyword) (r : Draft) :
    FailsAt text window (Draft.readDeclaration k r c) (Draft.failureDeclaration k r c) := by
  unfold Draft.readDeclaration Draft.failureDeclaration
  split
  · exact failsAt_errorFound hc rfl
  split
  · exact (failsAt_readPrefix (hc.pass hp)).bind_same fun _ _ => .ok _
  · exact (failsAt_requireIri (hc.pass hp)).bind_same fun _ _ => .ok _

theorem failsAt_readForm (cfg : Config) (k : Keyword) (r : Draft) :
    FailsAt text window (Draft.readForm cfg k r c) (Draft.failureForm cfg k r c) := by
  have hpass := hc.pass hp
  unfold Draft.readForm Draft.failureForm
  split
  · exact failsAt_errorFound hc rfl
  cases k with
  | select | describe =>
    apply (failsAt_readProjection hpass false).bind
    intro p hread
    have hp' := Cursor.Stands.of_both (Simulation.readProjection hpass false) hread
    exact (failsAt_readBlock cfg hp' _).bind_same fun _ _ => .ok _
  | construct =>
    apply (failsAt_readConstruct hpass).bind
    intro head hread
    have hhead := Cursor.Stands.of_both (Simulation.readConstruct hpass) hread
    exact (failsAt_readBlock cfg hhead _).bind_same fun _ _ => .ok _
  | _ =>
    apply (failsAt_readDataset? hpass).bind
    intro dataset hread
    have hd := Cursor.Stands.of_both (Simulation.readDataset? hpass) hread
    apply (failsAt_readOptionalWhere hd).bind
    intro c₂ h₂
    have h₂' := (Simulation.readOptionalWhere hd).rel h₂ h₂
    exact (failsAt_readBlock cfg h₂' .ask).bind_same fun _ _ => .ok _

theorem failsAt_readUpdate (cfg : Config) (operation : Operation) (r : Draft) :
    FailsAt text window (Draft.readUpdate cfg operation r c) (Draft.failureUpdate cfg r c) := by
  unfold Draft.readUpdate Draft.failureUpdate
  split
  · exact (failsAt_readUpdateBlock cfg (hc.pass hp) operation).bind_same fun _ _ => .ok _
  · exact failsAt_errorFound hc rfl

theorem failsAt_readClause (cfg : Config) (k : Keyword) (r : Draft) :
    FailsAt text window (Draft.readClause cfg k r c) (Draft.failureClause cfg k r c) := by
  have hpass := hc.pass hp
  unfold Draft.readClause Draft.failureClause
  cases k with
  | prefixDecl | base => exact failsAt_readDeclaration hc hp _ r
  | fromClause =>
    have hskip := Simulation.skip hpass .named
    exact (failsAt_requireIri hskip).bind_same fun _ _ => .ok _
  | withGraph => exact (failsAt_requireIri hpass).bind_same fun _ _ => .ok _
  | select | construct | describe | ask => exact failsAt_readForm hc hp cfg _ r
  | insert | delete => exact failsAt_readUpdate hc hp cfg _ r
  | whereClause =>
    apply (failsAt_readOpenBrace hpass).bind
    intro c₁ h₁
    have h₁' := (Simulation.readOpenBrace hpass).rel h₁ h₁
    exact (failsAt_readBlock cfg h₁' .pattern).bind_same fun _ _ => .ok _
  | _ => exact failsAt_errorFound hc rfl

end

theorem failsAt_step (cfg : Config) (r : Draft) (hc : c.Stands text window) :
    FailsAt text window (Draft.step cfg r c) (Draft.failureStep cfg r c) := by
  unfold Draft.step Draft.failureStep
  split
  · exact .ok _
  cases hp : c.peek with
  | none => exact .ok _
  | some t =>
    dsimp only
    split
    · exact .ok _
    cases Keyword.ofText? t.text with
    | none => exact failsAt_errorFound hc rfl
    | some k => exact (failsAt_readClause hc hp cfg k r).bind_same fun _ _ => .ok _

theorem failsAt_read (cfg : Config) (hc : c.Stands text window) :
    FailsAt text window (Draft.read cfg c) (Draft.failure cfg c) :=
  failsAt_repeatStep (fun r _ hc => failsAt_step cfg r hc) Cursor.Stands.step hc {}

namespace Query

/-- The cursor at which the reading of a text fails. A text without a query form fails where its
clauses end. -/
def failure (cfg : Config) (text : Text) : Cursor :=
  failAt (Draft.read cfg (cursor cfg text)) (Draft.failure cfg (cursor cfg text)) Prod.snd

theorem failsAt_parse (cfg : Config) (text : Text) :
    FailsAt text cfg.contextTokens (parse cfg text) (failure cfg text) := by
  have hcfg : cfg.SameRules cfg := ⟨rfl, rfl⟩
  have hc := Cursor.Stands.start cfg text
  apply (failsAt_read cfg hc).bind
  rintro ⟨r, c₁⟩ h₁
  have h₁' := Cursor.Stands.of_both (Simulation.read hcfg hc) h₁
  dsimp only
  cases r.query? text with
  | some q => exact .ok _
  | none => exact failsAt_errorFound h₁' rfl

end Query

/-! ## 6. What an error tells of its place -/

/-- An error that is raised at a cursor points at the text that it names, and quotes the tokens
before that place. -/
structure ParseError.Located (text : Text) (window : Nat) (c : Cursor) (e : ParseError) : Prop where
  /-- Its span is the end of the text, or holds the text that was found. -/
  place : e.found = endOfInput ∧ e.span = ⟨Text.byteLength text, Text.byteLength text⟩ ∨
    e.span.first < e.span.last ∧ e.span.last ≤ Text.byteLength text ∧
      ∃ before after, text = before ++ e.found ++ after ∧
        e.span = ⟨Text.byteLength before, Text.byteLength (before ++ e.found)⟩
  /-- The tokens around the cursor are those of the text, as they were cut in reading it. -/
  recut : Recut (tokenize text) (c.consumed.reverse ++ c.upcoming)
  /-- It points at the token that was consumed last, at the next one, or at the end. -/
  points : PointsAt (Text.byteLength text) c.consumed.reverse c.upcoming e.expected.looksAhead
    e.found e.span
  /-- It quotes the tokens that were consumed last, as many as the window is wide. -/
  near_eq : e.near =
    Text.spaced (((c.consumed.reverse.filter (!·.isLineBreak)).rtake window).map Token.text)
  /-- The label of its report has the same span. -/
  label : ∀ name, (Source.mk text name).clamp e.span = e.span ∧
    (e.report ⟨text, name⟩).labels =
      [⟨"line ".toList ++ Text.ofNat e.line, e.span.first, e.span.last - e.span.first⟩]

theorem ParseError.Raised.located {e : ParseError}
    (h : e.Raised text window c.consumed.reverse c.upcoming) : e.Located text window c where
  place := h.place
  recut := h.recut
  points := h.points
  near_eq := h.near_eq
  label name := by
    have hclamp : (Source.mk text name).clamp e.span = e.span := by
      rcases h.place with ⟨-, hspan⟩ | ⟨hlt, hle, -⟩
      · rw [hspan]
        exact Span.clamp_of_le (Nat.le_refl _) (Nat.le_refl _)
      · exact Span.clamp_of_le (Nat.le_of_lt hlt) hle
    refine ⟨hclamp, ?_⟩
    show [Source.placed _ ⟨e.span, _⟩] = _
    rw [Source.placed, hclamp]

namespace Query

/-- Whatever text is refused, the error is raised at the cursor at which reading the text fails. It
points at the text that it names, and quotes the tokens before it as they were read. -/
theorem located_of_parse {cfg : Config} {text : Text} {e : ParseError}
    (h : parse cfg text = .error e) :
    e.Located text cfg.contextTokens (failure cfg text) :=
  (failsAt_parse cfg text e h).located

/-- The parenthesis is the second half of a token that was cut, and both halves are quoted. -/
theorem located_of_parse_glued :
    let text := "ASK WHERE(".toList
    ∃ e, parse {} text = .error e ∧ e.found = ['('] ∧ e.span = ⟨9, 10⟩ ∧
      e.near = "ASK WHERE (".toList ∧
      (failure {} text).consumed.map Token.text = [['('], "WHERE".toList, "ASK".toList] ∧
      e.Located text 5 (failure {} text) := by
  intro text
  have h : parse {} text = .error ⟨1, .openBrace, ['('], "ASK WHERE (".toList, ⟨9, 10⟩, none⟩ := by
    decide +kernel
  have hconsumed : (failure {} text).consumed.map Token.text =
      [['('], "WHERE".toList, "ASK".toList] := by
    decide +kernel
  exact ⟨_, h, rfl, rfl, rfl, hconsumed, located_of_parse h⟩

/-- A full stop that ends a statement is quoted apart from the variable behind it. -/
example : (failure {} "ASK \x7b .?s GRAPH x \x7d".toList).previous 5 =
    "\x7b . ?s GRAPH x".toList := by
  decide +kernel

/-- A word is not cut behind a keyword with which it happens to begin. -/
example : (failure {} "SELECT ?x whereabouts".toList).previous 5 =
    "SELECT ?x whereabouts".toList := by
  decide +kernel

end Query

end SparqlTree
