import SparqlTree.Proofs.Grammar.Feeds
import SparqlTree.Proofs.Statement.Texts
import SparqlTree.Proofs.Token.Recut

/-!
# Two readings side by side

Two readings take the same course if, at every point, the same tokens lie ahead of both. A
`Simulation` says in which cursors that is so, which errors the readings then raise, and what of a
text is the same in both. There is one lemma for each reading function.

A statement about the cursors and errors of a single reading is a simulation too, of the reading
with itself.
-/

namespace SparqlTree

/-- Two outcomes of the same sort: both are errors and `E` relates them, or both are results and
`R` does. -/
inductive Alike {ε α β : Type} (E : ε → ε → Prop) (R : α → β → Prop) :
    Except ε α → Except ε β → Prop
  | error {e f : ε} (h : E e f) : Alike E R (.error e) (.error f)
  | ok {a : α} {b : β} (h : R a b) : Alike E R (.ok a) (.ok b)

section

variable {ε α β γ δ : Type} {E : ε → ε → Prop} {R : α → β → Prop} {Q : γ → δ → Prop}
  {x : Except ε α} {y : Except ε β} {f : α → Except ε γ} {g : β → Except ε δ}

/-- Steps that follow one another are alike if they are one by one, the second on results of the
first. -/
theorem Alike.bind_of_eq (h : Alike E R x y)
    (hfg : ∀ a b, x = .ok a → R a b → Alike E Q (f a) (g b)) : Alike E Q (x >>= f) (y >>= g) := by
  cases h with
  | error he => exact .error he
  | ok hab => exact hfg _ _ rfl hab

theorem Alike.bind (h : Alike E R x y) (hfg : ∀ a b, R a b → Alike E Q (f a) (g b)) :
    Alike E Q (x >>= f) (y >>= g) :=
  h.bind_of_eq fun a b _ => hfg a b

theorem Alike.rel {a : α} {b : β} (h : Alike E R x y) (hx : x = .ok a) (hy : y = .ok b) :
    R a b := by
  rw [hx, hy] at h
  cases h with
  | ok hr => exact hr

end

/-- What a token is apart from its place. -/
def Token.bare (t : Token) : TokenKind × Text := (t.kind, t.text)

theorem Token.bare_eq {t u : Token} : t.bare = u.bare ↔ t.kind = u.kind ∧ t.text = u.text :=
  Prod.mk.injEq .. ▸ Iff.rfl

/-- True of tests that do not look at the places of tokens. -/
def IgnoresPlace (accept : Token → Bool) : Prop :=
  ∀ ⦃t u : Token⦄, t.bare = u.bare → accept t = accept u

theorem ignoresPlace_of_text (p : Text → Bool) : IgnoresPlace fun t => p t.text := by
  intro t u h
  exact congrArg p (Token.bare_eq.1 h).2

theorem ignoresPlace_kind (kind : TokenKind) : IgnoresPlace (·.kind == kind) := by
  intro t u h
  exact congrArg (· == kind) (Token.bare_eq.1 h).1

/-- True if the error is raised at a token that was only looked at. Otherwise that token was
consumed. -/
def Expectation.looksAhead : Expectation → Bool
  | queryKeyword | prologueFirst | singleForm | noUpdateAfterForm | queryForm | projection
  | whereClause | whereOrFrom | nestingAtMost _ | whereAfterTemplate _ => true
  | prefixLabel | colon | iri | openBrace | closeBrace | endOfSubSelect | valueAfter _ | groupBy
  | groupingVariable | orderBy | orderingKey | described _ => false

/-- How tokens are written one behind the other: line breaks as they are, the others after a
space. -/
def Token.piece (t : Token) : Text := if t.isLineBreak then t.text else ' ' :: t.text

/-- Reads what is inside the braces of a template, and the closing brace. -/
def Head.readInside (c : Cursor) : Except ParseError (Text × Cursor) :=
  let inside := c.upcoming.takeWhile (·.kind != .closeBrace)
  if inside.length < c.upcoming.length then
    let written := inside.flatMap fun t => if t.isLineBreak then t.text else ' ' :: t.text
    pure (Text.trim written, c.advance (inside.length + 1))
  else throw (c.drain.errorAtEnd .closeBrace)

theorem Head.readTemplate_eq (c : Cursor) :
    Head.readTemplate c = readOpenBrace c >>= Head.readInside := rfl

namespace Cursor

variable {c : Cursor}

/-- With no token left but line breaks, going on uses up everything. -/
theorem pass_eq_drain (h : c.peek = none) : c.pass = c.drain := by
  rw [peek_eq_head?_skipBreaks, List.head?_eq_none_iff] at h
  have hlen : (c.upcoming.takeWhile Token.isLineBreak).length = c.upcoming.length := by
    rw [upcoming_skipBreaks] at h
    have := congrArg List.length (List.takeWhile_append_dropWhile (p := Token.isLineBreak)
      (l := c.upcoming))
    rwa [List.length_append, h, List.length_nil, Nat.add_zero] at this
  rw [pass, advance_of_nil h, skipBreaks, hlen, drain]

/-- What cutting the token consumed last comes to. -/
theorem breakOff_eq {t : Token} {before : List Token} (hcons : c.consumed = t :: before)
    (head : Text) : c.breakOff head =
      if head ≠ [] ∧ head.length < t.text.length ∧
          Text.sameLetters (t.text.take head.length) head then
        { c with
          consumed := (t.cut (t.text.take head.length) (t.text.drop head.length)).1 :: before
          upcoming := (t.cut (t.text.take head.length) (t.text.drop head.length)).2 :: c.upcoming }
      else c := by
  rw [breakOff, breakOff?_of_consumed hcons]
  split
  · rfl
  · rfl

theorem expect_of_peek_eq_none (h : c.peek = none) (x : Expectation) :
    c.expect x = .error (c.drain.errorAtEnd x) := by
  rw [expect, next, ← peek_eq_head?_skipBreaks, h, pass_eq_drain h]

theorem takeRun_of_peek {t : Token} (h : c.peek = some t) (accept : Token → Bool) :
    c.takeRun accept =
      if accept t then (t :: (c.pass.takeRun accept).1, (c.pass.takeRun accept).2)
      else ([], c) := by
  rw [takeRun]
  split
  · next u hu => rw [Option.some.inj (hu.symm.trans h)]
  · next hnone =>
    rw [h] at hnone
    nomatch hnone

theorem takeRun_of_peek_eq_none (h : c.peek = none) (accept : Token → Bool) :
    c.takeRun accept = ([], c) := by
  rw [takeRun]
  split
  · next u hu =>
    rw [h] at hu
    nomatch hu
  · rfl

end Cursor

/-- What two readings of texts have in common, step by step. -/
structure Simulation where
  /-- Cursors ahead of which the two readings are alike. -/
  Cursors : Cursor → Cursor → Prop
  /-- The errors raised at such cursors. -/
  Errors : ParseError → ParseError → Prop
  /-- What the readings have in common of a text. -/
  kept : Text → Text
  peekNth {c d : Cursor} (h : Cursors c d) (n : Nat) :
    (c.peekNth n).map Token.bare = (d.peekNth n).map Token.bare
  pass {c d : Cursor} {t : Token} (h : Cursors c d) (hp : c.peek = some t) : Cursors c.pass d.pass
  cut {c d : Cursor} {t : Token} {head : Text} (h : Cursors c d) (hp : c.peek = some t)
    (hhead : IsHead t head) : Cursors (c.pass.breakOff head) (d.pass.breakOff head)
  inside {c d : Cursor} (h : Cursors c d) :
    Alike Errors (fun r s => kept r.1 = kept s.1 ∧ Cursors r.2 s.2) (Head.readInside c)
      (Head.readInside d)
  ahead {c d : Cursor} {x : Expectation} (h : Cursors c d) (hx : x.looksAhead = true) :
    Errors (c.errorFound x) (d.errorFound x)
  taken {c d : Cursor} {t u : Token} {x : Expectation} (h : Cursors c d) (ht : c.peek = some t)
    (hu : d.peek = some u) (hx : x.looksAhead = false) :
    Errors (c.pass.errorAt t x) (d.pass.errorAt u x)
  ended {c d : Cursor} {x : Expectation} (h : Cursors c d) (hx : x.looksAhead = false) :
    Errors (c.drain.errorAtEnd x) (d.drain.errorAtEnd x)
  helped {e f : ParseError} (h : Errors e f) (help : Text) :
    Errors (e.withHelp help) (f.withHelp help)
  /-- Line breaks before a token and the space in front of it. -/
  kept_breaks {c d : Cursor} {x y : Text} (h : Cursors c d) (hxy : kept x = kept y) (v : Text) :
    kept (v ++ (breaksBefore c ++ ' ' :: x)) = kept (v ++ (breaksBefore d ++ ' ' :: y))
  kept_stop {x y : Text} (h : kept x = kept y) : kept (x ++ [' ', '.']) = kept (y ++ [' ', '.'])
  kept_trim {x y : Text} (h : kept x = kept y) : kept x.trim = kept y.trim
  trim_eq_nil {x y : Text} (h : kept x = kept y) : x.trim = [] ↔ y.trim = []
  variableNames_kept (x : Text) : (kept x).variableNames = x.variableNames

namespace Simulation

variable (S : Simulation) {c d : Cursor}

/-- Outcomes of reading a value: errors that belong together, or values that `R` relates and cursors
to go on from. -/
abbrev Both {α β : Type} (R : α → β → Prop) :
    Except ParseError (α × Cursor) → Except ParseError (β × Cursor) → Prop :=
  Alike S.Errors fun r s => R r.1 s.1 ∧ S.Cursors r.2 s.2

variable {S}

/-! ## 1. Single tokens -/

theorem peek (h : S.Cursors c d) : c.peek = none ∧ d.peek = none ∨
    ∃ t u, c.peek = some t ∧ d.peek = some u ∧ t.bare = u.bare := by
  have hpeek := S.peekNth h 0
  change c.peek.map _ = d.peek.map _ at hpeek
  cases hc : c.peek with
  | none =>
    rw [hc] at hpeek
    exact .inl ⟨rfl, Option.map_eq_none_iff.1 hpeek.symm⟩
  | some t =>
    rw [hc] at hpeek
    obtain ⟨u, hu, hbare⟩ := Option.map_eq_some_iff.1 hpeek.symm
    exact .inr ⟨t, u, rfl, hu, hbare.symm⟩

theorem any_peekNth (h : S.Cursors c d) (n : Nat) {accept : Token → Bool}
    (haccept : IgnoresPlace accept) : (c.peekNth n).any accept = (d.peekNth n).any accept := by
  have hpeek := S.peekNth h n
  cases hc : c.peekNth n with
  | none =>
    rw [hc] at hpeek
    rw [Option.map_eq_none_iff.1 hpeek.symm]
  | some t =>
    rw [hc] at hpeek
    obtain ⟨u, hu, hbare⟩ := Option.map_eq_some_iff.1 hpeek.symm
    rw [hu]
    exact haccept hbare.symm

theorem atKind (h : S.Cursors c d) (kind : TokenKind) : c.atKind kind = d.atKind kind :=
  any_peekNth h 0 (ignoresPlace_kind kind)

theorem atKeyword (h : S.Cursors c d) (k : Keyword) : c.atKeyword k = d.atKeyword k :=
  any_peekNth h 0 (ignoresPlace_of_text k.spells)

theorem atGlued (h : S.Cursors c d) (k : Keyword) : c.atGlued k = d.atGlued k :=
  any_peekNth h 0 (ignoresPlace_of_text k.leads)

theorem eat? (h : S.Cursors c d) (k : Keyword) : c.eat? k = none ∧ d.eat? k = none ∨
    ∃ c₁ d₁, c.eat? k = some c₁ ∧ d.eat? k = some d₁ ∧ S.Cursors c₁ d₁ := by
  rw [Cursor.eat?, Cursor.eat?, ← atKeyword h]
  split
  · next hk =>
    obtain ⟨t, hp, -⟩ := Cursor.atKeyword_eq_true.1 hk
    exact .inr ⟨_, _, rfl, rfl, S.pass h hp⟩
  · exact .inl ⟨rfl, rfl⟩

theorem eatGlued? (h : S.Cursors c d) (k : Keyword) :
    c.eatGlued? k = none ∧ d.eatGlued? k = none ∨
      ∃ c₁ d₁, c.eatGlued? k = some c₁ ∧ d.eatGlued? k = some d₁ ∧ S.Cursors c₁ d₁ := by
  rw [Cursor.eatGlued?, Cursor.eatGlued?, ← atGlued h]
  split
  · next hk =>
    obtain ⟨t, hp, hleads⟩ := Cursor.atGlued_eq_true.1 hk
    exact .inr ⟨_, _, rfl, rfl, S.cut h hp (.keyword hleads)⟩
  · exact .inl ⟨rfl, rfl⟩

theorem skip (h : S.Cursors c d) (k : Keyword) : S.Cursors (c.skip k) (d.skip k) := by
  rw [Cursor.skip, Cursor.skip]
  rcases eat? h k with ⟨hc, hd⟩ | ⟨c₁, d₁, hc, hd, h₁⟩
  · rwa [hc, hd]
  · rwa [hc, hd]

theorem skipGlued (h : S.Cursors c d) (k : Keyword) :
    S.Cursors (c.skipGlued k) (d.skipGlued k) := by
  rw [Cursor.skipGlued, Cursor.skipGlued]
  rcases eatGlued? h k with ⟨hc, hd⟩ | ⟨c₁, d₁, hc, hd, h₁⟩
  · rwa [hc, hd]
  · rwa [hc, hd]

variable {x : Expectation}

theorem require (h : S.Cursors c d) (hx : x.looksAhead = false) {accept : Token → Bool}
    (haccept : IgnoresPlace accept) :
    S.Both (fun t u => t.bare = u.bare) (c.require x accept) (d.require x accept) := by
  rw [Cursor.require, Cursor.require]
  rcases peek h with ⟨hc, hd⟩ | ⟨t, u, hc, hd, hbare⟩
  · rw [Cursor.expect_of_peek_eq_none hc, Cursor.expect_of_peek_eq_none hd]
    exact .error (S.ended h hx)
  · rw [Cursor.expect_of_peek hc, Cursor.expect_of_peek hd]
    show S.Both _ (if accept t then _ else _) (if accept u then _ else _)
    rw [haccept hbare]
    split
    · exact .ok ⟨hbare, S.pass h hc⟩
    · exact .error (S.taken h hc hd hx)

theorem expect (h : S.Cursors c d) (hx : x.looksAhead = false) :
    S.Both (fun t u => t.bare = u.bare) (c.expect x) (d.expect x) := by
  rcases peek h with ⟨hc, hd⟩ | ⟨t, u, hc, hd, hbare⟩
  · rw [Cursor.expect_of_peek_eq_none hc, Cursor.expect_of_peek_eq_none hd]
    exact .error (S.ended h hx)
  · rw [Cursor.expect_of_peek hc, Cursor.expect_of_peek hd]
    exact .ok ⟨hbare, S.pass h hc⟩

theorem requireKind (h : S.Cursors c d) (hx : x.looksAhead = false) (kind : TokenKind) :
    Alike S.Errors S.Cursors (c.requireKind x kind) (d.requireKind x kind) :=
  (require h hx (ignoresPlace_kind kind)).bind fun _ _ hr => .ok hr.2

theorem requireIri (h : S.Cursors c d) : S.Both Eq c.requireIri d.requireIri := by
  rw [Cursor.requireIri, Cursor.requireIri]
  rcases peek h with ⟨hc, hd⟩ | ⟨t, u, hc, hd, hbare⟩
  · rw [Cursor.expect_of_peek_eq_none hc, Cursor.expect_of_peek_eq_none hd]
    exact .error (S.ended h rfl)
  · rw [Cursor.expect_of_peek hc, Cursor.expect_of_peek hd]
    have hiri : t.iri? = u.iri? := by rw [Token.iri?, Token.iri?, (Token.bare_eq.1 hbare).2]
    dsimp only [Except.bind, bind]
    rw [hiri]
    cases u.iri? with
    | some iri => exact .ok ⟨rfl, S.pass h hc⟩
    | none => exact .error (S.helped (S.taken h hc hd rfl) _)

/-! ## 2. Runs and repeated steps -/

theorem takeRun {accept : Token → Bool} (haccept : IgnoresPlace accept) (h : S.Cursors c d) :
    (c.takeRun accept).1.map Token.text = (d.takeRun accept).1.map Token.text ∧
      S.Cursors (c.takeRun accept).2 (d.takeRun accept).2 := by
  induction c using Cursor.size_induction generalizing d with
  | ind c ih =>
    rcases peek h with ⟨hc, hd⟩ | ⟨t, u, hc, hd, hbare⟩
    · rw [Cursor.takeRun_of_peek_eq_none hc, Cursor.takeRun_of_peek_eq_none hd]
      exact ⟨rfl, h⟩
    · rw [Cursor.takeRun_of_peek hc, Cursor.takeRun_of_peek hd, haccept hbare]
      split
      · obtain ⟨htexts, hrest⟩ := ih _ (Cursor.size_pass_lt hc) (S.pass h hc)
        refine ⟨?_, hrest⟩
        rw [List.map_cons, List.map_cons, htexts, (Token.bare_eq.1 hbare).2]
      · exact ⟨rfl, h⟩

/-- What two steps that are alike make of two states, and of the next states, and so on. -/
theorem repeatStep {α β : Type} {R : α → β → Prop} {f : Cursor.Step α} {g : Cursor.Step β}
    {hf : f.Productive} {hg : g.Productive}
    (hstep : ∀ a b c d, R a b → S.Cursors c d →
      Alike S.Errors (Option.Rel fun r s => R r.1 s.1 ∧ S.Cursors r.2 s.2) (f a c) (g b d))
    {a : α} {b : β} (hab : R a b) (h : S.Cursors c d) :
    S.Both R (Cursor.repeatStep f hf a c) (Cursor.repeatStep g hg b d) := by
  induction c using Cursor.size_induction generalizing a b d with
  | ind c ih =>
    rw [Cursor.repeatStep_eq, Cursor.repeatStep_eq]
    have hs := hstep a b c d hab h
    generalize hx : f a c = x at hs ⊢
    generalize g b d = y at hs ⊢
    cases hs with
    | error he => exact .error he
    | ok hr =>
      cases hr with
      | none => exact .ok ⟨hab, h⟩
      | some hr => exact ih _ (hf _ _ _ _ hx) hr.1 hr.2

/-! ## 3. Solution modifiers -/

theorem read? (h : S.Cursors c d) :
    Alike S.Errors (Option.Rel fun r s => r.1 = s.1 ∧ S.Cursors r.2 s.2) (Modifier.read? c)
      (Modifier.read? d) := by
  rw [Modifier.read?, Modifier.read?]
  rcases peek h with ⟨hc, hd⟩ | ⟨t, u, hc, hd, hbare⟩
  · rw [hc, hd]
    exact .ok .none
  have htext := (Token.bare_eq.1 hbare).2
  have hpass := S.pass h hc
  have hby := ignoresPlace_of_text Keyword.by_.spells
  rw [hc, hd]
  dsimp only
  rw [htext]
  split
  · refine (expect hpass rfl).bind ?_
    rintro ⟨v, c₁⟩ ⟨w, d₁⟩ ⟨hv, h₁⟩
    exact .ok (.some ⟨by rw [(Token.bare_eq.1 hv).2], h₁⟩)
  split
  · refine (require hpass rfl hby).bind ?_
    rintro ⟨v, c₁⟩ ⟨w, d₁⟩ ⟨hv, h₁⟩
    refine (require h₁ rfl (ignoresPlace_of_text (·.head? == some '?'))).bind ?_
    rintro ⟨v', c₂⟩ ⟨w', d₂⟩ ⟨hv', h₂⟩
    exact .ok (.some ⟨by rw [(Token.bare_eq.1 hv).2, (Token.bare_eq.1 hv').2], h₂⟩)
  split
  · refine (require hpass rfl hby).bind ?_
    rintro ⟨v, c₁⟩ ⟨w, d₁⟩ ⟨hv, h₁⟩
    refine (expect h₁ rfl).bind ?_
    rintro ⟨v', c₂⟩ ⟨w', d₂⟩ ⟨hv', h₂⟩
    exact .ok (.some ⟨by rw [(Token.bare_eq.1 hv).2, (Token.bare_eq.1 hv').2], h₂⟩)
  · exact .ok .none

theorem readAll (h : S.Cursors c d) : S.Both Eq (Modifier.readAll c) (Modifier.readAll d) := by
  refine repeatStep ?_ rfl h
  rintro ms _ c d rfl h
  refine (read? h).bind ?_
  rintro _ _ (@⟨⟨m, c₁⟩, ⟨_, d₁⟩, rfl, h₁⟩ | _)
  · exact .ok (.some ⟨rfl, h₁⟩)
  · exact .ok .none

/-! ## 4. Heads -/

theorem readOpenBrace (h : S.Cursors c d) :
    Alike S.Errors S.Cursors (SparqlTree.readOpenBrace c) (SparqlTree.readOpenBrace d) :=
  requireKind h rfl .openBrace

theorem readDataset? (h : S.Cursors c d) :
    S.Both Eq (SparqlTree.readDataset? c) (SparqlTree.readDataset? d) := by
  rw [SparqlTree.readDataset?, SparqlTree.readDataset?]
  rcases eat? h .fromClause with ⟨hc, hd⟩ | ⟨c₁, d₁, hc, hd, h₁⟩
  · rw [hc, hd]
    exact .ok ⟨rfl, h⟩
  · rw [hc, hd]
    refine (requireIri (skip h₁ .named)).bind ?_
    rintro ⟨iri, c₂⟩ ⟨_, d₂⟩ ⟨rfl, h₂⟩
    exact .ok ⟨by rw [atKeyword h₁], h₂⟩

theorem readQuantifier? (h : S.Cursors c d) :
    (Projection.readQuantifier? c).1 = (Projection.readQuantifier? d).1 ∧
      S.Cursors (Projection.readQuantifier? c).2 (Projection.readQuantifier? d).2 := by
  rw [Projection.readQuantifier?, Projection.readQuantifier?]
  rcases eat? h .distinct with ⟨hc, hd⟩ | ⟨c₁, d₁, hc, hd, h₁⟩
  · rw [hc, hd]
    rcases eat? h .reduced with ⟨hc, hd⟩ | ⟨c₁, d₁, hc, hd, h₁⟩
    · rw [hc, hd]
      exact ⟨rfl, h⟩
    · rw [hc, hd]
      exact ⟨rfl, h₁⟩
  · rw [hc, hd]
    exact ⟨rfl, h₁⟩

theorem readWhere (h : S.Cursors c d) (hasGraph : Bool) :
    Alike S.Errors S.Cursors (Projection.readWhere hasGraph c)
      (Projection.readWhere hasGraph d) := by
  rw [Projection.readWhere, Projection.readWhere]
  rcases eatGlued? h .whereClause with ⟨hc, hd⟩ | ⟨c₁, d₁, hc, hd, h₁⟩
  · rw [hc, hd]
    dsimp only
    rw [atKind h]
    split
    · exact readOpenBrace h
    · cases hasGraph with
      | true => exact .error (S.ahead h rfl)
      | false => exact .error (S.ahead h rfl)
  · rw [hc, hd]
    exact readOpenBrace h₁

theorem ignoresPlace_isProjected : IgnoresPlace Projection.isProjected := by
  intro t u h
  obtain ⟨hkind, htext⟩ := Token.bare_eq.1 h
  rw [Projection.isProjected, Projection.isProjected, hkind, htext]

theorem readProjection (h : S.Cursors c d) (inBlock : Bool) :
    S.Both Eq (Projection.read inBlock c) (Projection.read inBlock d) := by
  obtain ⟨hq, h₁⟩ := readQuantifier? h
  obtain ⟨hts, h₂⟩ := takeRun ignoresPlace_isProjected h₁
  have hempty : ∀ ts : List Token, ts.isEmpty = (ts.map Token.text).isEmpty := by
    intro ts
    cases ts <;> rfl
  rw [Projection.read, Projection.read]
  dsimp only
  rw [hempty, hempty, hts, hq]
  split
  · exact .error (S.ahead h₂ rfl)
  · refine (readDataset? h₂).bind ?_
    rintro ⟨dataset, c₃⟩ ⟨_, d₃⟩ ⟨rfl, h₃⟩
    exact (readWhere h₃ dataset.isSome).bind fun _ _ h₄ => .ok ⟨rfl, h₄⟩

theorem readOptionalWhere (h : S.Cursors c d) :
    Alike S.Errors S.Cursors (Head.readOptionalWhere c) (Head.readOptionalWhere d) :=
  readOpenBrace (skipGlued h .whereClause)

theorem readGroup (h : S.Cursors c d) : S.Both Eq (Head.readGroup c) (Head.readGroup d) := by
  rw [Head.readGroup, Head.readGroup]
  rcases eatGlued? h .optional with ⟨hc, hd⟩ | ⟨c₁, d₁, hc, hd, h₁⟩
  · rw [hc, hd]
    dsimp only
    rcases eatGlued? h .graph with ⟨hc, hd⟩ | ⟨c₁, d₁, hc, hd, h₁⟩
    · rw [hc, hd]
      exact (readOpenBrace h).bind fun _ _ h => .ok ⟨rfl, h⟩
    · rw [hc, hd]
      refine (requireIri h₁).bind ?_
      rintro ⟨iri, c₂⟩ ⟨_, d₂⟩ ⟨rfl, h₂⟩
      exact (readOpenBrace h₂).bind fun _ _ h => .ok ⟨rfl, h⟩
  · rw [hc, hd]
    exact (readOpenBrace h₁).bind fun _ _ h => .ok ⟨rfl, h⟩

theorem atSubSelect (h : S.Cursors c d) : Head.atSubSelect c = Head.atSubSelect d := by
  rw [Head.atSubSelect, Head.atSubSelect, atKind h,
    any_peekNth h 1 (ignoresPlace_of_text Keyword.select.spells)]

theorem readNested (h : S.Cursors c d) : S.Both Eq (Head.readNested c) (Head.readNested d) := by
  rw [Head.readNested, Head.readNested, ← atSubSelect h]
  split
  · next hat =>
    obtain ⟨t, u, ht, -, hu, -⟩ := Head.atSubSelect_eq_true.1 hat
    refine (readProjection (S.pass (S.pass h ht) hu) true).bind ?_
    rintro ⟨p, c₁⟩ ⟨_, d₁⟩ ⟨rfl, h₁⟩
    exact .ok ⟨rfl, h₁⟩
  · exact readGroup h

/-- What two readings have in common of a head. -/
abbrev Heads (S : Simulation) (head head' : Head) : Prop :=
  head.mapText S.kept = head'.mapText S.kept

theorem readTemplate (h : S.Cursors c d) :
    S.Both (fun t u => S.kept t = S.kept u) (Head.readTemplate c) (Head.readTemplate d) := by
  rw [Head.readTemplate_eq, Head.readTemplate_eq]
  exact (readOpenBrace h).bind fun _ _ h => S.inside h

theorem readConstruct (h : S.Cursors c d) :
    S.Both S.Heads (Head.readConstruct c) (Head.readConstruct d) := by
  rw [Head.readConstruct, Head.readConstruct]
  refine (readTemplate h).bind ?_
  rintro ⟨template, c₁⟩ ⟨template', d₁⟩ ⟨ht, h₁⟩
  exact (readOptionalWhere h₁).bind fun _ _ h₂ => .ok ⟨congrArg (Head.construct · []) ht, h₂⟩

theorem closeProjection (h : S.Cursors c d) (p : Projection) :
    S.Both Eq (Head.closeProjection p c) (Head.closeProjection p d) := by
  rw [Head.closeProjection, Head.closeProjection]
  refine (readAll h).bind ?_
  rintro ⟨ms, c₁⟩ ⟨_, d₁⟩ ⟨rfl, h₁⟩
  dsimp only
  split
  · exact (requireKind h₁ rfl .closeBrace).bind fun _ _ h₂ => .ok ⟨rfl, h₂⟩
  · exact .ok ⟨rfl, h₁⟩

theorem close (h : S.Cursors c d) {head head' : Head} (hhead : S.Heads head head') :
    S.Both S.Heads (head.close c) (head'.close d) := by
  cases head with
  | select p =>
    cases head' <;> cases hhead
    refine (closeProjection h p).bind ?_
    rintro ⟨p', c₁⟩ ⟨_, d₁⟩ ⟨rfl, h₁⟩
    exact .ok ⟨rfl, h₁⟩
  | describe p =>
    cases head' <;> cases hhead
    refine (closeProjection h p).bind ?_
    rintro ⟨p', c₁⟩ ⟨_, d₁⟩ ⟨rfl, h₁⟩
    exact .ok ⟨rfl, h₁⟩
  | construct template ms =>
    cases head' with
    | construct template' ms' =>
      obtain ⟨ht, -⟩ := Head.construct.inj hhead
      refine (readAll h).bind ?_
      rintro ⟨ms, c₁⟩ ⟨_, d₁⟩ ⟨rfl, h₁⟩
      exact .ok ⟨congrArg (Head.construct · ms) ht, h₁⟩
    | _ => nomatch hhead
  | group | pattern | ask =>
    cases head' <;> cases hhead
    exact .ok ⟨rfl, h⟩

theorem bodyStyle_eq {head head' : Head} (h : S.Heads head head') :
    head.bodyStyle = head'.bodyStyle := by
  have hmap : ∀ head : Head, (head.mapText S.kept).bodyStyle = head.bodyStyle := by
    intro head
    cases head <;> rfl
  rw [← hmap head, h, hmap]

end Simulation

end SparqlTree
