import SparqlTree.Proofs.Grammar.ForkBody

/-!
# Readings of a text that is cut short

Where a text is cut off behind one of its tokens, the whole text and what is left of it begin alike,
and behind the beginning what is left has no token. A reading that has to consume something
`Follows` the longer one: it has the same outcome, or it is refused at the end of what is left. One
that may do without `Lags` behind it: it may also come to that end with a result.
-/

namespace SparqlTree

/-- A text that is cut short: the tokens that are left out, and the bytes of what is left and of the
whole text. -/
structure Truncation where
  rest : List Token
  left : Nat
  whole : Nat

namespace Truncation

variable (T : Truncation)

/-- The cursor in the whole text where a cursor in what is left stands. -/
def extend (d : Cursor) : Cursor := { d with upcoming := d.upcoming ++ T.rest, stop := T.whole }

/-- Cursors at the same place, in the whole text and in what is left of it. -/
structure Cursors (c d : Cursor) : Prop where
  eq : c = T.extend d
  stop : d.stop = T.left
  lexed : d.Lexed

/-- No token is left but line breaks. -/
structure Spent (d : Cursor) : Prop where
  peek : d.peek = none
  stop : d.stop = T.left

/-- Refused at the end of what is left. -/
def Fails {α : Type} (y : Except ParseError α) : Prop :=
  ∃ e, y = .error e ∧ e.found = ParseError.endOfInput ∧ e.span = ⟨T.left, T.left⟩

/-- Come to the end of what is left. -/
def Halts {α : Type} (y : Except ParseError (α × Cursor)) : Prop :=
  T.Fails y ∨ ∃ a d, y = .ok (a, d) ∧ T.Spent d

/-- The same value, with cursors at the same place. -/
def Same {α : Type} (r s : α × Cursor) : Prop := r.1 = s.1 ∧ T.Cursors r.2 s.2

/-- The same outcome, unless the shorter reading is refused at the end. -/
abbrev Follows {α β : Type} (R : α → β → Prop) (x : Except ParseError α)
    (y : Except ParseError β) : Prop :=
  T.Fails y ∨ Alike Eq R x y

/-- The same outcome, unless the shorter reading comes to the end. -/
abbrev Lags {α β : Type} (R : α → β × Cursor → Prop) (x : Except ParseError α)
    (y : Except ParseError (β × Cursor)) : Prop :=
  T.Halts y ∨ Alike Eq R x y

variable {T} {c d : Cursor} {t : Token}

/-! ## 1. Steps that follow one another -/

section

variable {α β γ δ : Type} {R : α → β → Prop} {Q : γ → δ → Prop} {x : Except ParseError α}
  {y : Except ParseError β} {f : α → Except ParseError γ} {g : β → Except ParseError δ}

theorem exists_of_alike_ok {E : ParseError → ParseError → Prop} {a : α}
    (h : Alike E R (.ok a) y) : ∃ b, y = .ok b ∧ R a b := by
  cases h with
  | ok hab => exact ⟨_, rfl, hab⟩

theorem Fails.bind (h : T.Fails y) : T.Fails (y >>= g) := by
  obtain ⟨e, rfl, he⟩ := h
  exact ⟨e, rfl, he⟩

theorem Follows.bind (h : T.Follows R x y) (hfg : ∀ a b, R a b → T.Follows Q (f a) (g b)) :
    T.Follows Q (x >>= f) (y >>= g) := by
  rcases h with hfails | halike
  · exact .inl hfails.bind
  · cases halike with
    | error he => exact .inr (.error he)
    | ok hab => exact hfg _ _ hab

end

/-! ## 2. At the end -/

theorem Spent.errorFound (h : T.Spent d) (x : Expectation) :
    (d.errorFound x).found = ParseError.endOfInput ∧
      (d.errorFound x).span = ⟨T.left, T.left⟩ := by
  rw [Cursor.errorFound, h.peek, Cursor.errorAtEnd, h.stop]
  exact ⟨rfl, rfl⟩

/-! ## 3. The whole text and what is left

They are texts that begin alike, where nothing stands behind the beginning in what is left. So no
token of it is consumed there, and no error points at one. -/

/-- The whole text, and what is left of it. -/
def fork (T : Truncation) : Fork where
  left :=
    { rest := T.rest
      stop := T.whole
      late := fun _ => True
      late_of_mem := fun _ _ => trivial
      late_cut := fun _ _ _ _ => ⟨trivial, trivial⟩ }
  right :=
    { rest := []
      stop := T.left
      late := fun _ => False
      late_of_mem := fun _ h => List.not_mem_nil h
      late_cut := fun _ _ _ h => h.elim }

theorem Cursors.base (h : T.Cursors c d) : T.fork.Cursors d c d where
  left := h.eq
  right := by
    rw [Ending.extend, show T.fork.right.rest = [] from rfl, List.append_nil,
      show T.fork.right.stop = T.left from rfl, ← h.stop]
  lexed := h.lexed

theorem cursors_of_level (h : T.fork.Level .within c d) : T.Cursors c d := by
  obtain ⟨base, rfl, hright, hlexed⟩ := h
  have hd : d = { base with stop := T.left } := by
    rw [hright, Ending.extend, show T.fork.right.rest = [] from rfl, List.append_nil]
    rfl
  rw [hd]
  exact ⟨rfl, rfl, hlexed⟩

theorem spent_of_past (h : T.fork.right.Past d) : T.Spent d where
  peek := by
    cases hp : d.peek with
    | none => rfl
    | some t => exact (h.late_of_peek hp).elim
  stop := h.stop

theorem not_consumed : ¬ T.fork.right.Consumed d := fun ⟨_, _, hlate⟩ => hlate

section

variable {α : Type} {Q : Fork.Stage → α → α → Prop} {R : α → α → Prop} {x y : Except ParseError α}

theorem Fails.of_raised {e : ParseError} (h : Fork.Raised (.past T.fork.right) e e) :
    T.Fails (.error e : Except ParseError α) := by
  rcases h.2 _ rfl with ⟨hfound, hspan⟩ | ⟨t, hlate, -⟩
  · exact ⟨e, rfl, hfound, hspan⟩
  · exact hlate.elim

/-- Readings that have to consume something do not give a result behind the beginning. -/
theorem Follows.of_fork (h : T.fork.Follows Q .within x y) (hR : ∀ a b, Q .within a b → R a b)
    (hno : ∀ a, ¬ Q (.past T.fork.right) a a) : T.Follows R x y := by
  cases h with
  | ok h => exact .inr (.ok (hR _ _ h))
  | error h => exact .inr (.error h.1)
  | parted _ hy =>
    cases hy with
    | ok h => exact absurd h (hno _)
    | error h => exact .inl (.of_raised h)

theorem Follows.of_moved {x y : Except ParseError Cursor}
    (h : T.fork.Follows T.fork.Moved .within x y) : T.Follows T.Cursors x y :=
  .of_fork h (fun _ _ h => cursors_of_level h.level) fun _ h => not_consumed (h.consumed _ rfl)

theorem Follows.of_taken {x y : Except ParseError (α × Cursor)}
    (h : T.fork.Follows T.fork.Taken .within x y) : T.Follows T.Same x y :=
  .of_fork h (fun _ _ h => ⟨h.1, cursors_of_level h.2.level⟩) fun _ h =>
    not_consumed (h.2.consumed _ rfl)

theorem Lags.of_same {x y : Except ParseError (α × Cursor)}
    (h : T.fork.Follows T.fork.Same .within x y) : T.Lags T.Same x y := by
  cases h with
  | ok h => exact .inr (.ok ⟨h.1, cursors_of_level h.2⟩)
  | error h => exact .inr (.error h.1)
  | parted _ hy =>
    cases hy with
    | @ok _ r _ h => exact .inl (.inr ⟨r.1, r.2, rfl, spent_of_past h.2.2⟩)
    | error h => exact .inl (.inl (.of_raised h))

end

/-! ## 4. Cursors at the same place -/

namespace Cursors

variable (h : T.Cursors c d)

include h

theorem level : T.fork.Level .within c d := ⟨d, h.base⟩

theorem spent (hp : d.peek = none) : T.Spent d := ⟨hp, h.stop⟩

theorem facing (hp : d.peek = some t) : T.fork.Facing .within c d := ⟨d, t, h.base, hp⟩

theorem peek (hp : d.peek = some t) : c.peek = some t := (h.facing hp).peek_eq.trans hp

theorem pass (hp : d.peek = some t) : T.Cursors c.pass d.pass :=
  cursors_of_level ((h.facing hp).pass hp).level

theorem errorFound (hp : d.peek = some t) (x : Expectation) : c.errorFound x = d.errorFound x :=
  ((h.facing hp).errorFound x).1

/-- A refusal for whatever comes next. -/
theorem throwFound {α β : Type} {R : α → β → Prop} (x : Expectation) :
    T.Follows R (throw (c.errorFound x)) (throw (d.errorFound x)) := by
  cases hp : d.peek with
  | none => exact .inl ⟨_, rfl, (h.spent hp).errorFound x⟩
  | some t => exact .inr (.error (h.errorFound hp x))

theorem eatGlued? (hp : d.peek = some t) (k : Keyword) :
    c.eatGlued? k = none ∧ d.eatGlued? k = none ∨
      ∃ c₁ d₁, c.eatGlued? k = some c₁ ∧ d.eatGlued? k = some d₁ ∧ T.Cursors c₁ d₁ := by
  refine ((h.facing hp).eatGlued? k).imp_right ?_
  rintro ⟨c₁, d₁, hc, hd, h₁⟩
  exact ⟨c₁, d₁, hc, hd, cursors_of_level h₁.level⟩

end Cursors

theorem readOpenBrace (h : T.Cursors c d) :
    T.Follows T.Cursors (SparqlTree.readOpenBrace c) (SparqlTree.readOpenBrace d) :=
  .of_moved h.level.readOpenBrace

theorem readBody {cfg : Config} {style : BodyStyle} (h : T.Cursors c d) :
    T.Follows T.Same (readBody cfg style c) (readBody cfg style d) :=
  .of_taken (h.level.readBody cfg style)

end Truncation

end SparqlTree
