import SparqlTree.Proofs.Grammar.Simulation

/-!
# Two texts that begin alike

Two readings of texts with a common beginning take the same course as long as tokens of the
beginning are left. At its end they part, and from there on each is past the beginning: what it
still consumes, and any place at which it is refused, belongs to the rest of its own text
(`Fork.Follows`). So an outcome that points into the beginning is the same for both.

The readings may part before all of the beginning is consumed. A brace before SELECT begins a
sub-select, and a group otherwise; if the beginning ends behind it the rest decides.
-/

namespace SparqlTree

/-- What stands behind the beginning of a text. -/
structure Ending where
  /-- The tokens behind the beginning. -/
  rest : List Token
  /-- The bytes of the whole text. -/
  stop : Nat
  /-- True of the tokens behind the beginning, and of their pieces. -/
  late : Token → Prop
  late_of_mem : ∀ t ∈ rest, late t
  late_cut : ∀ t head tail, late t → late (t.cut head tail).1 ∧ late (t.cut head tail).2

namespace Ending

variable (E : Ending) {c d : Cursor} {t : Token}

/-- The cursor in the whole text where a cursor in its beginning stands. -/
def extend (d : Cursor) : Cursor := { d with upcoming := d.upcoming ++ E.rest, stop := E.stop }

/-- Nothing of the beginning is left but line breaks. -/
structure Past (c : Cursor) : Prop where
  stop : c.stop = E.stop
  late : ∀ t ∈ c.upcoming, t.isLineBreak = false → E.late t

/-- Raised at a token behind the beginning, or at the end of the text. -/
def Behind (e : ParseError) : Prop :=
  e.found = ParseError.endOfInput ∧ e.span = ⟨E.stop, E.stop⟩ ∨ ∃ t, E.late t ∧ e.span = t.span

/-- The token consumed last stands behind the beginning. -/
def Consumed (c : Cursor) : Prop := ∃ t, c.consumed.head? = some t ∧ E.late t

variable {E}

/-! ## 1. The end of a beginning -/

theorem takeWhile_extend (hp : d.peek = some t) :
    (E.extend d).upcoming.takeWhile Token.isLineBreak =
      d.upcoming.takeWhile Token.isLineBreak := by
  have hup := Cursor.upcoming_eq_of_peek hp
  have hbreak : ¬ t.isLineBreak = true := by rw [Cursor.noBreak_of_peek hp]; decide
  have hall : ∀ u ∈ d.upcoming.takeWhile Token.isLineBreak, u.isLineBreak = true :=
    fun u hu => List.all_eq_true.1 List.all_takeWhile u hu
  generalize d.upcoming.takeWhile Token.isLineBreak = bs at hup hall
  rw [extend, hup, List.append_assoc, List.takeWhile_append_of_pos hall, List.cons_append,
    List.takeWhile_cons_of_neg hbreak, List.append_nil]

theorem advance_extend {n : Nat} (hn : n ≤ d.upcoming.length) :
    (E.extend d).advance n = E.extend (d.advance n) := by
  rw [Cursor.advance, Cursor.advance, extend, extend]
  dsimp only
  rw [List.take_append_of_le_length hn, List.drop_append_of_le_length hn]

theorem skipBreaks_extend (hp : d.peek = some t) :
    (E.extend d).skipBreaks = E.extend d.skipBreaks := by
  rw [Cursor.skipBreaks, takeWhile_extend hp, Cursor.skipBreaks]
  exact advance_extend (List.takeWhile_sublist _).length_le

theorem peek_extend (hp : d.peek = some t) : (E.extend d).peek = some t := by
  rw [Cursor.peek_eq_head?_skipBreaks, skipBreaks_extend hp, extend,
    Cursor.skipBreaks_upcoming_eq_of_peek hp]
  rfl

theorem pass_extend (hp : d.peek = some t) : (E.extend d).pass = E.extend d.pass := by
  rw [Cursor.pass, skipBreaks_extend hp]
  refine advance_extend ?_
  rw [Cursor.skipBreaks_upcoming_eq_of_peek hp]
  exact Nat.succ_pos _

theorem breakOff_extend (d : Cursor) (head : Text) :
    (E.extend d).breakOff head = E.extend (d.breakOff head) := by
  cases hc : d.consumed with
  | nil =>
    have hc' : (E.extend d).consumed = [] := hc
    rw [Cursor.breakOff, Cursor.breakOff, Cursor.breakOff?, Cursor.breakOff?, hc, hc']
    rfl
  | cons t before =>
    have hc' : (E.extend d).consumed = t :: before := hc
    rw [Cursor.breakOff_eq hc, Cursor.breakOff_eq hc']
    split <;> rfl

theorem past_extend (hp : d.peek = none) : E.Past (E.extend d) where
  stop := rfl
  late t ht hbreak := by
    rcases List.mem_append.1 ht with ht | ht
    · rw [Cursor.isLineBreak_of_peek_eq_none hp t ht] at hbreak
      nomatch hbreak
    · exact E.late_of_mem t ht

/-! ## 2. Past the beginning -/

namespace Past

variable (h : E.Past c)

include h

theorem advance (n : Nat) : E.Past (c.advance n) where
  stop := h.stop
  late t ht := h.late t (List.mem_of_mem_drop ht)

theorem late_of_peek (hp : c.peek = some t) : E.late t := by
  refine h.late t ?_ (Cursor.noBreak_of_peek hp)
  rw [Cursor.upcoming_eq_of_peek hp]
  simp

theorem pass (hp : c.peek = some t) : E.Past c.pass ∧ E.Consumed c.pass :=
  ⟨(h.advance _).advance 1, t, by rw [Cursor.consumed_pass_of_peek hp]; rfl, h.late_of_peek hp⟩

theorem cut (hp : c.peek = some t) (head : Text) :
    E.Past (c.pass.breakOff head) ∧ E.Consumed (c.pass.breakOff head) := by
  rw [Cursor.breakOff_eq (Cursor.consumed_pass_of_peek hp)]
  split
  · obtain ⟨hfront, hback⟩ := E.late_cut t (t.text.take head.length) (t.text.drop head.length)
      (h.late_of_peek hp)
    refine ⟨⟨h.stop, fun u hu hbreak => ?_⟩, _, rfl, hfront⟩
    rcases List.mem_cons.1 hu with rfl | hu
    · exact hback
    · exact (h.pass hp).1.late u hu hbreak
  · exact h.pass hp

theorem behind_errorAt (hp : c.peek = some t) (d : Cursor) (x : Expectation) :
    E.Behind (d.errorAt t x) :=
  .inr ⟨t, h.late_of_peek hp, rfl⟩

theorem behind_errorFound (x : Expectation) : E.Behind (c.errorFound x) := by
  rw [Cursor.errorFound]
  cases hp : c.peek with
  | none => exact .inl ⟨rfl, congrArg (fun n => Span.mk n n) h.stop⟩
  | some t => exact h.behind_errorAt hp c x

theorem behind_errorAtEnd (x : Expectation) : E.Behind (c.drain.errorAtEnd x) :=
  .inl ⟨rfl, congrArg (fun n => Span.mk n n) h.stop⟩

end Past

end Ending

/-- Two texts that begin alike, by what stands behind their beginning. -/
structure Fork where
  left : Ending
  right : Ending

namespace Fork

/-- How far two readings have come: to the same place in the common beginning, or one of them past
it. In that case it is only compared with itself. -/
inductive Stage where
  | within
  | past (E : Ending)

variable (K : Fork)

/-- Cursors in the two texts at the same place in their beginning. -/
structure Cursors (base c d : Cursor) : Prop where
  left : c = K.left.extend base
  right : d = K.right.extend base
  lexed : base.Lexed

/-- Cursors at the same stage. -/
def Level : Stage → Cursor → Cursor → Prop
  | .within, c, d => ∃ base, K.Cursors base c d
  | .past E, c, d => c = d ∧ E.Past c

/-- Cursors at the same stage, behind a token that was consumed at that stage or before. -/
structure Moved (i : Stage) (c d : Cursor) : Prop where
  level : K.Level i c d
  consumed : ∀ E, i = .past E → E.Consumed c

/-- Cursors before the same token, or past the beginning. -/
def Facing : Stage → Cursor → Cursor → Prop
  | .within, c, d => ∃ base t, K.Cursors base c d ∧ base.peek = some t
  | .past E, c, d => c = d ∧ E.Past c

/-- The same error; past the beginning it points there. -/
def Raised (i : Stage) (e f : ParseError) : Prop := e = f ∧ ∀ E, i = .past E → E.Behind e

/-- The same value, with cursors at the same stage. -/
def Same {α : Type} (i : Stage) (r s : α × Cursor) : Prop := r.1 = s.1 ∧ K.Level i r.2 s.2

/-- The same value, with cursors that have moved to the same stage. -/
def Taken {α : Type} (i : Stage) (r s : α × Cursor) : Prop := r.1 = s.1 ∧ K.Moved i r.2 s.2

/-- Outcomes of two readings: results that are related, or the same error, unless both readings have
gone past the beginning. -/
inductive Follows {α : Type} (R : Stage → α → α → Prop) :
    Stage → Except ParseError α → Except ParseError α → Prop
  | ok {i : Stage} {a b : α} (h : R i a b) : Follows R i (.ok a) (.ok b)
  | error {i : Stage} {e f : ParseError} (h : Raised i e f) : Follows R i (.error e) (.error f)
  | parted {x y : Except ParseError α} (hx : Follows R (.past K.left) x x)
    (hy : Follows R (.past K.right) y y) : Follows R .within x y

variable {K} {i : Stage} {c d : Cursor} {t : Token}

/-! ## 3. Steps that follow one another -/

section

variable {α β : Type} {R : Stage → α → α → Prop} {Q : Stage → β → β → Prop}
  {x y : Except ParseError α} {f g : α → Except ParseError β}

/-- Steps that follow one another. Readings that part in the first step go on alone. -/
theorem Follows.bind_of_parted (h : K.Follows R i x y)
    (hfg : ∀ a b, x = .ok a → y = .ok b → R i a b → K.Follows Q i (f a) (g b))
    (hf : i = .within → ∀ a, x = .ok a → R (.past K.left) a a →
      K.Follows Q (.past K.left) (f a) (f a))
    (hg : i = .within → ∀ a, y = .ok a → R (.past K.right) a a →
      K.Follows Q (.past K.right) (g a) (g a)) :
    K.Follows Q i (x >>= f) (y >>= g) := by
  cases h with
  | ok h => exact hfg _ _ rfl rfl h
  | error h => exact .error h
  | parted hx hy =>
    refine .parted ?_ ?_
    · cases hx with
      | ok h => exact hf rfl _ rfl h
      | error h => exact .error h
    · cases hy with
      | ok h => exact hg rfl _ rfl h
      | error h => exact .error h

/-- The first step may be known to give results with a certain property in either text. -/
theorem Follows.bind_of {P : α → Prop} (h : K.Follows R i x y) (hx : ∀ a, x = .ok a → P a)
    (hy : ∀ a, y = .ok a → P a)
    (hf : ∀ i a b, P a → P b → R i a b → K.Follows Q i (f a) (f b)) :
    K.Follows Q i (x >>= f) (y >>= f) :=
  h.bind_of_parted (fun a b ha hb => hf i a b (hx a ha) (hy b hb))
    (fun _ a ha => hf _ a a (hx a ha) (hx a ha)) fun _ a ha => hf _ a a (hy a ha) (hy a ha)

theorem Follows.bind (h : K.Follows R i x y)
    (hf : ∀ i a b, R i a b → K.Follows Q i (f a) (f b)) : K.Follows Q i (x >>= f) (y >>= f) :=
  h.bind_of (P := fun _ => True) (fun _ _ => trivial) (fun _ _ => trivial)
    fun i a b _ _ => hf i a b

theorem Follows.of_ok {E : Ending} {a b : α} (h : K.Follows R (.past E) (.ok a) (.ok b)) :
    R (.past E) a b := by
  cases h with
  | ok h => exact h

/-- A result that does not belong to the rest of its text is one in the other text too. -/
theorem Follows.exists_ok {a : α} (h : K.Follows R .within (.ok a) y)
    (hno : ¬ R (.past K.left) a a) : ∃ b, y = .ok b ∧ R .within a b := by
  cases h with
  | ok h => exact ⟨_, rfl, h⟩
  | parted hx _ => exact absurd hx.of_ok hno

/-- An error that does not point at the rest of its text is raised in the other text too. -/
theorem Follows.eq_error {e : ParseError} (h : K.Follows R .within (.error e) y)
    (hno : ¬ K.left.Behind e) : y = .error e := by
  cases h with
  | error h => rw [h.1]
  | parted hx _ =>
    cases hx with
    | error h => exact absurd (h.2 _ rfl) hno

/-- A reading that does not look at its cursor further than to the next token may be compared where
both face the same one. -/
theorem Level.follows_of {P : Cursor → Prop} (h : K.Level i c d)
    (fn : Cursor → Except ParseError α) (hc : P c) (hd : P d)
    (hfn : ∀ i c d, P c → P d → K.Facing i c d → K.Follows R i (fn c) (fn d)) :
    K.Follows R i (fn c) (fn d) := by
  cases i with
  | past E => exact hfn _ _ _ hc hd h
  | within =>
    obtain ⟨base, hbase⟩ := h
    cases hp : base.peek with
    | some t => exact hfn _ _ _ hc hd ⟨base, t, hbase, hp⟩
    | none =>
      have hleft : K.left.Past c := hbase.left ▸ Ending.past_extend hp
      have hright : K.right.Past d := hbase.right ▸ Ending.past_extend hp
      exact .parted (hfn _ _ _ hc hc ⟨rfl, hleft⟩) (hfn _ _ _ hd hd ⟨rfl, hright⟩)

/-- A reading that goes on with less to read may be compared by induction on that, in both texts at
once. The index `j` stands for what else changes on the way. -/
theorem Level.follows_of_smaller {ι : Type} (h : K.Level i c d)
    (fn : ι → Cursor → Except ParseError α)
    (hstep : ∀ n, (∀ j i c d, K.Level i c d → c.size < n → d.size < n →
        K.Follows R i (fn j c) (fn j d)) →
      ∀ j i c d, K.Facing i c d → c.size ≤ n → d.size ≤ n → K.Follows R i (fn j c) (fn j d))
    (j : ι) : K.Follows R i (fn j c) (fn j d) := by
  suffices hall : ∀ n j i c d, K.Level i c d → c.size ≤ n → d.size ≤ n →
      K.Follows R i (fn j c) (fn j d) from
    hall (max c.size d.size) j i c d h (by omega) (by omega)
  intro n
  induction n using Nat.strongRecOn with
  | ind n ih =>
    intro j i c d h hc hd
    refine h.follows_of (P := fun c => c.size ≤ n) (fn j) hc hd fun i c d hc hd h => ?_
    refine hstep n (fun j i c d h hc hd => ?_) j i c d h hc hd
    exact ih (max c.size d.size) (by omega) j i c d h (by omega) (by omega)

theorem Level.follows (h : K.Level i c d) (fn : Cursor → Except ParseError α)
    (hfn : ∀ i c d, K.Facing i c d → K.Follows R i (fn c) (fn d)) :
    K.Follows R i (fn c) (fn d) :=
  h.follows_of (P := fun _ => True) fn trivial trivial fun i c d _ _ => hfn i c d

end

/-- Within the beginning nothing is asked of the token consumed last. -/
theorem Level.moved (h : K.Level .within c d) : K.Moved .within c d := ⟨h, fun _ hE => nomatch hE⟩

theorem Same.pair {α β : Type} {r s : α × Cursor} (h : K.Same i r s) (u : α → β) :
    K.Same i (u r.1, r.2) (u s.1, s.2) :=
  ⟨congrArg u h.1, h.2⟩

theorem Taken.pair {α β : Type} {r s : α × Cursor} (h : K.Taken i r s) (u : α → β) :
    K.Taken i (u r.1, r.2) (u s.1, s.2) :=
  ⟨congrArg u h.1, h.2⟩

theorem Taken.same {α : Type} {r s : α × Cursor} (h : K.Taken i r s) : K.Same i r s :=
  ⟨h.1, h.2.level⟩

theorem Follows.same {α : Type} {x y : Except ParseError (α × Cursor)}
    (h : K.Follows K.Taken i x y) : K.Follows K.Same i x y := by
  rw [← bind_pure x, ← bind_pure y]
  exact h.bind fun _ _ _ hr => .ok hr.same

theorem Raised.withHelp {e f : ParseError} (h : Raised i e f) (help : Text) :
    Raised i (e.withHelp help) (f.withHelp help) :=
  ⟨congrArg (ParseError.withHelp · help) h.1, h.2⟩

/-! ## 4. The next token -/

/-- Where tokens of the beginning are left, both readings face the first of them. -/
theorem Level.facing (h : K.Level .within c d) (hno : ¬ K.left.Past c) : K.Facing .within c d := by
  obtain ⟨base, hbase⟩ := h
  cases hp : base.peek with
  | none => exact absurd (hbase.left ▸ Ending.past_extend hp) hno
  | some t => exact ⟨base, t, hbase, hp⟩

namespace Facing

variable (h : K.Facing i c d)

include h

theorem level : K.Level i c d := by
  cases i with
  | past E => exact h
  | within =>
    obtain ⟨base, t, hbase, -⟩ := h
    exact ⟨base, hbase⟩

theorem peek_eq : c.peek = d.peek := by
  cases i with
  | past E => exact congrArg Cursor.peek h.1
  | within =>
    obtain ⟨base, t, hbase, hp⟩ := h
    rw [hbase.left, hbase.right, Ending.peek_extend hp, Ending.peek_extend hp]

theorem pass (hp : d.peek = some t) : K.Moved i c.pass d.pass := by
  cases i with
  | past E =>
    obtain ⟨rfl, h⟩ := h
    obtain ⟨hpast, hconsumed⟩ := h.pass hp
    exact ⟨⟨rfl, hpast⟩, fun E' hE => Stage.past.inj hE ▸ hconsumed⟩
  | within =>
    obtain ⟨base, t, hbase, hp⟩ := h
    refine Level.moved ⟨base.pass, ?_, ?_, hbase.lexed.pass⟩
    · rw [hbase.left, Ending.pass_extend hp]
    · rw [hbase.right, Ending.pass_extend hp]

theorem cut (hp : d.peek = some t) {head : Text} (hhead : IsHead t head) :
    K.Moved i (c.pass.breakOff head) (d.pass.breakOff head) := by
  cases i with
  | past E =>
    obtain ⟨rfl, h⟩ := h
    obtain ⟨hpast, hconsumed⟩ := h.cut hp head
    exact ⟨⟨rfl, hpast⟩, fun E' hE => Stage.past.inj hE ▸ hconsumed⟩
  | within =>
    obtain ⟨base, t, hbase, hp⟩ := h
    refine Level.moved ⟨base.pass.breakOff head, ?_, ?_, hbase.lexed.pass.breakOff hhead.word.2⟩
    · rw [hbase.left, Ending.pass_extend hp, Ending.breakOff_extend]
    · rw [hbase.right, Ending.pass_extend hp, Ending.breakOff_extend]

theorem errorAt_pass (hp : d.peek = some t) (x : Expectation) :
    Raised i (c.pass.errorAt t x) (d.pass.errorAt t x) := by
  cases i with
  | past E =>
    obtain ⟨rfl, h⟩ := h
    exact ⟨rfl, fun E' hE => Stage.past.inj hE ▸ h.behind_errorAt hp _ x⟩
  | within =>
    obtain ⟨base, u, hbase, hp⟩ := h
    refine ⟨?_, fun E hE => nomatch hE⟩
    rw [hbase.left, hbase.right, Ending.pass_extend hp, Ending.pass_extend hp]
    rfl

theorem errorFound (x : Expectation) : Raised i (c.errorFound x) (d.errorFound x) := by
  cases i with
  | past E =>
    obtain ⟨rfl, h⟩ := h
    exact ⟨rfl, fun E' hE => Stage.past.inj hE ▸ h.behind_errorFound x⟩
  | within =>
    obtain ⟨base, t, hbase, hp⟩ := h
    refine ⟨?_, fun E hE => nomatch hE⟩
    rw [hbase.left, hbase.right, Cursor.errorFound, Cursor.errorFound, Ending.peek_extend hp,
      Ending.peek_extend hp]
    rfl

theorem errorAtEnd (hp : d.peek = none) (x : Expectation) :
    Raised i (c.drain.errorAtEnd x) (d.drain.errorAtEnd x) := by
  cases i with
  | past E =>
    obtain ⟨rfl, h⟩ := h
    exact ⟨rfl, fun E' hE => Stage.past.inj hE ▸ h.behind_errorAtEnd x⟩
  | within =>
    obtain ⟨base, t, hbase, hbp⟩ := h
    rw [hbase.right, Ending.peek_extend hbp] at hp
    nomatch hp

theorem breaksBefore : breaksBefore c = breaksBefore d := by
  cases i with
  | past E => exact congrArg SparqlTree.breaksBefore h.1
  | within =>
    obtain ⟨base, t, hbase, hp⟩ := h
    rw [SparqlTree.breaksBefore, SparqlTree.breaksBefore, hbase.left, hbase.right,
      Ending.takeWhile_extend hp, Ending.takeWhile_extend hp]

theorem atKeyword (k : Keyword) : c.atKeyword k = d.atKeyword k := by
  rw [Cursor.atKeyword, Cursor.atKeyword, h.peek_eq]

theorem atGlued (k : Keyword) : c.atGlued k = d.atGlued k := by
  rw [Cursor.atGlued, Cursor.atGlued, h.peek_eq]

theorem atKind (kind : TokenKind) : c.atKind kind = d.atKind kind := by
  rw [Cursor.atKind, Cursor.atKind, h.peek_eq]

theorem eat? (k : Keyword) : c.eat? k = none ∧ d.eat? k = none ∨
    ∃ c₁ d₁, c.eat? k = some c₁ ∧ d.eat? k = some d₁ ∧ K.Moved i c₁ d₁ := by
  rw [Cursor.eat?, Cursor.eat?, h.atKeyword]
  split
  · next hk =>
    obtain ⟨t, hp, -⟩ := Cursor.atKeyword_eq_true.1 hk
    exact .inr ⟨_, _, rfl, rfl, h.pass hp⟩
  · exact .inl ⟨rfl, rfl⟩

theorem eatGlued? (k : Keyword) : c.eatGlued? k = none ∧ d.eatGlued? k = none ∨
    ∃ c₁ d₁, c.eatGlued? k = some c₁ ∧ d.eatGlued? k = some d₁ ∧ K.Moved i c₁ d₁ := by
  rw [Cursor.eatGlued?, Cursor.eatGlued?, h.atGlued]
  split
  · next hk =>
    obtain ⟨t, hp, hleads⟩ := Cursor.atGlued_eq_true.1 hk
    exact .inr ⟨_, _, rfl, rfl, h.cut hp (.keyword hleads)⟩
  · exact .inl ⟨rfl, rfl⟩

theorem skip (k : Keyword) : K.Level i (c.skip k) (d.skip k) := by
  rw [Cursor.skip, Cursor.skip]
  rcases h.eat? k with ⟨hc, hd⟩ | ⟨c₁, d₁, hc, hd, h₁⟩
  · rw [hc, hd]
    exact h.level
  · rw [hc, hd]
    exact h₁.level

theorem skipGlued (k : Keyword) : K.Level i (c.skipGlued k) (d.skipGlued k) := by
  rw [Cursor.skipGlued, Cursor.skipGlued]
  rcases h.eatGlued? k with ⟨hc, hd⟩ | ⟨c₁, d₁, hc, hd, h₁⟩
  · rw [hc, hd]
    exact h.level
  · rw [hc, hd]
    exact h₁.level

end Facing

namespace Level

variable (h : K.Level i c d)

include h

/-- A refusal for whatever comes next. -/
theorem throwFound {α : Type} {R : Stage → α → α → Prop} (x : Expectation) :
    K.Follows R i (throw (c.errorFound x)) (throw (d.errorFound x)) :=
  h.follows (fun c => throw (c.errorFound x)) fun _ _ _ h => .error (h.errorFound x)

theorem require (x : Expectation) (accept : Token → Bool) :
    K.Follows K.Taken i (c.require x accept) (d.require x accept) := by
  refine h.follows (·.require x accept) fun i c d h => ?_
  rw [Cursor.require, Cursor.require]
  cases hp : d.peek with
  | none =>
    rw [Cursor.expect_of_peek_eq_none (h.peek_eq.trans hp), Cursor.expect_of_peek_eq_none hp]
    exact .error (h.errorAtEnd hp x)
  | some t =>
    rw [Cursor.expect_of_peek (h.peek_eq.trans hp), Cursor.expect_of_peek hp]
    show K.Follows K.Taken i (if accept t then _ else _) (if accept t then _ else _)
    split
    · exact .ok ⟨rfl, h.pass hp⟩
    · exact .error (h.errorAt_pass hp x)

theorem expect (x : Expectation) : K.Follows K.Taken i (c.expect x) (d.expect x) := by
  refine h.follows (·.expect x) fun i c d h => ?_
  cases hp : d.peek with
  | none =>
    rw [Cursor.expect_of_peek_eq_none (h.peek_eq.trans hp), Cursor.expect_of_peek_eq_none hp]
    exact .error (h.errorAtEnd hp x)
  | some t =>
    rw [Cursor.expect_of_peek (h.peek_eq.trans hp), Cursor.expect_of_peek hp]
    exact .ok ⟨rfl, h.pass hp⟩

theorem requireKind (x : Expectation) (kind : TokenKind) :
    K.Follows K.Moved i (c.requireKind x kind) (d.requireKind x kind) :=
  (h.require x _).bind fun _ _ _ hr => .ok hr.2

theorem requireIri : K.Follows K.Taken i c.requireIri d.requireIri := by
  refine h.follows Cursor.requireIri fun i c d h => ?_
  rw [Cursor.requireIri, Cursor.requireIri]
  cases hp : d.peek with
  | none =>
    rw [Cursor.expect_of_peek_eq_none (h.peek_eq.trans hp), Cursor.expect_of_peek_eq_none hp]
    exact .error (h.errorAtEnd hp .iri)
  | some t =>
    rw [Cursor.expect_of_peek (h.peek_eq.trans hp), Cursor.expect_of_peek hp]
    dsimp only [Except.bind, bind]
    cases t.iri? with
    | some iri => exact .ok ⟨rfl, h.pass hp⟩
    | none => exact .error ((h.errorAt_pass hp .iri).withHelp _)

/-- An IRI reference may follow a keyword that may be left out. -/
theorem requireIri_skip (k : Keyword) :
    K.Follows K.Taken i (c.skip k).requireIri (d.skip k).requireIri :=
  h.follows (fun c => (c.skip k).requireIri) fun _ _ _ h => (h.skip k).requireIri

/-! ## 5. Runs and repeated steps -/

theorem takeRun (accept : Token → Bool) :
    K.Follows K.Same i (pure (c.takeRun accept)) (pure (d.takeRun accept)) := by
  refine h.follows_of_smaller (fun (_ : Unit) c => pure (c.takeRun accept))
    (fun n ih _ i c d h hc hd => ?_) ()
  cases hp : d.peek with
  | none =>
    rw [Cursor.takeRun_of_peek_eq_none (h.peek_eq.trans hp), Cursor.takeRun_of_peek_eq_none hp]
    exact .ok ⟨rfl, h.level⟩
  | some t =>
    have hcp := h.peek_eq.trans hp
    have := Cursor.size_pass_lt hcp
    have := Cursor.size_pass_lt hp
    rw [Cursor.takeRun_of_peek hcp, Cursor.takeRun_of_peek hp]
    split
    · exact (ih () _ _ _ (h.pass hp).level (by omega) (by omega)).bind
        fun _ _ _ hr => .ok (hr.pair (t :: ·))
    · exact .ok ⟨rfl, h.level⟩

end Level

/-- A step that declines, or one that is taken. -/
inductive Stepped (K : Fork) {α : Type} (i : Stage) :
    Stage → Option (α × Cursor) → Option (α × Cursor) → Prop
  | declined : Stepped K i i none none
  | taken {j : Stage} {r s : α × Cursor} (h : K.Same j r s) : Stepped K i j (some r) (some s)

theorem Level.repeatStep {α : Type} {f : Cursor.Step α} {hf : f.Productive}
    (hstep : ∀ a i c d, K.Facing i c d → K.Follows (K.Stepped i) i (f a c) (f a d)) (a : α)
    (h : K.Level i c d) :
    K.Follows K.Same i (Cursor.repeatStep f hf a c) (Cursor.repeatStep f hf a d) := by
  refine h.follows_of_smaller (Cursor.repeatStep f hf) (fun n ih a i c d h hc hd => ?_) a
  -- A step that was taken leaves less to read, in either text.
  have hless : ∀ a₁ c₁, f a c = .ok (some (a₁, c₁)) ∨ f a d = .ok (some (a₁, c₁)) →
      c₁.size < n := by
    rintro a₁ c₁ (hr | hr)
    · exact Nat.lt_of_lt_of_le (hf _ _ _ _ hr) hc
    · exact Nat.lt_of_lt_of_le (hf _ _ _ _ hr) hd
  have hnext : ∀ {j a₁ a₂ c₁ d₁}, (f a c = .ok (some (a₁, c₁)) ∨ f a d = .ok (some (a₁, c₁))) →
      (f a c = .ok (some (a₂, d₁)) ∨ f a d = .ok (some (a₂, d₁))) →
      K.Same j (a₁, c₁) (a₂, d₁) →
      K.Follows K.Same j (Cursor.repeatStep f hf a₁ c₁) (Cursor.repeatStep f hf a₂ d₁) := by
    rintro j a₁ _ c₁ d₁ hr hs ⟨rfl, h₁⟩
    exact ih a₁ j c₁ d₁ h₁ (hless _ _ hr) (hless _ _ hs)
  rw [Cursor.repeatStep_eq, Cursor.repeatStep_eq]
  refine (hstep a i c d h).bind_of_parted ?_ ?_ ?_
  · rintro _ _ hx hy (_ | h₁)
    · exact .ok ⟨rfl, h.level⟩
    · exact hnext (.inl hx) (.inr hy) h₁
  · rintro rfl _ hx (_ | h₁)
    exact hnext (.inl hx) (.inl hx) h₁
  · rintro rfl _ hy (_ | h₁)
    exact hnext (.inr hy) (.inr hy) h₁

end Fork

end SparqlTree
