import SparqlTree.Proofs.Grammar.Conservation
import SparqlTree.Proofs.Grammar.Loops
import SparqlTree.Proofs.Query.ErrorPlace

/-!
# Reading goes on

No reading function goes back in a text: behind what it reads there are fewer bytes, or it has read
nothing. Each turn of a loop leaves fewer bytes than there were, so that no loop takes more turns
than there are bytes, and every one ends (`Query.progresses_of_reached`).

The reading functions are taken as a simulation of a reading with itself, whose cursors are those
from some cursor on.
-/

namespace SparqlTree

/-! ## 1. Cursors from one on -/

namespace Cursor

/-- A cursor of a text that is the cursor `start`, or one with fewer bytes unread. -/
structure From (text : Text) (start c : Cursor) : Prop where
  reached : c.Reached text
  onward : c = start ∨ c.unread < start.unread

variable {text : Text} {start c c' : Cursor}

theorem Reached.from (hc : c.Reached text) : From text c c := ⟨hc, .inl rfl⟩

theorem From.unread_le (h : From text start c) : c.unread ≤ start.unread := by
  rcases h.onward with rfl | hlt
  · exact Nat.le_refl _
  · exact Nat.le_of_lt hlt

theorem From.trans (h : From text start c) (h' : From text c c') : From text start c' := by
  refine ⟨h'.reached, ?_⟩
  rcases h'.onward with rfl | hlt
  · exact h.onward
  · exact .inr (Nat.lt_of_lt_of_le hlt h.unread_le)

/-- Where less is left to read, fewer bytes are. -/
theorem From.unread_lt (h : From text start c) (hsize : c.size < start.size) :
    c.unread < start.unread := by
  rcases h.onward with rfl | hlt
  · exact absurd hsize (Nat.lt_irrefl _)
  · exact hlt

theorem From.advance (h : From text start c) (n : Nat) : From text start (c.advance n) :=
  h.trans ⟨h.reached.advance n, h.reached.lexed.unread_advance n⟩

theorem From.pass (h : From text start c) : From text start c.pass := (h.advance _).advance 1

theorem From.cut (h : From text start c) {t : Token} (hp : c.peek = some t) {head : Text}
    (hhead : IsHead t head) : From text start (c.pass.breakOff head) :=
  h.trans ⟨h.pass.reached.breakOff hhead.word.2, .inr (h.reached.lexed.unread_cut hp head)⟩

end Cursor

/-- The error is raised at a cursor of a text that is `start` or comes behind it. -/
def ParseError.RaisedFrom (text : Text) (start : Cursor) (e : ParseError) : Prop :=
  ∃ c, Cursor.From text start c ∧ e.line = c.line ∧ e.near = c.previous c.window

namespace Cursor

variable {text : Text} {start c : Cursor}

theorem From.errorFound (h : From text start c) (x : Expectation) :
    (c.errorFound x).RaisedFrom text start := by
  unfold Cursor.errorFound
  split
  · exact ⟨c, h, rfl, rfl⟩
  · exact ⟨c, h, rfl, rfl⟩

theorem From.readInside (h : From text start c) :
    Alike (fun e f => e = f ∧ e.RaisedFrom text start)
      (fun r s : Text × Cursor => r.1 = s.1 ∧ r.2 = s.2 ∧ From text start r.2)
      (Head.readInside c) (Head.readInside c) := by
  unfold Head.readInside
  dsimp only
  split
  · exact .ok ⟨rfl, rfl, h.advance _⟩
  · exact .error ⟨rfl, c.drain, h.advance _, rfl, rfl⟩

end Cursor

/-- A reading of a text with itself, from some cursor on. -/
def Simulation.onward (text : Text) (start : Cursor) : Simulation where
  __ := Simulation.along text 0
  Cursors c d := c = d ∧ Cursor.From text start c
  Errors e f := e = f ∧ e.RaisedFrom text start
  peekNth := by
    rintro c _ ⟨rfl, -⟩ n
    rfl
  pass := by
    rintro c _ t ⟨rfl, h⟩ -
    exact ⟨rfl, h.pass⟩
  cut := by
    rintro c _ t head ⟨rfl, h⟩ hp hhead
    exact ⟨rfl, h.cut hp hhead⟩
  inside := by
    rintro c _ ⟨rfl, h⟩
    exact h.readInside
  ahead := by
    rintro c _ x ⟨rfl, h⟩ -
    exact ⟨rfl, h.errorFound x⟩
  taken := by
    rintro c _ t u x ⟨rfl, h⟩ ht hu -
    obtain rfl := Option.some.inj (ht.symm.trans hu)
    exact ⟨rfl, c.pass, h.pass, rfl, rfl⟩
  ended := by
    rintro c _ x ⟨rfl, h⟩ -
    exact ⟨rfl, c.drain, h.advance _, rfl, rfl⟩
  helped := by
    rintro e _ ⟨rfl, c, he⟩ help
    exact ⟨rfl, c, he⟩
  kept_breaks := by
    rintro c _ x y ⟨rfl, -⟩ rfl v
    rfl

/-! ## 2. Turns of the loops -/

namespace Simulation

variable {S : Simulation} {cfg cfg' : Config} {c d : Cursor}

theorem modifierStep (h : S.Cursors c d) (ms ms' : List Text) :
    Alike S.Errors (Option.Rel fun r s => S.Cursors r.2 s.2) (Modifier.step ms c)
      (Modifier.step ms' d) := by
  refine (read? h).bind ?_
  rintro _ _ (@⟨⟨m, c₁⟩, ⟨m', d₁⟩, -, h₁⟩ | _)
  · exact .ok (.some h₁)
  · exact .ok .none

theorem readInner (hcfg : cfg.SameRules cfg') (h : S.Cursors c d) (depth : Nat) :
    S.Both S.Statements (SparqlTree.readInner cfg depth c) (SparqlTree.readInner cfg' depth d) := by
  refine (readNested h).bind ?_
  rintro ⟨head, c₁⟩ ⟨_, d₁⟩ ⟨rfl, h₁⟩
  refine (readItems hcfg h₁ head.bodyStyle (depth + 1)).bind ?_
  rintro ⟨items, c₂⟩ ⟨items', d₂⟩ ⟨hitems, h₂⟩
  refine (close h₂ rfl).bind ?_
  rintro ⟨closed, c₃⟩ ⟨closed', d₃⟩ ⟨hclosed, h₃⟩
  refine .ok ⟨?_, h₃⟩
  rw [Statements, Statement.mapText_block, Statement.mapText_block, hclosed, hitems.ofItems]

theorem readItem? (hcfg : cfg.SameRules cfg') (h : S.Cursors c d) (style : BodyStyle)
    (depth : Nat) :
    Alike S.Errors (Option.Rel fun r s => S.Cursors r.2 s.2)
      (SparqlTree.readItem? cfg style depth c) (SparqlTree.readItem? cfg' style depth d) := by
  unfold SparqlTree.readItem?
  rcases peek h with ⟨hc, hd⟩ | ⟨t, u, hc, hd, hbare⟩
  · rw [hc, hd]
    exact .error (S.ended h rfl)
  rw [hc, hd]
  dsimp only
  rw [(Token.bare_eq.1 hbare).1, ignoresPlace_begins hbare, ignoresPlace_isStop style hbare,
    hcfg.maxDepth]
  split
  · exact .ok .none
  split
  · split
    · exact .error (S.helped (S.ahead h rfl) _)
    · exact (readInner hcfg h depth).bind fun _ _ hr => .ok (.some hr.2)
  split
  · next hstop =>
    exact .ok (.some (S.cut h hc (.stop ((ignoresPlace_isStop style hbare).trans hstop))))
  · exact .ok (.some (S.pass h hc))

theorem bodyStep (hcfg : cfg.SameRules cfg') (h : S.Cursors c d) (style : BodyStyle) (depth : Nat)
    (items items' : List Item) :
    Alike S.Errors (Option.Rel fun r s => S.Cursors r.2 s.2)
      (SparqlTree.bodyStep cfg style depth items c)
      (SparqlTree.bodyStep cfg' style depth items' d) := by
  refine (readItem? hcfg h style depth).bind ?_
  rintro _ _ (@⟨⟨item, c₁⟩, ⟨item', d₁⟩, h₁⟩ | _)
  · exact .ok (.some h₁)
  · exact .ok .none

end Simulation

/-- What a reading from some cursor on says of a step that does not decline. -/
theorem Simulation.from_of_alike {α : Type} {R : α × Cursor → α × Cursor → Prop} {text : Text}
    {start c : Cursor} {a : α} {x : Except ParseError (Option (α × Cursor))}
    (hR : ∀ r s, R r s → (Simulation.onward text start).Cursors r.2 s.2)
    (h : Alike (Simulation.onward text start).Errors (Option.Rel R) x x)
    (hx : x = .ok (some (a, c))) : Cursor.From text start c := by
  cases h.rel hx hx with
  | some h => exact (hR _ _ h).2

namespace Loop

variable {cfg : Config} {text : Text} {l : Loop} {a a' : l.State} {c c' : Cursor}

theorem from_of_step (hc : c.Reached text) (h : l.step cfg a c = .ok (some (a', c'))) :
    Cursor.From text c c' := by
  have hstart : (Simulation.onward text c).Cursors c c := ⟨rfl, hc.from⟩
  have hcfg : cfg.SameRules cfg := ⟨rfl, rfl⟩
  -- A turn that reads a clause, a modifier or an item leads as far as these do; the other turns
  -- consume one token.
  cases l with
  | clauses =>
    have hdraft : (Simulation.onward text c).Drafts a a := ⟨rfl, rfl, rfl, rfl, rfl, rfl, rfl⟩
    exact Simulation.from_of_alike (fun _ _ hr => hr.2) (Simulation.step hcfg hdraft hstart) h
  | projection =>
    obtain ⟨t, -, -, -, rfl⟩ := Cursor.takeStep_eq_some h
    exact hc.from.pass
  | modifiers =>
    exact Simulation.from_of_alike (fun _ _ hr => hr) (Simulation.modifierStep hstart a a) h
  | body style depth =>
    exact Simulation.from_of_alike (fun _ _ hr => hr)
      (Simulation.bodyStep hcfg hstart style depth a a) h
  | template | word | rest =>
    obtain ⟨t, us, -, -, -, rfl⟩ := Cursor.scanStep_eq_some h
    exact hc.from.advance 1

/-- A turn leaves fewer bytes than there were. -/
theorem unread_step_lt (hc : c.Reached text) (h : l.step cfg a c = .ok (some (a', c'))) :
    c'.Reached text ∧ c'.unread < c.unread := by
  have hfrom := from_of_step hc h
  have hsize := l.productive cfg a c a' c' h
  exact ⟨hfrom.reached, hfrom.unread_lt hsize⟩

/-- What every run of a loop from a cursor of a text comes to. -/
structure Progresses (cfg : Config) (text : Text) (l : Loop) (a : l.State) (c : Cursor) : Prop where
  /-- A turn leaves fewer bytes, also one that cuts a token. -/
  turn : ∀ a' c', l.step cfg a c = .ok (some (a', c')) → c'.Reached text ∧ c'.unread < c.unread
  /-- There are no more turns than bytes, not even with the one in which the loop is left at a
  token. -/
  bound : ∀ n b rest, (l.step cfg).Turns n a c b rest →
    n + rest.unread ≤ c.unread ∧ (rest.peek.isSome → n < c.unread)
  /-- After some turns the loop declines or fails, and that is what comes out of it. -/
  ends : ∃ n b rest, (l.step cfg).Turns n a c b rest ∧ (l.step cfg).Ends b rest (l.run cfg a c)

theorem progresses (cfg : Config) (hc : c.Reached text) (l : Loop) (a : l.State) :
    l.Progresses cfg text a c where
  turn _ _ h := unread_step_lt hc h
  bound n b rest h := by
    obtain ⟨hrest, hle⟩ := h.le_unread unread_step_lt hc
    refine ⟨hle, fun hpeek => ?_⟩
    -- A token that comes next has a byte that no turn has consumed.
    obtain ⟨t, ht⟩ := Option.isSome_iff_exists.1 hpeek
    have hpos := hrest.lexed.unread_pos (Cursor.mem_upcoming_of_peek ht)
    omega
  ends := Cursor.Step.exists_turns (l.productive cfg) a c

end Loop

/-! ## 3. Reading functions -/

/-- The reading functions of the grammar, each with what it is given beside a cursor. -/
inductive Reading where
  | query
  | prefixDecl
  | ask
  | projection (inBlock : Bool) (depth : Nat)
  | construct
  | modifiers
  | body (style : BodyStyle) (depth : Nat)
  | group (depth : Nat)
  | update (operation : Operation)
  | openBrace
  | iri
  | keyword (k : Keyword)
  | glued (k : Keyword)
deriving DecidableEq, Repr

/-- The cursor behind what a function reads. -/
def Reading.run (cfg : Config) (r : Reading) (c : Cursor) : Except ParseError Cursor := do
  match r with
  | query =>
    let (d, c) ← Draft.read cfg c
    if d.form.isSome then pure c else throw (c.errorFound .queryForm)
  | prefixDecl =>
    let (_, _, c) ← Draft.readPrefix c
    pure c
  | ask =>
    let c ← Head.readOptionalWhere c
    let (_, c) ← Head.readBlock cfg .ask c
    pure c
  | projection inBlock depth =>
    let (p, c) ← Projection.read inBlock c
    let (_, c) ← readItems cfg .whole depth c
    let (_, c) ← Head.closeProjection p c
    pure c
  | construct =>
    let (head, c) ← Head.readConstruct c
    let (_, c) ← head.readBlock cfg c
    pure c
  | modifiers =>
    let (_, c) ← Modifier.readAll c
    pure c
  | body style depth =>
    let (_, c) ← readItems cfg style depth c
    pure c
  | group depth =>
    let (_, c) ← Head.readGroup c
    let (_, c) ← readItems cfg .segmented depth c
    pure c
  | update operation =>
    let (_, c) ← UpdateHead.read cfg operation c
    pure c
  | openBrace => readOpenBrace c
  | iri =>
    let (_, c) ← c.requireIri
    pure c
  | keyword k => pure (c.skip k)
  | glued k => pure (c.skipGlued k)

theorem Simulation.reading {S : Simulation} {cfg cfg' : Config} {c d : Cursor}
    (hcfg : cfg.SameRules cfg') (h : S.Cursors c d) (r : Reading) :
    Alike S.Errors S.Cursors (r.run cfg c) (r.run cfg' d) := by
  cases r with
  | query =>
    refine (read hcfg h).bind ?_
    rintro ⟨q, c₁⟩ ⟨q', d₁⟩ ⟨hq, h₁⟩
    dsimp only
    rw [hq.form]
    split
    · exact .ok h₁
    · exact .error (S.ahead h₁ rfl)
  | prefixDecl => exact (readPrefix h).bind fun _ _ hr => .ok hr.2.2
  | ask =>
    refine (readOptionalWhere h).bind fun c₁ d₁ h₁ => ?_
    exact (readBlock hcfg h₁ rfl).bind fun _ _ hr => .ok hr.2
  | projection inBlock depth =>
    refine (readProjection h inBlock).bind ?_
    rintro ⟨p, c₁⟩ ⟨_, d₁⟩ ⟨rfl, h₁⟩
    refine (readItems hcfg h₁ .whole depth).bind fun _ _ h₂ => ?_
    exact (closeProjection h₂.2 p).bind fun _ _ hr => .ok hr.2
  | construct =>
    refine (readConstruct h).bind ?_
    rintro ⟨head, c₁⟩ ⟨head', d₁⟩ ⟨hhead, h₁⟩
    exact (readBlock hcfg h₁ hhead).bind fun _ _ hr => .ok hr.2
  | modifiers => exact (readAll h).bind fun _ _ hr => .ok hr.2
  | body style depth => exact (readItems hcfg h style depth).bind fun _ _ hr => .ok hr.2
  | group depth =>
    refine (readGroup h).bind fun _ _ h₁ => ?_
    exact (readItems hcfg h₁.2 .segmented depth).bind fun _ _ hr => .ok hr.2
  | update operation => exact (readUpdateBlock hcfg h operation).bind fun _ _ hr => .ok hr.2
  | openBrace => exact readOpenBrace h
  | iri => exact (requireIri h).bind fun _ _ hr => .ok hr.2
  | keyword k => exact .ok (skip h k)
  | glued k => exact .ok (skipGlued h k)

namespace Reading

variable {text : Text} {c : Cursor}

/-- Whether it reads something or fails, a function does not go back. -/
structure Progresses (cfg : Config) (text : Text) (r : Reading) (c : Cursor) : Prop where
  /-- Nothing was read, or fewer bytes are left. -/
  reads : ∀ c', r.run cfg c = .ok c' → Cursor.From text c c'
  /-- The cursor at which it fails is the first one, or fewer bytes are left there. -/
  fails : ∀ e, r.run cfg c = .error e → e.RaisedFrom text c

theorem progresses (cfg : Config) (hc : c.Reached text) (r : Reading) :
    r.Progresses cfg text c := by
  have hcfg : cfg.SameRules cfg := ⟨rfl, rfl⟩
  have hrun := Simulation.reading (S := Simulation.onward text c) hcfg ⟨rfl, hc.from⟩ r
  constructor
  · intro c' h
    exact (hrun.rel h h).2
  · intro e h
    rw [h] at hrun
    cases hrun with
    | error he => exact he.2

end Reading

/-! ## 4. Progress -/

/-- A nested block is read from where fewer bytes are left. -/
theorem Head.unread_readNested_lt {text : Text} {c c' : Cursor} {head : Head}
    (hc : c.Reached text) (h : Head.readNested c = .ok (head, c')) : c'.unread < c.unread := by
  have hread := Simulation.readNested (S := Simulation.onward text c) ⟨rfl, hc.from⟩
  exact (hread.rel h h).2.2.unread_lt (Head.size_readNested_lt h)

/-- How a text is read from a cursor on: it is read by loops, their turns come to an end, and no
function goes back. -/
structure Cursor.Progresses (cfg : Config) (text : Text) (c : Cursor) : Prop where
  drives : Loop.Drives cfg c
  loops : ∀ (l : Loop) (a : l.State), l.Progresses cfg text a c
  readings : ∀ r : Reading, r.Progresses cfg text c
  /-- The loop of a nested body begins with fewer bytes than are left around it, so nesting ends. -/
  nested : ∀ head c', Head.readNested c = .ok (head, c') → c'.unread < c.unread
  /-- A turn that cuts a token leaves as many tokens as there were, line breaks before it apart. -/
  split : ∀ t depth items, c.peek = some t → t.text.head? = some '.' → t.text ≠ ['.'] →
    ∃ c', (Loop.body .segmented depth).step cfg items c = .ok (some (items ++ [.stop], c')) ∧
      c'.upcoming.length = c.skipBreaks.upcoming.length ∧ c'.unread < c.unread

namespace Query

variable {text : Text} {c : Cursor}

/-- From every cursor of every text reading goes on to an end. -/
theorem progresses_of_reached (cfg : Config) (hc : c.Reached text) : c.Progresses cfg text where
  drives := Loop.drives cfg c
  loops l a := l.progresses cfg hc a
  readings r := r.progresses cfg hc
  nested _ _ h := Head.unread_readNested_lt hc h
  split t depth items hp hhead hne := by
    obtain ⟨r, ht⟩ := List.head?_eq_some_iff.1 hhead
    have hr : r ≠ [] := by
      rintro rfl
      exact hne ht
    obtain ⟨c', hstep, hlength⟩ := bodyStep_dot hc.lexed hp ht hr items
    have hturn : (Loop.body .segmented depth).step cfg items c =
        .ok (some (items ++ [.stop], c')) := hstep
    exact ⟨c', hturn, hlength, (Loop.unread_step_lt hc hturn).2⟩

/-- The stop is cut off the variable behind it: two tokens are left as before, but fewer bytes. -/
theorem progresses_of_reached_stop :
    let text := "ASK \x7b .?s \x7d".toList
    let c := (cursor {} text).advance 2
    c.Reached text ∧ c.peek.map Token.text = some ".?s".toList ∧
      ∃ c', (Loop.body .segmented 0).step {} [] c = .ok (some ([.stop], c')) ∧
        c'.upcoming.length = c.upcoming.length ∧ c'.unread < c.unread := by
  intro text c
  have hc : c.Reached text := .advance 2 (.start {})
  have hp : c.peek = some ⟨.word, ".?s".toList, ⟨6, 9⟩⟩ := by decide +kernel
  obtain ⟨c', hstep, hlength, hlt⟩ :=
    (progresses_of_reached {} hc).split _ 0 [] hp rfl (by decide)
  have hskip : c.skipBreaks.upcoming.length = c.upcoming.length := by decide +kernel
  exact ⟨hc, by rw [hp]; rfl, c', hstep, hlength.trans hskip, hlt⟩

end Query

end SparqlTree
