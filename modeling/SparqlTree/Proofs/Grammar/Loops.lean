import SparqlTree.Grammar.Draft
import SparqlTree.Proofs.Cursor.Unread
import SparqlTree.Proofs.Grammar.Simulation

/-!
# The loops of the grammar

Queries, projections, templates, solution modifiers and bodies are each read by a loop. `Loop.step`
is one turn of such a loop: it changes what was read so far and goes on, or it declines where the
loop is left. Some of the reading functions are written without these turns; they give what the
loops give (`Loop.drives`).
-/

namespace SparqlTree

/-! ## 1. Turns -/

/-- Takes one token more that passes a test. -/
def Cursor.takeStep (accept : Token → Bool) : Cursor.Step (List Token) := fun ts c =>
  match c.peek with
  | none => pure none
  | some t => pure (if accept t then some (ts ++ [t], c.pass) else none)

/-- Takes one token more, line breaks included, unless the last one closed the run. That no token is
left is an error where one is due, and else the end of the run. -/
def Cursor.scanStep (closes : Token → Bool) (due : Option Expectation) :
    Cursor.Step (List Token × Bool) := fun (ts, closed) c =>
  if closed then pure none
  else
    match c.nextAny, due with
    | (some t, c), _ => pure (some ((ts ++ [t], closes t), c))
    | (none, c), some x => throw (c.errorAtEnd x)
    | (none, _), none => pure none

/-- Reads a nested block, from its head to what closes it. -/
def readInner (cfg : Config) (depth : Nat) (c : Cursor) : Except ParseError (Statement × Cursor) :=
  do
  let (head, c) ← Head.readNested c
  let (items, c) ← readItems cfg head.bodyStyle (depth + 1) c
  let (closed, c) ← head.close c
  pure (.block closed (Statement.ofItems items), c)

/-- Reads one item of a body, or declines at its closing brace. -/
def readItem? (cfg : Config) (style : BodyStyle) (depth : Nat) (c : Cursor) :
    Except ParseError (Option (Item × Cursor)) :=
  match c.peek with
  | none => throw (c.drain.errorAtEnd .closeBrace)
  | some t =>
    if t.kind = .closeBrace then pure none
    else if Head.begins t then
      if cfg.maxDepth ≤ depth then throw (tooDeep cfg.maxDepth c)
      else do
        let (s, c) ← readInner cfg depth c
        pure (some (.nested s, c))
    else if isStop style t then pure (some (.stop, c.pass.breakOff ['.']))
    else pure (some (.word (breaksBefore c) t.text, c.pass))

/-- Reads one item more of a body. -/
def bodyStep (cfg : Config) (style : BodyStyle) (depth : Nat) : Cursor.Step (List Item) :=
  fun items c => do
  match ← readItem? cfg style depth c with
  | none => pure none
  | some (item, c) => pure (some (items ++ [item], c))

/-- The loops by which a text is read. -/
inductive Loop where
  /-- The clauses of a query. -/
  | clauses
  /-- The tokens of a projection. -/
  | projection
  /-- The tokens of a template up to its closing brace. -/
  | template
  /-- The solution modifiers of a query form. -/
  | modifiers
  /-- The items of a body. -/
  | body (style : BodyStyle) (depth : Nat)
  /-- The tokens of a body up to the next one that is no line break. -/
  | word
  /-- The tokens that are left where a body is not closed. -/
  | rest
deriving DecidableEq, Repr

namespace Loop

/-- What a loop has read so far. -/
abbrev State : Loop → Type
  | clauses => Draft
  | projection => List Token
  | modifiers => List Text
  | body .. => List Item
  | template | word | rest => List Token × Bool

/-- One turn of a loop. -/
def step (cfg : Config) : (l : Loop) → Cursor.Step l.State
  | clauses => Draft.step cfg
  | projection => Cursor.takeStep Projection.isProjected
  | template => Cursor.scanStep (·.kind == .closeBrace) (some .closeBrace)
  | modifiers => Modifier.step
  | body style depth => bodyStep cfg style depth
  | word => Cursor.scanStep (!·.isLineBreak) none
  | rest => Cursor.scanStep (fun _ => false) none

end Loop

/-! ## 2. Every turn consumes something -/

namespace Cursor

variable {c c' : Cursor}

theorem size_advance_one_lt {t : Token} {ts : List Token} (h : c.upcoming = t :: ts) :
    (c.advance 1).size < c.size := by
  show weight (c.upcoming.drop 1) < weight c.upcoming
  rw [h, List.drop_one, List.tail_cons, weight]
  omega

theorem takeStep_of_peek {accept : Token → Bool} {t : Token} (h : c.peek = some t)
    (ts : List Token) : takeStep accept ts c =
      .ok (if accept t then some (ts ++ [t], c.pass) else none) := by
  unfold takeStep
  rw [h]
  rfl

theorem takeStep_of_peek_eq_none {accept : Token → Bool} (h : c.peek = none) (ts : List Token) :
    takeStep accept ts c = .ok none := by
  unfold takeStep
  rw [h]
  rfl

theorem takeStep_eq_some {accept : Token → Bool} {ts ts' : List Token}
    (h : takeStep accept ts c = .ok (some (ts', c'))) :
    ∃ t, c.peek = some t ∧ accept t = true ∧ ts' = ts ++ [t] ∧ c' = c.pass := by
  cases hp : c.peek with
  | none =>
    rw [takeStep_of_peek_eq_none hp] at h
    nomatch h
  | some t =>
    rw [takeStep_of_peek hp] at h
    by_cases ht : accept t = true
    · rw [if_pos ht] at h
      obtain ⟨rfl, rfl⟩ := Prod.mk.inj (Option.some.inj (Except.ok.inj h))
      exact ⟨t, rfl, ht, rfl, rfl⟩
    · rw [if_neg ht] at h
      nomatch h

theorem takeStep_productive (accept : Token → Bool) : (takeStep accept).Productive := by
  intro ts c ts' c' h
  obtain ⟨t, hp, -, -, rfl⟩ := takeStep_eq_some h
  exact size_pass_lt hp

section

variable {closes : Token → Bool} {due : Option Expectation}

/-- At the end of the text a scan stops, or fails. -/
theorem scanStep_of_nil (h : c.upcoming = []) (ts : List Token) :
    scanStep closes due (ts, false) c =
      match due with
      | some x => .error (c.errorAtEnd x)
      | none => .ok none := by
  have hnext : c.nextAny = (none, c) := by
    unfold nextAny
    rw [h, advance_of_nil h]
    rfl
  unfold scanStep
  rw [hnext]
  cases due <;> rfl

theorem scanStep_of_cons {t : Token} {us : List Token} (h : c.upcoming = t :: us)
    (ts : List Token) :
    scanStep closes due (ts, false) c = .ok (some ((ts ++ [t], closes t), c.advance 1)) := by
  have hnext : c.nextAny = (some t, c.advance 1) := by
    unfold nextAny
    rw [h]
    rfl
  unfold scanStep
  rw [hnext]
  rfl

theorem scanStep_eq_some {s s' : List Token × Bool}
    (h : scanStep closes due s c = .ok (some (s', c'))) :
    ∃ t us, c.upcoming = t :: us ∧ s.2 = false ∧ s' = (s.1 ++ [t], closes t) ∧
      c' = c.advance 1 := by
  obtain ⟨ts, closed⟩ := s
  cases closed with
  | true => nomatch h
  | false =>
    cases hup : c.upcoming with
    | nil =>
      rw [scanStep_of_nil hup] at h
      cases due <;> nomatch h
    | cons t us =>
      rw [scanStep_of_cons hup] at h
      obtain ⟨rfl, rfl⟩ := Prod.mk.inj (Option.some.inj (Except.ok.inj h))
      exact ⟨t, us, rfl, rfl, rfl, rfl⟩

theorem scanStep_productive (closes : Token → Bool) (due : Option Expectation) :
    (scanStep closes due).Productive := by
  intro s c s' c' h
  obtain ⟨t, us, hup, -, -, rfl⟩ := scanStep_eq_some h
  exact size_advance_one_lt hup

end

end Cursor

theorem size_readInner_lt {cfg : Config} {depth : Nat} {c rest : Cursor} {s : Statement}
    (h : readInner cfg depth c = .ok (s, rest)) : rest.size < c.size := by
  obtain ⟨⟨head, c₁⟩, h₁, h⟩ := bind_eq_ok.1 h
  obtain ⟨⟨items, c₂⟩, h₂, h⟩ := bind_eq_ok.1 h
  obtain ⟨⟨closed, c₃⟩, h₃, h⟩ := bind_eq_ok.1 h
  obtain ⟨-, rfl⟩ := Prod.mk.inj (Except.ok.inj h)
  exact size_block_lt h₁ h₂ h₃

theorem size_readItem?_lt {cfg : Config} {style : BodyStyle} {depth : Nat} {c rest : Cursor}
    {item : Item} (h : readItem? cfg style depth c = .ok (some (item, rest))) :
    rest.size < c.size := by
  unfold readItem? at h
  split at h
  · nomatch h
  next t hp =>
  split at h
  · nomatch h
  split at h
  · split at h
    · nomatch h
    · obtain ⟨⟨s, c₁⟩, h₁, h⟩ := bind_eq_ok.1 h
      obtain ⟨-, rfl⟩ := Prod.mk.inj (Option.some.inj (Except.ok.inj h))
      exact size_readInner_lt h₁
  split at h
  · obtain ⟨-, rfl⟩ := Prod.mk.inj (Option.some.inj (Except.ok.inj h))
    exact Cursor.size_pass_breakOff_lt hp _
  · obtain ⟨-, rfl⟩ := Prod.mk.inj (Option.some.inj (Except.ok.inj h))
    exact Cursor.size_pass_lt hp

theorem bodyStep_productive (cfg : Config) (style : BodyStyle) (depth : Nat) :
    (bodyStep cfg style depth).Productive := by
  intro items c items' c' h
  obtain ⟨r, hr, h⟩ := bind_eq_ok.1 h
  cases r with
  | none => nomatch h
  | some r =>
    obtain ⟨-, rfl⟩ := Prod.mk.inj (Option.some.inj (Except.ok.inj h))
    exact size_readItem?_lt hr

namespace Loop

theorem productive (cfg : Config) : (l : Loop) → (l.step cfg).Productive
  | clauses => Draft.step_productive cfg
  | projection => Cursor.takeStep_productive _
  | template | word | rest => Cursor.scanStep_productive _ _
  | modifiers => Modifier.step_productive
  | body style depth => bodyStep_productive cfg style depth

/-- Takes the turns of a loop up to its end. -/
def run (cfg : Config) (l : Loop) : l.State → Cursor → Except ParseError (l.State × Cursor) :=
  Cursor.repeatStep (l.step cfg) (l.productive cfg)

end Loop

/-! ## 3. What the loops give -/

namespace Cursor

variable {c : Cursor}

theorem advance_advance (c : Cursor) (m n : Nat) : (c.advance m).advance n = c.advance (m + n) := by
  have hcons : ((c.upcoming.drop m).take n).reverse ++ ((c.upcoming.take m).reverse ++ c.consumed) =
      (c.upcoming.take (m + n)).reverse ++ c.consumed := by
    rw [List.take_add, List.reverse_append, List.append_assoc]
  have hline : c.line + (c.upcoming.take m).countP (·.kind == .newline) +
      ((c.upcoming.drop m).take n).countP (·.kind == .newline) =
      c.line + (c.upcoming.take (m + n)).countP (·.kind == .newline) := by
    rw [List.take_add, List.countP_append, Nat.add_assoc]
  simp only [advance, List.drop_drop, hcons, hline]

/-- A run of tokens that pass a test is taken one turn at a time. -/
theorem repeatStep_takeStep (accept : Token → Bool) (ts : List Token) (c : Cursor) :
    repeatStep (takeStep accept) (takeStep_productive accept) ts c =
      .ok (ts ++ (c.takeRun accept).1, (c.takeRun accept).2) := by
  induction c using Cursor.size_induction generalizing ts with
  | ind c ih =>
    rw [repeatStep_eq]
    cases hp : c.peek with
    | none =>
      rw [takeRun_of_peek_eq_none hp, takeStep_of_peek_eq_none hp, List.append_nil]
      rfl
    | some t =>
      rw [takeRun_of_peek hp, takeStep_of_peek hp]
      by_cases ht : accept t = true
      · rw [if_pos ht, if_pos ht]
        show repeatStep _ _ (ts ++ [t]) c.pass = _
        rw [ih _ (size_pass_lt hp) _, List.append_assoc]
        rfl
      · rw [if_neg ht, if_neg ht, List.append_nil]
        rfl

section

variable {closes : Token → Bool} {due : Option Expectation} {us vs ts : List Token}

/-- A scan steps over the tokens that do not close it. -/
theorem repeatStep_scanStep (hup : c.upcoming = us ++ vs) (hus : ∀ u ∈ us, closes u = false) :
    repeatStep (scanStep closes due) (scanStep_productive closes due) (ts, false) c =
      repeatStep (scanStep closes due) (scanStep_productive closes due) (ts ++ us, false)
        (c.advance us.length) := by
  induction us generalizing c ts with
  | nil =>
    rw [List.append_nil]
    rfl
  | cons u us ih =>
    obtain ⟨hu, hus⟩ := List.forall_mem_cons.1 hus
    have hnext : (c.advance 1).upcoming = us ++ vs := by
      show c.upcoming.drop 1 = _
      rw [hup]
      rfl
    rw [repeatStep_eq, scanStep_of_cons hup, hu]
    show repeatStep _ _ (ts ++ [u], false) (c.advance 1) = _
    rw [ih hnext hus, advance_advance, List.append_assoc, List.length_cons, Nat.add_comm 1]
    rfl

/-- A scan ends behind the first token that closes it. -/
theorem repeatStep_scanStep_closed {t : Token} (hup : c.upcoming = us ++ t :: vs)
    (hus : ∀ u ∈ us, closes u = false) (ht : closes t = true) :
    repeatStep (scanStep closes due) (scanStep_productive closes due) ([], false) c =
      .ok ((us ++ [t], true), c.advance (us.length + 1)) := by
  have hnext : (c.advance us.length).upcoming = t :: vs := by
    show c.upcoming.drop us.length = _
    rw [hup, List.drop_left]
  rw [repeatStep_scanStep hup hus, repeatStep_eq, scanStep_of_cons hnext, ht, advance_advance]
  show repeatStep _ _ (us ++ [t], true) _ = _
  rw [repeatStep_eq]
  rfl

/-- A scan that no token closes comes to the end of the text. -/
theorem repeatStep_scanStep_open (hup : ∀ u ∈ c.upcoming, closes u = false) :
    repeatStep (scanStep closes due) (scanStep_productive closes due) ([], false) c =
      match due with
      | some x => .error (c.drain.errorAtEnd x)
      | none => .ok ((c.upcoming, false), c.drain) := by
  have hnil : c.drain.upcoming = [] := List.drop_length
  rw [repeatStep_scanStep (List.append_nil _).symm hup, repeatStep_eq, ← drain,
    scanStep_of_nil hnil]
  cases due with
  | none => rfl
  | some x => rfl

end

end Cursor

/-- A body is an item and the rest of the body, or nothing but its closing brace. -/
theorem readItems_eq_readItem? (cfg : Config) (style : BodyStyle) (depth : Nat) (c : Cursor) :
    readItems cfg style depth c = (do
      match ← readItem? cfg style depth c with
      | none => pure ([], c.pass)
      | some (item, c₁) =>
        let (items, c₂) ← readItems cfg style depth c₁
        pure (item :: items, c₂)) := by
  rw [readItems_eq]
  unfold readItem?
  cases hp : c.peek with
  | none => rfl
  | some t =>
    dsimp only
    split
    · rfl
    split
    · split
      · rfl
      · unfold readInner
        simp only [bind_assoc, pure_bind]
    split
    · rfl
    · rfl

theorem bodyStep_of_eq {cfg : Config} {style : BodyStyle} {depth : Nat} {c : Cursor}
    {x : Except ParseError (Option (Item × Cursor))} (h : readItem? cfg style depth c = x)
    (items : List Item) : bodyStep cfg style depth items c =
      x.map (Option.map fun r => (items ++ [r.1], r.2)) := by
  unfold bodyStep
  rw [h]
  cases x with
  | error e => rfl
  | ok r => cases r <;> rfl

/-- A full stop is cut off the token that it begins, and the rest of that token comes next: as many
tokens are left as before. -/
theorem bodyStep_dot {cfg : Config} {depth : Nat} {c : Cursor} {t : Token} {r : Text}
    (hc : c.Lexed) (hp : c.peek = some t) (ht : t.text = '.' :: r) (hr : r ≠ [])
    (items : List Item) :
    ∃ c', bodyStep cfg .segmented depth items c = .ok (some (items ++ [.stop], c')) ∧
      c'.upcoming.length = c.skipBreaks.upcoming.length := by
  obtain ⟨hword, hbegin, hstop⟩ := word_of_dot (hc.of_peek hp).2 ht
  have hitem : readItem? cfg .segmented depth c =
      .ok (some (.stop, c.pass.breakOff ['.'])) := by
    unfold readItem?
    rw [hp]
    dsimp only
    rw [if_neg (by rw [hword]; decide), if_neg (by rw [hbegin]; decide), if_pos hstop]
    rfl
  have hcut : ['.'] ≠ [] ∧ ['.'].length < t.text.length ∧
      Text.sameLetters (t.text.take ['.'].length) ['.'] = true := by
    rw [ht]
    exact ⟨List.cons_ne_nil _ _, Nat.succ_lt_succ (List.length_pos_iff.2 hr), rfl⟩
  refine ⟨_, bodyStep_of_eq hitem items, ?_⟩
  -- The token stood before the others, and its second half stands there now.
  rw [Cursor.breakOff_eq (Cursor.consumed_pass_of_peek hp), if_pos hcut,
    Cursor.skipBreaks_upcoming_eq_of_peek hp]
  rfl

namespace Loop

variable {c : Cursor}

/-- What is inside the braces of a template is read one token at a time. -/
theorem readInside_eq_run (cfg : Config) (c : Cursor) :
    Head.readInside c = run cfg .template ([], false) c >>= fun r =>
      pure (Text.trim (r.1.1.dropLast.flatMap Token.piece), r.2) := by
  have hup := List.takeWhile_append_dropWhile (p := (·.kind != .closeBrace)) (l := c.upcoming)
  have hhead := List.head?_dropWhile_not (·.kind != .closeBrace) c.upcoming
  have hinside : ∀ u ∈ c.upcoming.takeWhile (·.kind != .closeBrace),
      (u.kind == .closeBrace) = false := by
    intro u hu
    simpa using List.all_eq_true.1 List.all_takeWhile u hu
  unfold Head.readInside
  generalize c.upcoming.takeWhile (·.kind != .closeBrace) = inside at hup hinside ⊢
  dsimp only
  -- Either no brace closes the template, or the first one that does ends the run.
  cases hd : c.upcoming.dropWhile (·.kind != .closeBrace) with
  | nil =>
    rw [hd, List.append_nil] at hup
    subst hup
    have hrun : run cfg .template ([], false) c = .error (c.drain.errorAtEnd .closeBrace) :=
      Cursor.repeatStep_scanStep_open hinside
    rw [if_neg (Nat.lt_irrefl _), hrun]
    rfl
  | cons t rest =>
    rw [hd] at hup hhead
    have ht : (t.kind == .closeBrace) = true := by simpa using hhead
    have hlt : inside.length < c.upcoming.length := by
      rw [← hup, List.length_append, List.length_cons]
      omega
    have hrun : run cfg .template ([], false) c =
        .ok ((inside ++ [t], true), c.advance (inside.length + 1)) :=
      Cursor.repeatStep_scanStep_closed hup.symm hinside ht
    rw [if_pos hlt, hrun]
    show _ = Except.ok (Text.trim ((inside ++ [t]).dropLast.flatMap Token.piece), _)
    rw [List.dropLast_concat]
    rfl

/-- A word of a body is read one token at a time, with the line breaks before it. -/
theorem run_word (cfg : Config) {t : Token} (hp : c.peek = some t) :
    ∃ ts, run cfg .word ([], false) c = .ok ((ts, true), c.pass) ∧
      ts.flatMap Token.piece = breaksBefore c ++ ' ' :: t.text := by
  have hbreak : ∀ u ∈ c.upcoming.takeWhile Token.isLineBreak, u.isLineBreak = true :=
    fun u hu => List.all_eq_true.1 List.all_takeWhile u hu
  have hsolid := Cursor.noBreak_of_peek hp
  -- The tokens read are the line breaks and the one that closes the run.
  refine ⟨c.upcoming.takeWhile Token.isLineBreak ++ [t], ?_, ?_⟩
  · have hpass : c.pass = c.advance ((c.upcoming.takeWhile Token.isLineBreak).length + 1) :=
      Cursor.advance_advance c _ 1
    rw [hpass]
    apply Cursor.repeatStep_scanStep_closed (Cursor.upcoming_eq_of_peek hp)
    · intro u hu
      rw [hbreak u hu]
      rfl
    · rw [hsolid]
      rfl
  · have hpieces :
        (c.upcoming.takeWhile Token.isLineBreak).flatMap Token.piece = breaksBefore c := by
      unfold breaksBefore
      rw [List.flatMap_def, List.flatMap_def]
      apply congrArg List.flatten
      apply List.map_congr_left
      intro u hu
      rw [Token.piece, if_pos (hbreak u hu)]
    rw [List.flatMap_append, hpieces, List.flatMap_singleton, Token.piece, hsolid]
    rfl

/-- What is left of a body that is not closed is read to the end of the text. -/
theorem run_rest (cfg : Config) (c : Cursor) :
    run cfg .rest ([], false) c = .ok ((c.upcoming, false), c.drain) :=
  Cursor.repeatStep_scanStep_open fun _ _ => rfl

/-- A body is read one item at a time, behind the items that were read before. -/
theorem run_body (cfg : Config) (style : BodyStyle) (depth : Nat) (items : List Item) (c : Cursor) :
    (run cfg (.body style depth) items c >>= fun r => pure (r.1, r.2.pass)) =
      readItems cfg style depth c >>= fun r => pure (items ++ r.1, r.2) := by
  -- What is left to read gets less with each turn, whatever items were read before.
  induction c using Cursor.size_induction generalizing items with
  | ind c ih =>
    have hturn : run cfg (.body style depth) items c = _ := Cursor.repeatStep_eq _ _ items c
    rw [hturn, readItems_eq_readItem?]
    cases hr : readItem? cfg style depth c with
    | error e =>
      have hstep : (Loop.body style depth).step cfg items c = .error e := bodyStep_of_eq hr items
      rw [hstep]
      rfl
    | ok r =>
      have hstep : (Loop.body style depth).step cfg items c = .ok _ := bodyStep_of_eq hr items
      rw [hstep]
      cases r with
      | none =>
        show Except.ok (items, c.pass) = Except.ok (items ++ [], c.pass)
        rw [List.append_nil]
      | some r =>
        obtain ⟨item, c₁⟩ := r
        show (run cfg (.body style depth) (items ++ [item]) c₁ >>= _) =
          (readItems cfg style depth c₁ >>= _) >>= _
        rw [ih c₁ (size_readItem?_lt hr) (items ++ [item]), bind_assoc]
        simp only [pure_bind, List.append_assoc, List.singleton_append]

/-- What is read at a cursor is what the loops give there. -/
structure Drives (cfg : Config) (c : Cursor) : Prop where
  clauses : Draft.read cfg c = run cfg .clauses {} c
  projection : run cfg .projection [] c = .ok (c.takeRun Projection.isProjected)
  /-- The loop begins behind the opening brace, and the brace that closes it is no text. -/
  template : Head.readTemplate c = readOpenBrace c >>= fun c₁ =>
    run cfg .template ([], false) c₁ >>= fun r =>
      pure (Text.trim (r.1.1.dropLast.flatMap Token.piece), r.2)
  modifiers : Modifier.readAll c = run cfg .modifiers [] c
  /-- The loop is left before the closing brace. -/
  body : ∀ style depth, readItems cfg style depth c = run cfg (.body style depth) [] c >>= fun r =>
    pure (r.1, r.2.pass)
  word : ∀ t, c.peek = some t → ∃ ts, run cfg .word ([], false) c = .ok ((ts, true), c.pass) ∧
    ts.flatMap Token.piece = breaksBefore c ++ ' ' :: t.text
  rest : run cfg .rest ([], false) c = .ok ((c.upcoming, false), c.drain)

theorem drives (cfg : Config) (c : Cursor) : Drives cfg c where
  clauses := rfl
  projection := Cursor.repeatStep_takeStep _ [] c
  template := congrArg (readOpenBrace c >>= ·) (funext (readInside_eq_run cfg))
  modifiers := rfl
  body style depth := by
    have hbody := run_body cfg style depth [] c
    simp only [List.nil_append] at hbody
    rw [hbody]
    exact (bind_pure _).symm
  word _ hp := run_word cfg hp
  rest := run_rest cfg c

end Loop

end SparqlTree
