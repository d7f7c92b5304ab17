import SparqlTree.Grammar.Config
import SparqlTree.Grammar.Size

/-!
# Bodies

A body is read up to its closing brace. Blocks within it are read by the same function, one level
deeper. The reading function carries the proof that it consumes something, which is what lets it
continue behind a nested block; `readItems_eq` states the function without that proof.
-/

namespace SparqlTree

/-- The error for a block that stands too deep. -/
def tooDeep (limit : Nat) (c : Cursor) : ParseError :=
  (c.errorFound (.nestingAtMost limit)).withHelp ParseError.nestingHelp

/-- True if a token ends a statement in a body of the given style. -/
def isStop (style : BodyStyle) (t : Token) : Bool :=
  style == .segmented && t.text.head? == some '.'

/-- The line breaks before the next token, as they are written. -/
def breaksBefore (c : Cursor) : Text :=
  (c.upcoming.takeWhile Token.isLineBreak).flatMap Token.text

/-- The items of a body and the cursor behind its closing brace, with less to read than before. -/
abbrev ItemsFrom (c : Cursor) := { r : List Item × Cursor // r.2.size < c.size }

/-- Puts an item before the items that follow it. -/
def ItemsFrom.cons {c c' : Cursor} (item : Item) (r : ItemsFrom c') (h : c'.size < c.size) :
    ItemsFrom c :=
  ⟨(item :: r.1.1, r.1.2), Nat.lt_trans r.2 h⟩

/-- Reads the items of a body, and its closing brace. -/
def readItemsFrom (cfg : Config) (style : BodyStyle) (depth : Nat) (c : Cursor) :
    Except ParseError (ItemsFrom c) :=
  match hp : c.peek with
  | none => .error (c.drain.errorAtEnd .closeBrace)
  | some t =>
    if t.kind = .closeBrace then .ok ⟨([], c.pass), Cursor.size_pass_lt hp⟩
    else if Head.begins t then
      if cfg.maxDepth ≤ depth then .error (tooDeep cfg.maxDepth c)
      else do
        -- The block's own body is one level deeper; what follows the block is not.
        let opened ← certify (Head.readNested c) fun _ h => Head.size_readNested_lt h
        let inner ← readItemsFrom cfg opened.1.1.bodyStyle (depth + 1) opened.1.2
        let closed ← certify (opened.1.1.close inner.1.2) fun _ h => Head.size_close_le h
        have hlt : closed.1.2.size < c.size :=
          Nat.lt_of_le_of_lt closed.2 (Nat.lt_trans inner.2 opened.2)
        let rest ← readItemsFrom cfg style depth closed.1.2
        pure (rest.cons (.nested (.block closed.1.1 (Statement.ofItems inner.1.1))) hlt)
    else if isStop style t then do
      -- Only the full stop is consumed: what is glued to it begins the next statement.
      have hlt : (c.pass.breakOff ['.']).size < c.size := Cursor.size_pass_breakOff_lt hp _
      let rest ← readItemsFrom cfg style depth (c.pass.breakOff ['.'])
      pure (rest.cons .stop hlt)
    else do
      have hlt : c.pass.size < c.size := Cursor.size_pass_lt hp
      let rest ← readItemsFrom cfg style depth c.pass
      pure (rest.cons (.word (breaksBefore c) t.text) hlt)
termination_by c.size
decreasing_by
  · exact opened.2
  all_goals exact hlt

/-- Reads the items of a body, and its closing brace. -/
def readItems (cfg : Config) (style : BodyStyle) (depth : Nat) (c : Cursor) :
    Except ParseError (List Item × Cursor) :=
  (readItemsFrom cfg style depth c).map Subtype.val

theorem size_readItems_lt {cfg : Config} {style : BodyStyle} {depth : Nat} {c rest : Cursor}
    {items : List Item} (h : readItems cfg style depth c = .ok (items, rest)) :
    rest.size < c.size := by
  unfold readItems at h
  cases hr : readItemsFrom cfg style depth c with
  | error e => rw [hr] at h; nomatch h
  | ok r =>
    rw [hr] at h
    have e : r.1 = (items, rest) := Except.ok.inj h
    have := r.2
    rwa [e] at this

/-- Behind a block there is less to read than before it. -/
theorem size_block_lt {cfg : Config} {style : BodyStyle} {depth : Nat} {head closed : Head}
    {inner : List Item} {c c₁ c₂ c₃ : Cursor} (hopen : Head.readNested c = .ok (head, c₁))
    (hinner : readItems cfg style depth c₁ = .ok (inner, c₂))
    (hclose : head.close c₂ = .ok (closed, c₃)) : c₃.size < c.size :=
  Nat.lt_of_le_of_lt (Head.size_close_le hclose)
    (Nat.lt_trans (size_readItems_lt hinner) (Head.size_readNested_lt hopen))

/-- How a body is read, one item at a time. -/
theorem readItems_eq (cfg : Config) (style : BodyStyle) (depth : Nat) (c : Cursor) :
    readItems cfg style depth c =
      (match c.peek with
      | none => .error (c.drain.errorAtEnd .closeBrace)
      | some t =>
        if t.kind = .closeBrace then .ok ([], c.pass)
        else if Head.begins t then
          if cfg.maxDepth ≤ depth then .error (tooDeep cfg.maxDepth c)
          else do
            let (head, c₁) ← Head.readNested c
            let (inner, c₂) ← readItems cfg head.bodyStyle (depth + 1) c₁
            let (closed, c₃) ← head.close c₂
            let (rest, c₄) ← readItems cfg style depth c₃
            pure (.nested (.block closed (Statement.ofItems inner)) :: rest, c₄)
        else if isStop style t then do
          let (rest, c₁) ← readItems cfg style depth (c.pass.breakOff ['.'])
          pure (.stop :: rest, c₁)
        else do
          let (rest, c₁) ← readItems cfg style depth c.pass
          pure (.word (breaksBefore c) t.text :: rest, c₁)) := by
  -- The recursion carries proofs that less is left to read; they are dropped from each step.
  rw [readItems, readItemsFrom]
  split
  · next hp => simp only [hp]; rfl
  · next t hp =>
    simp only [hp]
    split
    · rfl
    · split
      · split
        · rfl
        · exact map_certify_bind fun _ => map_bind fun _ => map_certify_bind fun _ =>
            map_bind fun _ => rfl
      · split
        · exact map_bind fun _ => rfl
        · exact map_bind fun _ => rfl

/-- Reads a body, and its closing brace. -/
def readBody (cfg : Config) (style : BodyStyle) (c : Cursor) :
    Except ParseError (List Statement × Cursor) := do
  let (items, c) ← readItems cfg style 0 c
  pure (Statement.ofItems items, c)

theorem readBody_cases {cfg : Config} {style : BodyStyle} {c c' : Cursor} {body : List Statement}
    (h : readBody cfg style c = .ok (body, c')) :
    ∃ items, readItems cfg style 0 c = .ok (items, c') ∧ body = Statement.ofItems items := by
  obtain ⟨⟨items, c₁⟩, h₁, h⟩ := bind_eq_ok.1 h
  obtain ⟨rfl, rfl⟩ := Prod.mk.inj (Except.ok.inj h)
  exact ⟨items, h₁, rfl⟩

theorem size_readBody_lt {cfg : Config} {style : BodyStyle} {c rest : Cursor}
    {body : List Statement} (h : readBody cfg style c = .ok (body, rest)) :
    rest.size < c.size := by
  obtain ⟨items, hitems, -⟩ := readBody_cases h
  exact size_readItems_lt hitems

/-- Reads the body under a head, and what closes the block. -/
def Head.readBlock (cfg : Config) (head : Head) (c : Cursor) :
    Except ParseError (Statement × Cursor) := do
  let (body, c) ← readBody cfg head.bodyStyle c
  let (closed, c) ← head.close c
  pure (.block closed body, c)

theorem Head.readBlock_cases {cfg : Config} {head : Head} {c c' : Cursor} {s : Statement}
    (h : head.readBlock cfg c = .ok (s, c')) :
    ∃ body c₁ closed, readBody cfg head.bodyStyle c = .ok (body, c₁) ∧
      head.close c₁ = .ok (closed, c') ∧ s = .block closed body := by
  obtain ⟨⟨body, c₁⟩, h₁, h⟩ := bind_eq_ok.1 h
  obtain ⟨⟨closed, c₂⟩, h₂, h⟩ := bind_eq_ok.1 h
  obtain ⟨rfl, rfl⟩ := Prod.mk.inj (Except.ok.inj h)
  exact ⟨body, c₁, closed, h₁, h₂, rfl⟩

theorem Head.size_readBlock_lt {cfg : Config} {head : Head} {c rest : Cursor} {s : Statement}
    (h : head.readBlock cfg c = .ok (s, rest)) : rest.size < c.size := by
  obtain ⟨body, c₁, closed, hbody, hclose, -⟩ := readBlock_cases h
  exact Nat.lt_of_le_of_lt (size_close_le hclose) (size_readBody_lt hbody)

end SparqlTree
