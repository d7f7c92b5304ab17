import SparqlTree.Grammar.Body
import SparqlTree.Statement.Variables

/-!
# Updates

An update has a template and possibly a WHERE body behind it. With strict checking a template that
mentions variables must have that body, unless another update follows directly.
-/

namespace SparqlTree

namespace UpdateHead

/-- The error for a template whose variables nothing binds. -/
def unbound (operation : Operation) (c : Cursor) : ParseError :=
  (c.errorFound (.whereAfterTemplate operation.name)).withHelp ParseError.unboundHelp

/-- True if another update comes next. -/
def atUpdate (c : Cursor) : Bool := c.atKeyword .insert || c.atKeyword .delete

/-- True if a template that was just read lacks a WHERE body it needs. -/
def lacksWhere (cfg : Config) (data : Bool) (template : List Statement) (c : Cursor) : Bool :=
  cfg.strictUpdateWhere && !data && !c.atGlued .whereClause
    && !(Statement.unknownsAll template).isEmpty && !atUpdate c

/-- Reads the WHERE body of an update if it comes next. -/
def readAttached? (cfg : Config) (c : Cursor) :
    Except ParseError (Option (List Statement) × Cursor) :=
  match c.eatGlued? .whereClause with
  | none => pure (none, c)
  | some c => do
    let c ← readOpenBrace c
    let (body, c) ← readBody cfg .segmented c
    pure (some body, c)

/-- An update takes nothing more, or a body behind WHERE. -/
theorem readAttached?_cases {cfg : Config} {c c' : Cursor} {attached : Option (List Statement)}
    (h : readAttached? cfg c = .ok (attached, c')) :
    c.eatGlued? .whereClause = none ∧ attached = none ∧ c' = c ∨
      ∃ c₁ c₂ body, c.eatGlued? .whereClause = some c₁ ∧ readOpenBrace c₁ = .ok c₂ ∧
        readBody cfg .segmented c₂ = .ok (body, c') ∧ attached = some body := by
  unfold readAttached? at h
  split at h
  · next hno =>
    obtain ⟨rfl, rfl⟩ := Prod.mk.inj (Except.ok.inj h)
    exact .inl ⟨hno, rfl, rfl⟩
  · next c₁ h₁ =>
    obtain ⟨c₂, h₂, h⟩ := bind_eq_ok.1 h
    obtain ⟨⟨body, c₃⟩, h₃, h⟩ := bind_eq_ok.1 h
    obtain ⟨rfl, rfl⟩ := Prod.mk.inj (Except.ok.inj h)
    exact .inr ⟨c₁, c₂, body, h₁, h₂, h₃, rfl⟩

theorem size_readAttached?_le {cfg : Config} {c rest : Cursor} {body : Option (List Statement)}
    (h : readAttached? cfg c = .ok (body, rest)) : rest.size ≤ c.size := by
  obtain ⟨-, -, rfl⟩ | ⟨c₁, c₂, body, h₁, h₂, h₃, -⟩ := readAttached?_cases h
  · exact Nat.le_refl _
  · have := Cursor.size_eatGlued?_lt h₁
    have := size_readOpenBrace_lt h₂
    have := size_readBody_lt h₃
    omega

/-- Reads an update behind its keyword. -/
def read (cfg : Config) (operation : Operation) (c : Cursor) :
    Except ParseError (Statement × Cursor) := do
  let data := c.atGlued .data
  let c ← readOpenBrace (c.skipGlued .data)
  let (template, c) ← readBody cfg .whole c
  -- The check comes before the WHERE body is read, so its error names what stands in its place.
  if lacksWhere cfg data template c then throw (unbound operation c)
  let (attached, c) ← readAttached? cfg c
  pure (.update { operation, data } template attached, c)

/-- The parts of an update, in the order in which they are read. -/
theorem read_cases {cfg : Config} {operation : Operation} {c c' : Cursor} {s : Statement}
    (h : read cfg operation c = .ok (s, c')) :
    ∃ c₁ template c₂ attached, readOpenBrace (c.skipGlued .data) = .ok c₁ ∧
      readBody cfg .whole c₁ = .ok (template, c₂) ∧
      lacksWhere cfg (c.atGlued .data) template c₂ = false ∧
      readAttached? cfg c₂ = .ok (attached, c') ∧
      s = .update { operation, data := c.atGlued .data } template attached := by
  obtain ⟨c₁, h₁, h⟩ := bind_eq_ok.1 h
  obtain ⟨⟨template, c₂⟩, h₂, h⟩ := bind_eq_ok.1 h
  dsimp only at h
  split at h
  · nomatch h
  · next hlacks =>
    obtain ⟨⟨attached, c₃⟩, h₃, h⟩ := bind_eq_ok.1 h
    obtain ⟨rfl, rfl⟩ := Prod.mk.inj (Except.ok.inj h)
    exact ⟨c₁, template, c₂, attached, h₁, h₂, Bool.eq_false_iff.2 hlacks, h₃, rfl⟩

theorem size_read_lt {cfg : Config} {operation : Operation} {c rest : Cursor} {s : Statement}
    (h : read cfg operation c = .ok (s, rest)) : rest.size < c.size := by
  obtain ⟨c₁, template, c₂, attached, h₁, h₂, -, h₃, -⟩ := read_cases h
  have := size_readOpenBrace_lt h₁
  have := Cursor.size_skipGlued_le c .data
  have := size_readBody_lt h₂
  have := size_readAttached?_le h₃
  omega

end UpdateHead

end SparqlTree
