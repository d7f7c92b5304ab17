import SparqlTree.Cursor.Repeat

/-!
# Solution modifiers

The clauses behind the body of a query form: LIMIT and OFFSET with a value, GROUP BY with a
variable, ORDER BY with a key. Each is kept as the text of its tokens.
-/

namespace SparqlTree.Modifier

/-- Reads one solution modifier, or declines if none begins here. -/
def read? (c : Cursor) : Except ParseError (Option (Text × Cursor)) := do
  match c.peek with
  | none => pure none
  | some t =>
    if Keyword.limit.spells t.text || Keyword.offset.spells t.text then
      let (value, c) ← c.pass.expect (.valueAfter t.text)
      pure (some (Text.spaced [t.text, value.text], c))
    else if Keyword.group.spells t.text then
      let (link, c) ← c.pass.require .groupBy (Keyword.by_.spells ·.text)
      let (name, c) ← c.require .groupingVariable (·.text.head? == some '?')
      pure (some (Text.spaced [t.text, link.text, name.text], c))
    else if Keyword.order.spells t.text then
      let (link, c) ← c.pass.require .orderBy (Keyword.by_.spells ·.text)
      let (key, c) ← c.expect .orderingKey
      pure (some (Text.spaced [t.text, link.text, key.text], c))
    else pure none

theorem size_read?_lt {c rest : Cursor} {m : Text} (h : read? c = .ok (some (m, rest))) :
    rest.size < c.size := by
  unfold read? at h
  split at h
  · nomatch h
  · next t hp =>
    have hpass := Cursor.size_pass_lt hp
    split at h
    · obtain ⟨⟨v, c₁⟩, h₁, h⟩ := bind_eq_ok.1 h
      have := Cursor.size_expect_lt h₁
      obtain ⟨-, rfl⟩ := Prod.mk.inj (Option.some.inj (Except.ok.inj h))
      omega
    · split at h
      · obtain ⟨⟨v, c₁⟩, h₁, h⟩ := bind_eq_ok.1 h
        obtain ⟨⟨w, c₂⟩, h₂, h⟩ := bind_eq_ok.1 h
        have := Cursor.size_require_lt h₁
        have := Cursor.size_require_lt h₂
        obtain ⟨-, rfl⟩ := Prod.mk.inj (Option.some.inj (Except.ok.inj h))
        omega
      · split at h
        · obtain ⟨⟨v, c₁⟩, h₁, h⟩ := bind_eq_ok.1 h
          obtain ⟨⟨w, c₂⟩, h₂, h⟩ := bind_eq_ok.1 h
          have := Cursor.size_require_lt h₁
          have := Cursor.size_expect_lt h₂
          obtain ⟨-, rfl⟩ := Prod.mk.inj (Option.some.inj (Except.ok.inj h))
          omega
        · nomatch h

/-- Reads one more solution modifier behind those that were read. -/
def step : Cursor.Step (List Text) := fun read c => do
  match ← read? c with
  | none => pure none
  | some (m, c) => pure (some (read ++ [m], c))

theorem step_productive : step.Productive := by
  intro ms c ms' c' h
  obtain ⟨r, hr, h⟩ := bind_eq_ok.1 h
  cases r with
  | none => nomatch h
  | some r =>
    obtain ⟨-, rfl⟩ := Prod.mk.inj (Option.some.inj (Except.ok.inj h))
    exact size_read?_lt hr

/-- Reads all solution modifiers that follow one another here. -/
def readAll (c : Cursor) : Except ParseError (List Text × Cursor) :=
  Cursor.repeatStep step step_productive [] c

theorem size_readAll_le {c rest : Cursor} {ms : List Text} (h : readAll c = .ok (ms, rest)) :
    rest.size ≤ c.size :=
  Cursor.size_repeatStep_le h

end SparqlTree.Modifier
