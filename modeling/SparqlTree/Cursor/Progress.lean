import SparqlTree.Cursor.Basic
import SparqlTree.Outcome

/-!
# What remains to be read

The amount of text before a cursor is measured by `size`. Every operation that consumes a token
makes it smaller, also one that puts the second half of a cut token back: this is why every loop
of the grammar ends.
-/

namespace SparqlTree.Cursor

/-- The characters of some tokens, with one more for each token. -/
def weight : List Token → Nat
  | [] => 0
  | t :: ts => t.text.length + 1 + weight ts

@[simp] theorem weight_append (ts us : List Token) : weight (ts ++ us) = weight ts + weight us := by
  induction ts with
  | nil => simp [weight]
  | cons t ts ih => simp [weight, ih, Nat.add_assoc]

/-- How much is left to read. -/
def size (c : Cursor) : Nat := weight c.upcoming

/-- Induction on how much is left to read. -/
@[elab_as_elim]
theorem size_induction {motive : Cursor → Prop}
    (ind : ∀ c, (∀ d : Cursor, d.size < c.size → motive d) → motive c) (c : Cursor) : motive c :=
  (measure size).wf.induction c ind

theorem size_advance_le (c : Cursor) (n : Nat) : (c.advance n).size ≤ c.size := by
  have h := weight_append (c.upcoming.take n) (c.upcoming.drop n)
  rw [List.take_append_drop] at h
  show weight (c.upcoming.drop n) ≤ weight c.upcoming
  omega

theorem upcoming_skipBreaks (c : Cursor) :
    c.skipBreaks.upcoming = c.upcoming.dropWhile Token.isLineBreak := by
  have h : ∀ ts : List Token,
      ts.drop (ts.takeWhile Token.isLineBreak).length = ts.dropWhile Token.isLineBreak := by
    intro ts
    induction ts with
    | nil => rfl
    | cons t ts ih => by_cases ht : t.isLineBreak = true <;> simp [ht, ih]
  exact h c.upcoming

theorem consumed_skipBreaks (c : Cursor) :
    c.skipBreaks.consumed = (c.upcoming.takeWhile Token.isLineBreak).reverse ++ c.consumed := by
  have h : ∀ ts : List Token,
      ts.take (ts.takeWhile Token.isLineBreak).length = ts.takeWhile Token.isLineBreak := by
    intro ts
    induction ts with
    | nil => rfl
    | cons t ts ih => by_cases ht : t.isLineBreak = true <;> simp [ht, ih]
  exact congrArg (·.reverse ++ c.consumed) (h c.upcoming)

/-- Looking ahead and reading on find the same token. -/
theorem peek_eq_head?_skipBreaks (c : Cursor) : c.peek = c.skipBreaks.upcoming.head? := by
  have h : ∀ ts : List Token, nthToken ts 0 = (ts.dropWhile Token.isLineBreak).head? := by
    intro ts
    induction ts with
    | nil => rfl
    | cons t ts ih => by_cases ht : t.isLineBreak = true <;> simp [nthToken, ht, ih]
  rw [upcoming_skipBreaks]
  exact h c.upcoming

@[simp] theorem next_fst (c : Cursor) : c.next.1 = c.peek := (peek_eq_head?_skipBreaks c).symm

@[simp] theorem next_snd (c : Cursor) : c.next.2 = c.pass := rfl

/-- The token that comes next is the last one consumed by stepping over it. -/
theorem skipBreaks_upcoming_eq_of_peek {c : Cursor} {t : Token} (h : c.peek = some t) :
    c.skipBreaks.upcoming = t :: c.pass.upcoming := by
  rw [peek_eq_head?_skipBreaks] at h
  obtain ⟨rest, hrest⟩ := List.head?_eq_some_iff.1 h
  rw [pass, advance]
  simp [hrest]

theorem consumed_pass_of_peek {c : Cursor} {t : Token} (h : c.peek = some t) :
    c.pass.consumed = t :: c.skipBreaks.consumed := by
  rw [peek_eq_head?_skipBreaks] at h
  obtain ⟨rest, hrest⟩ := List.head?_eq_some_iff.1 h
  rw [pass, advance]
  simp [hrest]

theorem size_pass_le (c : Cursor) : c.pass.size ≤ c.size :=
  Nat.le_trans (size_advance_le _ _) (size_advance_le _ _)

/-- Stepping over a token takes it off the remaining text. -/
theorem size_pass_add_le {c : Cursor} {t : Token} (h : c.peek = some t) :
    c.pass.size + (t.text.length + 1) ≤ c.size := by
  have h1 : c.skipBreaks.size ≤ c.size := size_advance_le _ _
  have h2 : c.skipBreaks.size = (t.text.length + 1) + c.pass.size := by
    rw [size, skipBreaks_upcoming_eq_of_peek h]
    rfl
  omega

theorem size_pass_lt {c : Cursor} {t : Token} (h : c.peek = some t) : c.pass.size < c.size := by
  have := size_pass_add_le h
  omega

theorem size_pass_lt_of_any {c : Cursor} {p : Token → Bool} (h : c.peek.any p = true) :
    c.pass.size < c.size := by
  cases hp : c.peek with
  | none => simp [hp] at h
  | some t => exact size_pass_lt hp

/-- Stepping over a token and cutting it still leaves less to read. -/
theorem size_pass_breakOff_lt {c : Cursor} {t : Token} (h : c.peek = some t) (head : Text) :
    (c.pass.breakOff head).size < c.size := by
  have hadd := size_pass_add_le h
  unfold breakOff breakOff?
  rw [consumed_pass_of_peek h]
  dsimp only
  split
  · next hc =>
    have hpos : 0 < head.length := List.length_pos_iff.2 hc.1
    simp only [Option.getD_some, replaceCurrent, consumed_pass_of_peek h, Token.cut, size,
      List.cons_append, List.nil_append, weight, List.length_drop]
    simp only [size] at hadd
    omega
  · simp only [Option.getD_none]; omega

theorem size_eat?_lt {c rest : Cursor} {k : Keyword} (h : c.eat? k = some rest) :
    rest.size < c.size := by
  unfold eat? at h
  split at h
  · next hk => exact Option.some.inj h ▸ size_pass_lt_of_any hk
  · simp at h

theorem size_eatGlued?_lt {c rest : Cursor} {k : Keyword} (h : c.eatGlued? k = some rest) :
    rest.size < c.size := by
  unfold eatGlued? at h
  split at h
  · next hk =>
    cases hp : c.peek with
    | none => simp [atGlued, hp] at hk
    | some t => exact Option.some.inj h ▸ size_pass_breakOff_lt hp _
  · simp at h

theorem size_skip_le (c : Cursor) (k : Keyword) : (c.skip k).size ≤ c.size := by
  unfold skip
  cases h : c.eat? k with
  | none => exact Nat.le_refl _
  | some rest => exact Nat.le_of_lt (size_eat?_lt h)

theorem size_skipGlued_le (c : Cursor) (k : Keyword) : (c.skipGlued k).size ≤ c.size := by
  unfold skipGlued
  cases h : c.eatGlued? k with
  | none => exact Nat.le_refl _
  | some rest => exact Nat.le_of_lt (size_eatGlued?_lt h)

/-! ## Reading what is due -/

theorem expect_eq_ok {c rest : Cursor} {e : Expectation} {t : Token}
    (h : c.expect e = .ok (t, rest)) : c.peek = some t ∧ rest = c.pass := by
  unfold expect at h
  rw [← next_fst, ← next_snd]
  split at h
  · next heq =>
    obtain ⟨rfl, rfl⟩ := Prod.mk.inj (Except.ok.inj h)
    simp [heq]
  · simp at h

theorem require_eq_ok {c rest : Cursor} {e : Expectation} {accept : Token → Bool} {t : Token}
    (h : c.require e accept = .ok (t, rest)) :
    c.peek = some t ∧ rest = c.pass ∧ accept t = true := by
  obtain ⟨⟨t', rest'⟩, hx, h⟩ := bind_eq_ok.1 h
  dsimp only at h
  split at h
  · next ha =>
    obtain ⟨rfl, rfl⟩ := Prod.mk.inj (Except.ok.inj h)
    exact ⟨(expect_eq_ok hx).1, (expect_eq_ok hx).2, ha⟩
  · nomatch h

theorem requireKind_eq_ok {c rest : Cursor} {e : Expectation} {kind : TokenKind}
    (h : c.requireKind e kind = .ok rest) :
    ∃ t, c.peek = some t ∧ rest = c.pass ∧ t.kind = kind := by
  obtain ⟨⟨t, rest'⟩, hx, h⟩ := bind_eq_ok.1 h
  obtain ⟨h1, h2, h3⟩ := require_eq_ok hx
  exact ⟨t, h1, Except.ok.inj h ▸ h2, by simpa using h3⟩

theorem requireIri_eq_ok {c rest : Cursor} {iri : Text} (h : c.requireIri = .ok (iri, rest)) :
    ∃ t, c.peek = some t ∧ rest = c.pass ∧ t.iri? = some iri := by
  obtain ⟨⟨t, rest'⟩, hx, h⟩ := bind_eq_ok.1 h
  dsimp only at h
  split at h
  · next hi =>
    obtain ⟨rfl, rfl⟩ := Prod.mk.inj (Except.ok.inj h)
    exact ⟨t, (expect_eq_ok hx).1, (expect_eq_ok hx).2, hi⟩
  · nomatch h

theorem size_expect_lt {c rest : Cursor} {e : Expectation} {t : Token}
    (h : c.expect e = .ok (t, rest)) : rest.size < c.size := by
  obtain ⟨hp, rfl⟩ := expect_eq_ok h
  exact size_pass_lt hp

theorem size_require_lt {c rest : Cursor} {e : Expectation} {accept : Token → Bool} {t : Token}
    (h : c.require e accept = .ok (t, rest)) : rest.size < c.size := by
  obtain ⟨hp, rfl, _⟩ := require_eq_ok h
  exact size_pass_lt hp

theorem size_requireKind_lt {c rest : Cursor} {e : Expectation} {kind : TokenKind}
    (h : c.requireKind e kind = .ok rest) : rest.size < c.size := by
  obtain ⟨t, hp, rfl, _⟩ := requireKind_eq_ok h
  exact size_pass_lt hp

theorem size_requireIri_lt {c rest : Cursor} {iri : Text} (h : c.requireIri = .ok (iri, rest)) :
    rest.size < c.size := by
  obtain ⟨t, hp, rfl, _⟩ := requireIri_eq_ok h
  exact size_pass_lt hp

end SparqlTree.Cursor
