import SparqlTree.Cursor.Progress

/-!
# Repeated reading

Two loops over a cursor. `takeRun` takes tokens as long as they pass a test. `repeatStep` takes a
step as long as it does not decline; it asks for steps that leave less to read, so that it ends.
-/

namespace SparqlTree.Cursor

/-- The longest run of tokens that pass a test, line breaks between them apart, and the cursor
directly behind the last of them. -/
def takeRun (accept : Token → Bool) (c : Cursor) : List Token × Cursor :=
  match _h : c.peek with
  | some t =>
    if accept t then (t :: (takeRun accept c.pass).1, (takeRun accept c.pass).2) else ([], c)
  | none => ([], c)
termination_by c.size
decreasing_by all_goals exact size_pass_lt _h

theorem size_takeRun_le (accept : Token → Bool) (c : Cursor) :
    (c.takeRun accept).2.size ≤ c.size := by
  induction c using takeRun.induct accept with
  | case1 c t h ht ih =>
    rw [takeRun]
    split
    · next t' h' =>
      obtain rfl : t' = t := Option.some.inj (h'.symm.trans h)
      simp only [ht, if_true]
      exact Nat.le_trans ih (size_pass_le c)
    · exact Nat.le_refl _
  | case2 c t h ht =>
    rw [takeRun]
    split
    · next t' h' =>
      obtain rfl : t' = t := Option.some.inj (h'.symm.trans h)
      simp [ht]
    · exact Nat.le_refl _
  | case3 c h =>
    rw [takeRun]
    split
    · next t' h' => simp [h] at h'
    · exact Nat.le_refl _

/-- A step that changes a state and reads on, or declines. -/
abbrev Step (α : Type) := α → Cursor → Except ParseError (Option (α × Cursor))

/-- A step is productive if it leaves less to read whenever it does not decline. -/
def Step.Productive {α : Type} (step : Step α) : Prop :=
  ∀ a c a' c', step a c = .ok (some (a', c')) → c'.size < c.size

/-- Takes a step again and again until it declines. -/
def repeatStep {α : Type} (step : Step α) (productive : step.Productive) (a : α) (c : Cursor) :
    Except ParseError (α × Cursor) :=
  match _h : step a c with
  | .error e => .error e
  | .ok none => .ok (a, c)
  | .ok (some (a', c')) => repeatStep step productive a' c'
termination_by c.size
decreasing_by exact productive a c a' c' _h

theorem repeatStep_eq {α : Type} (step : Step α) (productive : step.Productive) (a : α)
    (c : Cursor) :
    repeatStep step productive a c = (do
      match ← step a c with
      | none => pure (a, c)
      | some (a', c') => repeatStep step productive a' c') := by
  rw [repeatStep]
  cases step a c with
  | error e => rfl
  | ok r => cases r <;> rfl

/-- Induction along a run that comes to an end, from its last state back to the first. -/
@[elab_as_elim]
theorem repeatStep_induction {α : Type} {step : Step α} {productive : step.Productive} {b : α}
    {rest : Cursor}
    {motive : (a : α) → (c : Cursor) → repeatStep step productive a c = .ok (b, rest) → Prop}
    (stop : ∀ (_ : step b rest = .ok none) hrun, motive b rest hrun)
    (turn : ∀ {a c a' c'} (_ : step a c = .ok (some (a', c')))
      (htail : repeatStep step productive a' c' = .ok (b, rest)) hrun,
      motive a' c' htail → motive a c hrun)
    {a : α} {c : Cursor} (hrun : repeatStep step productive a c = .ok (b, rest)) :
    motive a c hrun := by
  induction c using size_induction generalizing a with
  | ind c ih =>
    obtain ⟨r, hr, htail⟩ := bind_eq_ok.1 (repeatStep_eq step productive a c ▸ hrun)
    cases r with
    | none =>
      obtain ⟨rfl, rfl⟩ := Prod.mk.inj (Except.ok.inj htail)
      exact stop hr hrun
    | some r => exact turn hr htail hrun (ih r.2 (productive a c r.1 r.2 hr) htail)

/-- What every step keeps holds at the end of the run, where no step is left to take. -/
theorem repeatStep_invariant {α : Type} {step : Step α} {productive : step.Productive}
    {P : α → Cursor → Prop}
    (hstep : ∀ {a c a' c'}, P a c → step a c = .ok (some (a', c')) → P a' c')
    {a b : α} {c rest : Cursor} (h : P a c)
    (hrun : repeatStep step productive a c = .ok (b, rest)) :
    P b rest ∧ step b rest = .ok none := by
  induction hrun using repeatStep_induction with
  | stop hlast => exact ⟨h, hlast⟩
  | turn hturn _ _ ih => exact ih (hstep h hturn)

/-- Repeating a productive step leaves no more to read than there was. -/
theorem size_repeatStep_le {α : Type} {step : Step α} {productive : step.Productive} {a b : α}
    {c rest : Cursor} (h : repeatStep step productive a c = .ok (b, rest)) :
    rest.size ≤ c.size := by
  induction h using repeatStep_induction with
  | stop => exact Nat.le_refl _
  | turn hturn _ _ ih => exact Nat.le_trans ih (Nat.le_of_lt (productive _ _ _ _ hturn))

end SparqlTree.Cursor
