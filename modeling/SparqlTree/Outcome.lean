/-!
# Outcomes

Reading either gives a value or refuses. The facts here are about two readings in a row, and about
a reading that passes on what is known of its result.
-/

namespace SparqlTree

/-- Two steps in a row succeed if the first does and the second does on its result. -/
theorem bind_eq_ok {ε α β : Type} {x : Except ε α} {f : α → Except ε β} {b : β} :
    (x >>= f) = .ok b ↔ ∃ a, x = .ok a ∧ f a = .ok b := by
  cases x <;> simp [bind, Except.bind]

theorem exists_eq_ok {ε α : Type} {x : Except ε α} (h : x.isOk = true) : ∃ a, x = .ok a := by
  cases x with
  | error e => nomatch h
  | ok a => exact ⟨a, rfl⟩

theorem eq_ok_of_toOption {ε α : Type} {x : Except ε α} {a : α} (h : x.toOption = some a) :
    x = .ok a := by
  cases x with
  | error e => nomatch h
  | ok b => exact congrArg Except.ok (Option.some.inj h)

/-- How to go on matters for the results that there are. -/
theorem bind_congr_of_ok {ε α β : Type} {x : Except ε α} {f g : α → Except ε β}
    (h : ∀ a, x = .ok a → f a = g a) : x >>= f = x >>= g := by
  cases x with
  | error e => rfl
  | ok a => exact h a rfl

/-- A result together with what is known of every result. -/
def certify {ε α : Type} {P : α → Prop} (x : Except ε α) (h : ∀ a, x = .ok a → P a) :
    Except ε { a // P a } :=
  match x, h with
  | .error e, _ => .error e
  | .ok a, h => .ok ⟨a, h a rfl⟩

/-- What is known of the results does not change how they are used. -/
theorem map_certify_bind {ε α β γ : Type} {P : α → Prop} {x : Except ε α}
    {h : ∀ a, x = .ok a → P a} {f : { a // P a } → Except ε β} {v : β → γ} {g : α → Except ε γ}
    (hfg : ∀ a : { a // P a }, (f a).map v = g a.1) : (certify x h >>= f).map v = x >>= g := by
  cases x with
  | error e => rfl
  | ok a => exact hfg ⟨a, h a rfl⟩

theorem map_bind {ε α β γ δ : Type} {x : Except ε α} {f : α → Except ε β} {u : α → γ} {v : β → δ}
    {g : γ → Except ε δ} (hfg : ∀ a, (f a).map v = g (u a)) :
    (x >>= f).map v = x.map u >>= g := by
  cases x with
  | error e => rfl
  | ok a => exact hfg a

end SparqlTree
