import SparqlTree.Cursor.Repeat
import SparqlTree.Proofs.Cursor.View
import SparqlTree.Proofs.Token.Cover

/-!
# Bytes that are unread

The text before a cursor is measured in bytes. Going on leaves fewer of them, also where a token was
cut and its second half comes next: the number of tokens is then what it was, but the first half is
gone (`Lexed.unread_cut`). A loop whose turns each leave fewer bytes takes no more turns than there
are bytes when it begins (`Step.Turns.le_unread`).
-/

namespace SparqlTree.Cursor

open Text (byteLength)

/-- The bytes in some tokens. -/
def bytes : List Token → Nat
  | [] => 0
  | t :: ts => byteLength t.text + bytes ts

/-- The bytes in the tokens that were not consumed. -/
def unread (c : Cursor) : Nat := bytes c.upcoming

variable {c : Cursor}

/-! ## 1. Going on -/

@[simp] theorem bytes_cons (t : Token) (ts : List Token) :
    bytes (t :: ts) = byteLength t.text + bytes ts := rfl

theorem bytes_append (ts us : List Token) : bytes (ts ++ us) = bytes ts + bytes us := by
  induction ts with
  | nil => exact (Nat.zero_add _).symm
  | cons t ts ih => rw [List.cons_append, bytes_cons, bytes_cons, ih, Nat.add_assoc]

theorem bytes_drop_le (ts : List Token) (n : Nat) : bytes (ts.drop n) ≤ bytes ts := by
  have h := bytes_append (ts.take n) (ts.drop n)
  rw [List.take_append_drop] at h
  omega

theorem Lexed.ne_nil_of_mem {t : Token} (hc : c.Lexed) (ht : t ∈ c.upcoming) : t.text ≠ [] := by
  obtain ⟨ws, hs, hscan⟩ := hc
  have hmem : t.text ∈ c.past ++ ws :=
    List.mem_append_right _ (hs.texts ▸ List.mem_map_of_mem ht)
  rcases hscan.isToken_or_isOpen hmem with hw | hw
  · exact hw.ne_nil
  · exact hw.1.ne_nil

/-- A cursor that went on is the one it was, or fewer bytes are unread. -/
theorem Lexed.unread_advance (hc : c.Lexed) (n : Nat) :
    c.advance n = c ∨ (c.advance n).unread < c.unread := by
  cases n with
  | zero => exact .inl rfl
  | succ n =>
    cases hup : c.upcoming with
    | nil => exact .inl (advance_of_nil hup _)
    | cons t ts =>
      right
      have hpos := Text.byteLength_pos (hc.ne_nil_of_mem (hup ▸ List.mem_cons_self : t ∈ _))
      have hdrop := bytes_drop_le ts n
      show bytes (c.upcoming.drop (n + 1)) < bytes c.upcoming
      rw [hup, List.drop_succ_cons, bytes_cons]
      omega

theorem Lexed.unread_pos {t : Token} (hc : c.Lexed) (ht : t ∈ c.upcoming) : 0 < c.unread := by
  have hpos := Text.byteLength_pos (hc.ne_nil_of_mem ht)
  obtain ⟨us, vs, hup⟩ := List.append_of_mem ht
  rw [unread, hup, bytes_append, bytes_cons]
  omega

theorem mem_upcoming_of_peek {t : Token} (hp : c.peek = some t) : t ∈ c.upcoming := by
  rw [upcoming_eq_of_peek hp]
  exact List.mem_append_right _ List.mem_cons_self

theorem unread_pass_add_le {t : Token} (hp : c.peek = some t) :
    byteLength t.text + c.pass.unread ≤ c.unread := by
  rw [unread, unread, upcoming_eq_of_peek hp, bytes_append, bytes_cons]
  omega

/-- Where the token that was just consumed is cut, its second half is shorter than all of it. -/
theorem Lexed.unread_cut {t : Token} (hc : c.Lexed) (hp : c.peek = some t) (head : Text) :
    (c.pass.breakOff head).unread < c.unread := by
  have hadd := unread_pass_add_le hp
  rw [Cursor.breakOff]
  cases hb : c.pass.breakOff? head with
  | none =>
    have hpos := Text.byteLength_pos (hc.ne_nil_of_mem (mem_upcoming_of_peek hp))
    rw [Option.getD_none]
    omega
  | some c' =>
    obtain ⟨u, before, hcons, hne, hlt, -, -, hup⟩ := breakOff?_eq_some hb
    rw [consumed_pass_of_peek hp] at hcons
    obtain ⟨rfl, rfl⟩ := List.cons_eq_cons.1 hcons
    have hfront : t.text.take head.length ≠ [] := by
      rw [← List.length_pos_iff, List.length_take]
      have := List.length_pos_iff.2 hne
      omega
    have hpos := Text.byteLength_pos hfront
    have hlen := Text.byteLength_append (t.text.take head.length) (t.text.drop head.length)
    rw [List.take_append_drop] at hlen
    have hnext : c'.unread = byteLength (t.text.drop head.length) + c.pass.unread := by
      rw [unread, hup, bytes_cons]
      rfl
    rw [Option.getD_some, hnext]
    omega

/-! ## 2. Turns of a loop -/

namespace Step

variable {α : Type} {step : Step α} {n : Nat} {a a' b : α} {c c' rest : Cursor}

/-- Taking the step `n` times in a row leads from one state and cursor to another. -/
inductive Turns (step : Step α) : Nat → α → Cursor → α → Cursor → Prop
  | none (a : α) (c : Cursor) : Turns step 0 a c a c
  | turn {n : Nat} {a a' b : α} {c c' rest : Cursor} : step a c = .ok (some (a', c')) →
    Turns step n a' c' b rest → Turns step (n + 1) a c b rest

/-- The loop ends here with a result: the step declines, or refuses the text. -/
inductive Ends (step : Step α) (a : α) (c : Cursor) : Except ParseError (α × Cursor) → Prop
  | declines : step a c = .ok none → Ends step a c (.ok (a, c))
  | refuses {e : ParseError} : step a c = .error e → Ends step a c (.error e)

/-- No run of a loop is longer than the number of bytes that are unread when it begins, provided
that each turn leaves fewer of them. -/
theorem Turns.le_unread {P : Cursor → Prop}
    (hstep : ∀ {a c a' c'}, P c → step a c = .ok (some (a', c')) → P c' ∧ c'.unread < c.unread)
    (hc : P c) (h : step.Turns n a c b rest) : P rest ∧ n + rest.unread ≤ c.unread := by
  induction h with
  | none => exact ⟨hc, Nat.le_of_eq (Nat.zero_add _)⟩
  | turn hturn _ ih =>
    obtain ⟨hc', hlt⟩ := hstep hc hturn
    obtain ⟨hrest, hle⟩ := ih hc'
    exact ⟨hrest, by omega⟩

/-- Every loop comes to an end, and its result is the one that it ends with. -/
theorem exists_turns (productive : step.Productive) (a : α) (c : Cursor) :
    ∃ n b rest, step.Turns n a c b rest ∧ step.Ends b rest (repeatStep step productive a c) := by
  induction c using Cursor.size_induction generalizing a with
  | ind c ih =>
    rw [repeatStep_eq]
    cases hs : step a c with
    | error e => exact ⟨0, a, c, .none a c, .refuses hs⟩
    | ok r =>
      cases r with
      | none => exact ⟨0, a, c, .none a c, .declines hs⟩
      | some r =>
        obtain ⟨n, b, rest, hturns, hends⟩ := ih r.2 (productive a c r.1 r.2 hs) r.1
        exact ⟨n + 1, b, rest, .turn hs hturns, hends⟩

end Step

end SparqlTree.Cursor
