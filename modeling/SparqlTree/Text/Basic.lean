/-!
# Text

Query text is a list of characters, so that scanning it is ordinary recursion on a list.
Positions and lengths are counted in UTF-8 bytes; `splitBytes?` cuts a text at such a position
and refuses one that falls inside a character.
-/

namespace SparqlTree

/-- A piece of query text. -/
abbrev Text := List Char

namespace Text

/-- The number of bytes of the text in UTF-8. -/
def byteLength : Text → Nat
  | [] => 0
  | c :: t => c.utf8Size + byteLength t

/-- Cuts a text after its first `n` bytes, if a character ends there. -/
def splitBytes? : Nat → Text → Option (Text × Text)
  | 0, t => some ([], t)
  | _ + 1, [] => none
  | n + 1, c :: t =>
    if c.utf8Size ≤ n + 1 then
      (splitBytes? (n + 1 - c.utf8Size) t).map fun (head, tail) => (c :: head, tail)
    else none

/-- Joins texts with a single space between neighbours. -/
def spaced (ts : List Text) : Text := [' '].intercalate ts

/-- Joins texts with a line feed between neighbours. -/
def lines (ts : List Text) : Text := ['\n'].intercalate ts

/-- A number in decimal digits. -/
def ofNat (n : Nat) : Text := Nat.toDigits 10 n

/-! ## Texts that are joined -/

@[simp] theorem spaced_nil : spaced [] = [] := rfl

@[simp] theorem spaced_singleton (t : Text) : spaced [t] = t := by simp [spaced]

theorem spaced_cons {t : Text} {ts : List Text} (hne : ts ≠ []) :
    spaced (t :: ts) = t ++ ' ' :: spaced ts := by
  cases ts with
  | nil => exact absurd rfl hne
  | cons u ts => simp [spaced, List.intercalate]

/-! ## Byte lengths -/

@[simp] theorem byteLength_nil : byteLength [] = 0 := rfl

@[simp] theorem byteLength_cons (c : Char) (t : Text) :
    byteLength (c :: t) = c.utf8Size + byteLength t := rfl

@[simp] theorem byteLength_append (s t : Text) :
    byteLength (s ++ t) = byteLength s + byteLength t := by
  induction s with
  | nil => simp
  | cons c s ih => simp [ih, Nat.add_assoc]

/-- A cut at a byte position loses nothing, and the position is the length of the first piece. -/
theorem splitBytes?_eq_some {n : Nat} {t head tail : Text}
    (h : splitBytes? n t = some (head, tail)) : t = head ++ tail ∧ byteLength head = n := by
  induction n, t using splitBytes?.induct generalizing head with
  | case1 t => simp_all [splitBytes?]
  | case2 n => simp [splitBytes?] at h
  | case3 n c t hc ih =>
    rw [splitBytes?, if_pos hc] at h
    obtain ⟨⟨a, b⟩, hab, hcons⟩ := Option.map_eq_some_iff.1 h
    obtain ⟨rfl, rfl⟩ := Prod.mk.inj hcons
    obtain ⟨rfl, hlen⟩ := ih hab
    exact ⟨rfl, by rw [byteLength_cons, hlen]; omega⟩
  | case4 n c t hc => simp [splitBytes?, hc] at h

/-- A text can be cut behind each of its beginnings. -/
theorem splitBytes?_append (head tail : Text) :
    splitBytes? (byteLength head) (head ++ tail) = some (head, tail) := by
  induction head with
  | nil => rw [byteLength_nil, List.nil_append, splitBytes?]
  | cons c head ih =>
    obtain ⟨k, hk⟩ := Nat.exists_eq_succ_of_ne_zero (Nat.ne_of_gt c.utf8Size_pos)
    have hlen : byteLength (c :: head) = k + byteLength head + 1 := by
      rw [byteLength_cons, hk]
      omega
    have hsub : k + byteLength head + 1 - c.utf8Size = byteLength head := by omega
    rw [hlen, List.cons_append, splitBytes?, if_pos (by omega), hsub, ih]
    rfl

end Text

end SparqlTree
