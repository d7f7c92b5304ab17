import SparqlTree.Cursor.Progress
import SparqlTree.Token.Scan

/-!
# Looking ahead and looking back

The tokens ahead of a cursor, line breaks left out, are what looking ahead finds, and they are read
one after the other. So a token that was looked at is the one that is read later on, and what was
read is what looking back finds (`lookahead_agrees`).
-/

namespace SparqlTree

namespace Text

theorem spaced_concat (ws : List Text) (w : Text) :
    spaced (ws ++ [w]) = if ws = [] then w else spaced ws ++ ' ' :: w := by
  induction ws with
  | nil => rw [List.nil_append, spaced_singleton, if_pos rfl]
  | cons v ws ih =>
    rw [List.cons_append, spaced_cons (by simp), ih, if_neg (List.cons_ne_nil _ _)]
    split
    · next hnil => rw [hnil, spaced_singleton]
    · next hne => rw [spaced_cons hne, List.append_assoc, List.cons_append]

end Text

namespace Cursor

/-- The token that the last of `n + 1` readings in a row gives. -/
def readNth (c : Cursor) : Nat → Option Token
  | 0 => c.next.1
  | n + 1 => c.next.2.readNth n

/-- The tokens that are no line breaks. -/
def solid (ts : List Token) : List Token := ts.filter (!·.isLineBreak)

variable {c : Cursor} {t : Token}

/-! ## 1. Tokens other than line breaks -/

theorem solid_cons_break (h : t.isLineBreak = true) (ts : List Token) :
    solid (t :: ts) = solid ts :=
  List.filter_cons_of_neg (by rw [h]; decide)

theorem solid_cons (h : t.isLineBreak = false) (ts : List Token) :
    solid (t :: ts) = t :: solid ts :=
  List.filter_cons_of_pos (by rw [h]; rfl)

theorem solid_eq_nil {ts : List Token} : solid ts = [] ↔ ∀ t ∈ ts, t.isLineBreak = true := by
  rw [solid, List.filter_eq_nil_iff]
  simp

theorem nthToken_eq (ts : List Token) (n : Nat) : nthToken ts n = (solid ts)[n]? := by
  induction ts generalizing n with
  | nil => rfl
  | cons t ts ih =>
    rw [nthToken.eq_def]
    dsimp only
    split
    · next hbreak => rw [solid_cons_break hbreak, ih]
    · next hno =>
      rw [solid_cons (Bool.eq_false_iff.2 hno)]
      cases n with
      | zero => rfl
      | succ n => exact ih n

theorem peekNth_eq (c : Cursor) (n : Nat) : c.peekNth n = (solid c.upcoming)[n]? :=
  nthToken_eq c.upcoming n

/-! ## 2. One step -/

/-- What is read are the tokens ahead, one of them at a time. -/
theorem solid_upcoming_pass (c : Cursor) : solid c.pass.upcoming = (solid c.upcoming).tail := by
  show solid (c.skipBreaks.upcoming.drop 1) = _
  rw [upcoming_skipBreaks]
  generalize c.upcoming = ts
  induction ts with
  | nil => rfl
  | cons t ts ih =>
    cases hbreak : t.isLineBreak with
    | true => rw [List.dropWhile_cons_of_pos hbreak, ih, solid_cons_break hbreak]
    | false =>
      rw [List.dropWhile_cons_of_neg (by rw [hbreak]; decide), solid_cons hbreak]
      rfl

theorem peekNth_succ (c : Cursor) (n : Nat) : c.peekNth (n + 1) = c.pass.peekNth n := by
  rw [peekNth_eq, peekNth_eq, solid_upcoming_pass, List.getElem?_tail]

theorem noBreak_of_peek (h : c.peek = some t) : t.isLineBreak = false := by
  have hmem : t ∈ solid c.upcoming := List.mem_of_getElem? ((peekNth_eq c 0).symm.trans h)
  simpa using (List.mem_filter.1 hmem).2

/-- The token that was read is the last one consumed, line breaks apart. -/
theorem solid_consumed_pass (h : c.peek = some t) :
    solid c.pass.consumed = t :: solid c.consumed := by
  have hbreaks : solid (c.upcoming.takeWhile Token.isLineBreak).reverse = [] :=
    solid_eq_nil.2 fun u hu => List.all_eq_true.1 List.all_takeWhile u (List.mem_reverse.1 hu)
  rw [consumed_pass_of_peek h, solid_cons (noBreak_of_peek h), consumed_skipBreaks, solid,
    List.filter_append, ← solid, hbreaks, List.nil_append, solid]

theorem previous_pass (h : c.peek = some t) (k : Nat) :
    c.pass.previous (k + 1) =
      if k = 0 ∨ ∀ u ∈ c.consumed, u.isLineBreak = true then t.text
      else c.previous k ++ ' ' :: t.text := by
  have hlast : c.pass.previous (k + 1) =
      Text.spaced (((solid c.consumed).take k).reverse.map Token.text ++ [t.text]) := by
    rw [previous, ← solid, solid_consumed_pass h, List.take_succ_cons, List.reverse_cons,
      List.map_append, List.map_singleton]
  have hnone : ((solid c.consumed).take k).reverse.map Token.text = [] ↔
      k = 0 ∨ ∀ u ∈ c.consumed, u.isLineBreak = true := by
    rw [List.map_eq_nil_iff, List.reverse_eq_nil_iff, List.take_eq_nil_iff, solid_eq_nil]
  rw [hlast, Text.spaced_concat]
  simp only [hnone]
  rfl

/-! ## 3. Any number of steps -/

theorem peekNth_eq_readNth (c : Cursor) (n : Nat) : c.peekNth n = c.readNth n := by
  induction n generalizing c with
  | zero => exact (next_fst c).symm
  | succ n ih => rw [peekNth_succ, ih, readNth, next_snd]

theorem hasNext_iff (c : Cursor) : c.hasNext = true ↔ ∃ t, c.next.1 = some t := by
  rw [next_fst, peek, peekNth_eq, ← Option.isSome_iff_exists, ← List.head?_eq_getElem?,
    List.isSome_head?, ne_eq, solid_eq_nil, hasNext, List.any_eq_true]
  simp

/-- Looking ahead finds what is read: the token looked at is the one that the last of as many
readings gives, there is one just if reading gives one, and a token that was read stands behind
those that were read before it. -/
theorem lookahead_agrees (c : Cursor) :
    (∀ n, c.peekNth n = c.readNth n) ∧
      (c.hasNext = true ↔ ∃ t, c.next.1 = some t) ∧
      ∀ t c', c.next = (some t, c') → ∀ k,
        c'.previous (k + 1) =
          if k = 0 ∨ ∀ u ∈ c.consumed, u.isLineBreak = true then t.text
          else c.previous k ++ ' ' :: t.text := by
  refine ⟨peekNth_eq_readNth c, hasNext_iff c, fun t c' h k => ?_⟩
  have hpeek : c.peek = some t := by rw [← next_fst, h]
  obtain rfl : c.pass = c' := by rw [← next_snd, h]
  exact previous_pass hpeek k

/-- The line break between two tokens is neither looked at nor looked back on. -/
theorem lookahead_agrees_lines :
    let c := (start (tokenize "ASK\n\x7b".toList) 5).next.2
    c.next.1 = some ⟨.openBrace, ['\x7b'], ⟨4, 5⟩⟩ ∧ c.peekNth 0 = c.readNth 0 ∧
      c.next.2.previous 2 = "ASK \x7b".toList := by
  intro c
  obtain ⟨hpeek, -, hprevious⟩ := lookahead_agrees c
  have hnext : c.next.1 = some ⟨.openBrace, ['\x7b'], ⟨4, 5⟩⟩ := by decide +kernel
  refine ⟨hnext, hpeek 0, ?_⟩
  rw [hprevious _ _ (Prod.ext hnext rfl) 1]
  decide +kernel

end Cursor

end SparqlTree
