import SparqlTree.Proofs.Cursor.View
import SparqlTree.Proofs.Token.Slices

/-!
# The tokens of a cursor

A cursor is moved forward, looked around from, and made to cut the token it consumed last. Whatever
is called on a cursor in the tokens of a text, and in whatever order, the tokens stay slices of the
text and the line can be told from the line feeds before the cursor (`Faithful`). One call keeps
this up (`Faithful.run`), and so does any number of them. What a cut comes to is stated by byte
positions (`breakOff?_eq_some_iff`), not by the comparison of letters that the cursor makes.
-/

namespace SparqlTree.Cursor

/-! ## 1. Calls -/

/-- What may be called on a cursor while a text is read. -/
inductive Call where
  | next
  | nextAny
  | expect (due : Expectation)
  | peekNth (n : Nat)
  | peekAny
  | breakOff (head : Text)

/-- The cursor that a call leaves. -/
def run (c : Cursor) : Call → Cursor
  | .next => c.next.2
  | .nextAny => c.nextAny.2
  | .expect due =>
    match c.expect due with
    | .ok (_, rest) => rest
    -- At the end of the text the line breaks that were left have been consumed.
    | .error _ => c.next.2
  | .peekNth _ => c
  | .peekAny => c
  | .breakOff head => c.breakOff head

/-- The cursor that several calls leave, one after the other. -/
def runAll (c : Cursor) (calls : List Call) : Cursor := calls.foldl run c

/-- The number of tokens before the cursor. -/
def index (c : Cursor) : Nat := c.consumed.length

/-- `c'` is `c` with the token consumed last cut behind `head`: the pieces are the token consumed
last and the next one, and all else is as it was. -/
def IsCut (c : Cursor) (head : Text) (c' : Cursor) : Prop :=
  ∃ t before front back, c.consumed = t :: before ∧
    t.splitAt? (Text.byteLength head) = some (front, back) ∧
    Text.sameLetters front.text head = true ∧
    c' = { c with consumed := front :: before, upcoming := back :: c.upcoming }

/-- The tokens of the cursor are those of the text, cut or not, and its line is where it stands. -/
structure Faithful (text : Text) (c : Cursor) : Prop where
  /-- The cursor does not stand beyond its tokens. -/
  index_le : c.index ≤ c.whole.length
  /-- The tokens are slices of the text. -/
  slices : Slices text c.whole
  /-- The line is told by the line feeds before the cursor. -/
  line_eq : c.line = 1 + (c.whole.take c.index).countP (·.kind == .newline)

variable {text head : Text} {c c' : Cursor}

/-! ## 2. Cuts -/

theorem breakOff?_eq_some_iff : c.breakOff? head = some c' ↔ c.IsCut head c' := by
  constructor
  · intro h
    obtain ⟨t, before, hcons⟩ := exists_consumed_of_breakOff? h
    rw [breakOff?_of_consumed hcons] at h
    split at h
    · next hcut =>
      obtain ⟨hne, hlt, hsame⟩ := hcut
      have hfront : t.text.take head.length ≠ [] := by
        rw [← List.length_pos_iff, Text.length_eq_of_sameLetters hsame]
        exact List.length_pos_iff.2 hne
      have hback : t.text.drop head.length ≠ [] := by
        rw [← List.length_pos_iff, List.length_drop]
        omega
      have hsplit := Token.splitAt?_eq_some.2 ⟨_, _,
        (List.take_append_drop head.length t.text).symm,
        Text.byteLength_eq_of_sameLetters hsame, hfront, hback, rfl⟩
      exact ⟨t, before, _, _, hcons, hsplit, hsame, (Option.some.inj h).symm⟩
    · nomatch h
  · rintro ⟨t, before, front, back, hcons, hsplit, hsame, rfl⟩
    obtain ⟨x, y, htext, -, hx, hy, hcut⟩ := Token.splitAt?_eq_some.1 hsplit
    obtain ⟨rfl, rfl⟩ := Prod.mk.inj hcut
    replace hsame : Text.sameLetters x head = true := hsame
    -- The pieces are found again by the number of characters.
    have hlen := Text.length_eq_of_sameLetters hsame
    have htake : t.text.take head.length = x := by rw [htext, ← hlen, List.take_left]
    have hdrop : t.text.drop head.length = y := by rw [htext, ← hlen, List.drop_left]
    have hne : head ≠ [] := by
      rw [← List.length_pos_iff, ← hlen]
      exact List.length_pos_iff.2 hx
    have hlt : head.length < t.text.length := by
      have := List.length_pos_iff.2 hy
      rw [htext, List.length_append, hlen]
      omega
    rw [breakOff?_of_consumed hcons, htake, hdrop, if_pos ⟨hne, hlt, hsame⟩]
    rfl

/-! ## 3. One call -/

theorem take_index (c : Cursor) : c.whole.take c.index = c.consumed.reverse :=
  List.take_left' List.length_reverse

theorem index_le_length (c : Cursor) : c.index ≤ c.whole.length := by
  rw [index, whole, List.length_append, List.length_reverse]
  exact Nat.le_add_right _ _

theorem Faithful.line_eq_consumed (h : c.Faithful text) :
    c.line = 1 + c.consumed.countP (·.kind == .newline) := by
  rw [h.line_eq, take_index, List.countP_reverse]

theorem faithful_start (text : Text) :
    (start (tokenize text) (Text.byteLength text)).Faithful text where
  index_le := index_le_length _
  slices := slices_tokenize text
  line_eq := rfl

theorem Faithful.advance (h : c.Faithful text) (n : Nat) : (c.advance n).Faithful text where
  index_le := index_le_length _
  slices := by
    rw [whole_advance]
    exact h.slices
  line_eq := by
    rw [take_index, List.countP_reverse]
    exact line_advance h.line_eq_consumed n

theorem Faithful.pass (h : c.Faithful text) : c.pass.Faithful text := (h.advance _).advance 1

/-- Neither a token that is cut nor its first piece is a line feed, so the lines before the cursor
are as many as they were. -/
theorem Faithful.breakOff? (h : c.Faithful text) (hhead : '\n' ∉ head)
    (hb : c.breakOff? head = some c') : c'.Faithful text := by
  obtain ⟨t, before, front, back, hcons, hsplit, hsame, rfl⟩ := breakOff?_eq_some_iff.1 hb
  obtain ⟨x, y, htext, -, hx, hy, hcut⟩ := Token.splitAt?_eq_some.1 hsplit
  obtain ⟨rfl, rfl⟩ := Prod.mk.inj hcut
  have hwhole : c.whole = before.reverse ++ t :: c.upcoming := by
    rw [whole, hcons, List.reverse_cons, List.append_assoc, List.singleton_append]
  have hslices := h.slices
  have hline := h.line_eq_consumed
  rw [hwhole] at hslices
  rw [hcons] at hline
  have htoken : t.kind ≠ .newline :=
    hslices.kind_ne_newline (List.mem_append_right _ List.mem_cons_self) htext hx hy
  have hpiece : (t.cut x y).1.kind ≠ .newline := by
    intro hk
    have hxn : x = ['\n'] := Text.classify_eq_newline.1 hk
    refine hhead (Text.newline_mem_of_sameLetters hsame ?_)
    show '\n' ∈ x
    rw [hxn]
    exact List.mem_singleton_self _
  constructor
  case index_le => exact index_le_length _
  case slices =>
    rw [whole, List.reverse_cons, List.append_assoc, List.singleton_append]
    exact hslices.cut htext hx hy
  case line_eq =>
    rw [take_index, List.countP_reverse]
    show c.line = 1 + ((t.cut x y).1 :: before).countP _
    rw [hline, List.countP_cons_of_neg (by simpa using htoken),
      List.countP_cons_of_neg (by simpa using hpiece)]

theorem Faithful.breakOff (h : c.Faithful text) (hhead : '\n' ∉ head) :
    (c.breakOff head).Faithful text := by
  rw [Cursor.breakOff]
  cases hb : c.breakOff? head with
  | none => exact h
  | some c' => exact h.breakOff? hhead hb

theorem run_expect (c : Cursor) (due : Expectation) : c.run (.expect due) = c.pass := by
  rw [run]
  split
  · next h => exact (expect_eq_ok h).2
  · rfl

/-- Every call leaves the tokens slices of the text. -/
theorem Faithful.run (h : c.Faithful text) (call : Call)
    (hcall : ∀ head, call = .breakOff head → '\n' ∉ head) : (c.run call).Faithful text := by
  cases call with
  | next => exact h.pass
  | nextAny => exact h.advance 1
  | expect due =>
    rw [run_expect]
    exact h.pass
  | peekNth n => exact h
  | peekAny => exact h
  | breakOff head => exact h.breakOff (hcall head rfl)

/-! ## 4. Any number of calls -/

theorem Faithful.runAll (h : c.Faithful text) {calls : List Call}
    (hcalls : ∀ head, .breakOff head ∈ calls → '\n' ∉ head) : (c.runAll calls).Faithful text := by
  induction calls generalizing c with
  | nil => exact h
  | cons call calls ih =>
    have hfirst : (c.run call).Faithful text :=
      h.run call fun head he => hcalls head (he ▸ List.mem_cons_self)
    exact ih hfirst fun head hm => hcalls head (List.mem_cons_of_mem _ hm)

/-- The tokens of a text cover it faithfully, whatever is called on a cursor in them: each is what
the text holds at its span and has the kind of its text, the spans are not empty and follow each
other, no text of a token is lost, and the line is told by the line feeds consumed. A cut that can
be made leaves the two pieces on the two sides of the cursor; one that cannot be made leaves the
cursor as it was. -/
theorem faithful_after_calls (text : Text) (calls : List Call)
    (hcalls : ∀ head, .breakOff head ∈ calls → '\n' ∉ head) :
    ((start (tokenize text) (Text.byteLength text)).runAll calls).Faithful text ∧
      ∀ (c : Cursor) (head : Text),
        (∀ c', c.breakOff? head = some c' ↔ c.IsCut head c') ∧
        (∀ c', c.breakOff? head = some c' → c.breakOff head = c') ∧
        (c.breakOff? head = none → c.breakOff head = c) := by
  refine ⟨(faithful_start text).runAll hcalls, fun c head => ⟨fun c' => breakOff?_eq_some_iff,
    fun c' h => ?_, fun h => ?_⟩⟩
  · rw [breakOff, h, Option.getD_some]
  · rw [breakOff, h, Option.getD_none]

/-- A keyword is cut off the variable glued to it, in whatever letter case. Nothing is cut inside
the character behind the question mark, nor off a line feed. -/
theorem faithful_after_calls_select :
    let text := "select?é\nASK".toList
    let calls : List Call := [.next, .breakOff "SELECT".toList, .peekNth 0, .expect .projection,
      .breakOff "?e".toList, .nextAny, .breakOff "n".toList]
    let c := (start (tokenize text) (Text.byteLength text)).runAll calls
    (∀ head, .breakOff head ∈ calls → '\n' ∉ head) ∧ c.Faithful text ∧ c.line = 2 ∧
      c.whole.map Token.text = ["select".toList, "?é".toList, ['\n'], "ASK".toList] := by
  intro text calls c
  have hcalls : ∀ head, .breakOff head ∈ calls → '\n' ∉ head := by
    intro head h
    simp only [calls, List.mem_cons, Call.breakOff.injEq, reduceCtorEq, false_or, or_false,
      List.not_mem_nil] at h
    rcases h with rfl | rfl | rfl
    · decide
    · decide
    · decide
  refine ⟨hcalls, (faithful_after_calls text calls hcalls).1, ?_, ?_⟩
  · decide +kernel
  · decide +kernel

end SparqlTree.Cursor
