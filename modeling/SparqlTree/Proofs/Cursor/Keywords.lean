import SparqlTree.Proofs.Cursor.Lookahead
import SparqlTree.Proofs.Cursor.Stream

/-!
# Keywords before a cursor

A keyword is looked up in capitals, compared letter by letter, or found at the head of a token by a
cut at a byte position. All three know the same spellings: the capitals of the keyword, any of them
made small (`Text.Recased`). A cursor that consumes a keyword at the head of a token leaves the rest
of the token upcoming, and a cursor that finds none there does not move (`keywords_agree`).
-/

namespace SparqlTree

open Text (byteLength)

namespace Text

/-- The first text is the second with some of the letters A to Z made small. -/
inductive Recased : Text → Text → Prop
  | nil : Recased [] []
  | keep (c : Char) {w v : Text} : Recased w v → Recased (c :: w) (c :: v)
  | small {i : Nat} (hi : i < 26) {w v : Text} : Recased w v →
      Recased (Char.ofNat ('a'.toNat + i) :: w) (Char.ofNat ('A'.toNat + i) :: v)

end Text

/-- What becomes of a token of which the first `n` bytes are taken: the piece that was taken, and
the rest of the token as one token, if there is a rest. -/
inductive Token.Parted (n : Nat) (t : Token) : Token → List Token → Prop
  | whole : byteLength t.text = n → Parted n t t []
  | cut {front back : Token} : t.splitAt? n = some (front, back) → Parted n t front [back]

namespace Cursor

/-- The next token that is no line break is `t`. The line breaks before it are `breaks`, and the
tokens behind it are `after`. -/
structure NextIs (c : Cursor) (breaks : List Token) (t : Token) (after : List Token) : Prop where
  upcoming_eq : c.upcoming = breaks ++ t :: after
  isBreak : ∀ b ∈ breaks, b.isLineBreak = true
  noBreak : t.isLineBreak = false

/-- The cursor behind some line breaks and one more token, with other tokens before it. -/
def beyond (c : Cursor) (breaks : List Token) (last : Token) (upcoming : List Token) : Cursor :=
  { c with
    consumed := last :: (breaks.reverse ++ c.consumed)
    upcoming
    line := c.line + breaks.countP (·.kind == .newline) }

end Cursor

/-! ## 1. Letter case -/

namespace Text

variable {v w : Text}

theorem toUpper_letter {i : Nat} (hi : i < 26) :
    (Char.ofNat ('a'.toNat + i)).toUpper = Char.ofNat ('A'.toNat + i) ∧
      (Char.ofNat ('A'.toNat + i)).toUpper = Char.ofNat ('A'.toNat + i) := by
  revert i
  decide

theorem upper_eq_of_recased (h : Recased w v) : upper w = upper v := by
  induction h with
  | nil => rfl
  | keep c _ ih => exact congrArg (c.toUpper :: ·) ih
  | small hi _ ih =>
    obtain ⟨hsmall, hcapital⟩ := toUpper_letter hi
    exact List.cons_eq_cons.2 ⟨hsmall.trans hcapital.symm, ih⟩

theorem recased_of_upper_eq (hv : upper v = v) (h : upper w = v) : Recased w v := by
  induction v generalizing w with
  | nil =>
    obtain rfl := List.map_eq_nil_iff.1 h
    exact .nil
  | cons d v ih =>
    obtain ⟨c, w, rfl, hc, hw⟩ := List.map_eq_cons_iff.1 h
    have hrest := ih (List.cons_eq_cons.1 hv).2 hw
    -- A character that becomes a capital was that capital or the small letter.
    rcases toUpper_cases c with hsame | ⟨i, hi, rfl⟩
    · obtain rfl : c = d := hsame.symm.trans hc
      exact .keep c hrest
    · obtain rfl : Char.ofNat ('A'.toNat + i) = d := (toUpper_letter hi).1.symm.trans hc
      exact .small hi hrest

/-- The comparison without regard to letter case, for a text in capitals. -/
theorem sameLetters_iff_recased (hv : upper v = v) : sameLetters w v = true ↔ Recased w v := by
  rw [sameLetters_iff, hv]
  exact ⟨recased_of_upper_eq hv, fun h => (upper_eq_of_recased h).trans hv⟩

end Text

/-! ## 2. Keywords -/

namespace Keyword

variable {k : Keyword} {s : Text}

theorem spells_iff : k.spells s = true ↔ Text.Recased s k.name :=
  Text.sameLetters_iff_recased k.upper_name

/-- A keyword stands at the head of a text if some beginning of the text spells it, and the text
ends there or goes on with a character that may be glued to a keyword. -/
theorem leads_iff_append : k.leads s = true ↔
    ∃ w rest, s = w ++ rest ∧ k.spells w = true ∧ rest.head?.all isGlue = true := by
  rw [leads, Bool.and_eq_true]
  constructor
  · rintro ⟨hhead, hglue⟩
    exact ⟨_, _, (List.take_append_drop k.name.length s).symm, hhead, hglue⟩
  · rintro ⟨w, rest, rfl, hw, hglue⟩
    have hlen : w.length = k.name.length := Text.length_eq_of_sameLetters hw
    rw [List.take_left' hlen, List.drop_left' hlen]
    exact ⟨hw, hglue⟩

/-- The beginning that spells the keyword has as many bytes as its name, so that it is found by a
cut at a byte position. -/
theorem leads_iff_splitBytes? : k.leads s = true ↔
    ∃ w rest, Text.splitBytes? (byteLength k.name) s = some (w, rest) ∧ k.spells w = true ∧
      rest.head?.all isGlue = true := by
  rw [leads_iff_append]
  constructor
  · rintro ⟨w, rest, rfl, hw, hglue⟩
    refine ⟨w, rest, ?_, hw, hglue⟩
    rw [← Text.byteLength_eq_of_sameLetters hw]
    exact Text.splitBytes?_append w rest
  · rintro ⟨w, rest, hcut, hw, hglue⟩
    exact ⟨w, rest, (Text.splitBytes?_eq_some hcut).1, hw, hglue⟩

theorem glued_iff {rest : Text} : rest.head?.all isGlue = true ↔
    ∀ ch ∈ rest.head?, ch = '<' ∨ ch = '\x7b' ∨ ch = '(' := by
  rw [Option.all_eq_true]
  simp only [isGlue, Bool.or_eq_true, beq_iff_eq, or_assoc]
  rfl

theorem leads_iff : k.leads s = true ↔
    ∃ w rest, s = w ++ rest ∧ Text.Recased w k.name ∧
      ∀ ch ∈ rest.head?, ch = '<' ∨ ch = '\x7b' ∨ ch = '(' := by
  rw [leads_iff_append]
  simp only [spells_iff, glued_iff]

end Keyword

/-! ## 3. Tokens in two pieces -/

/-- The piece that was taken holds the first bytes of the token, and what is left holds the rest. -/
theorem Token.Parted.splitBytes? {n : Nat} {t front : Token} {rest : List Token}
    (h : t.Parted n front rest) :
    Text.splitBytes? n t.text = some (front.text, rest.flatMap Token.text) := by
  cases h with
  | whole hlen =>
    have hcut := Text.splitBytes?_append t.text []
    rwa [List.append_nil, hlen] at hcut
  | @cut _ back hcut =>
    obtain ⟨head, tail, htext, rfl, -, -, hpieces⟩ := Token.splitAt?_eq_some.1 hcut
    obtain ⟨rfl, rfl⟩ := Prod.mk.inj hpieces
    rw [htext, Text.splitBytes?_append, List.flatMap_singleton]

/-! ## 4. Cursors -/

namespace Cursor

variable {c : Cursor} {k : Keyword} {t : Token} {breaks after : List Token}

theorem nextIs_of_peek (h : c.peek = some t) :
    c.NextIs (c.upcoming.takeWhile Token.isLineBreak) t c.pass.upcoming where
  upcoming_eq := upcoming_eq_of_peek h
  isBreak := List.all_eq_true.1 List.all_takeWhile
  noBreak := noBreak_of_peek h

theorem NextIs.takeWhile_eq (h : c.NextIs breaks t after) :
    c.upcoming.takeWhile Token.isLineBreak = breaks := by
  rw [h.upcoming_eq, List.takeWhile_append_of_pos h.isBreak,
    List.takeWhile_cons_of_neg (by rw [h.noBreak]; decide), List.append_nil]

theorem NextIs.peek_eq (h : c.NextIs breaks t after) : c.peek = some t := by
  rw [peek_eq_head?_skipBreaks, upcoming_skipBreaks, h.upcoming_eq,
    List.dropWhile_append_of_pos h.isBreak,
    List.dropWhile_cons_of_neg (by rw [h.noBreak]; decide), List.head?_cons]

theorem exists_eatGlued?_iff :
    (∃ c', c.eatGlued? k = some c') ↔
      ∃ breaks t after, c.NextIs breaks t after ∧ k.leads t.text = true := by
  rw [← Option.isSome_iff_exists, eatGlued?, Option.isSome_ite, atGlued_eq_true]
  constructor
  · rintro ⟨t, hpeek, hleads⟩
    exact ⟨_, t, _, nextIs_of_peek hpeek, hleads⟩
  · rintro ⟨_, t, _, hnext, hleads⟩
    exact ⟨t, hnext.peek_eq, hleads⟩

/-- Stepping over a token consumes the line breaks before it, and these tell the line. -/
theorem NextIs.pass_eq (h : c.NextIs breaks t after) : c.pass = c.beyond breaks t after := by
  have hskip : c.skipBreaks =
      { c with
        consumed := breaks.reverse ++ c.consumed
        upcoming := t :: after
        line := c.line + breaks.countP (·.kind == .newline) } := by
    rw [skipBreaks, h.takeWhile_eq, advance, h.upcoming_eq, List.take_left, List.drop_left]
  -- The token is no line feed, so it adds none to those before it.
  have hkind : t.kind ≠ .newline := by
    intro hk
    have hno := h.noBreak
    rw [Token.isLineBreak, hk] at hno
    exact absurd hno (by decide)
  have hcount : [t].countP (·.kind == .newline) = 0 :=
    List.countP_eq_zero.2 fun u hu => by simpa [List.mem_singleton.1 hu] using hkind
  rw [pass, hskip, beyond, advance]
  simp only [List.take_succ_cons, List.take_zero, hcount, Nat.add_zero]
  rfl

/-- Where a keyword stands at the head of the next token it is consumed, and what is left of the
token comes next. -/
theorem NextIs.eatGlued?_eq (h : c.NextIs breaks t after) (hk : k.leads t.text = true) :
    ∃ front rest, t.Parted (byteLength k.name) front rest ∧
      c.eatGlued? k = some (c.beyond breaks front (rest ++ after)) := by
  have hat : c.atGlued k = true := atGlued_eq_true.2 ⟨t, h.peek_eq, hk⟩
  rw [eatGlued?, if_pos hat, breakOff, h.pass_eq]
  cases hb : (c.beyond breaks t after).breakOff? k.name with
  | none =>
    -- The token ends where the keyword does.
    have hspells := spells_of_breakOff?_eq_none rfl hk hb
    exact ⟨t, [], .whole (Text.byteLength_eq_of_sameLetters hspells), rfl⟩
  | some c₁ =>
    obtain ⟨u, before, front, back, hcons, hcut, -, rfl⟩ := breakOff?_eq_some_iff.1 hb
    obtain ⟨rfl, rfl⟩ := List.cons_eq_cons.1 hcons
    exact ⟨front, [back], .cut hcut, rfl⟩

/-- All that recognises a keyword agrees. It is looked up under the texts that spell it in some
letter case, and found at the head of the texts that begin with such a text and end there or go on
with one of three characters; the cut at a byte position finds the same. A cursor consumes it just
if it stands at the head of the next token that is no line break: then the first bytes of that token
were consumed last, and the rest of the token comes next, if there is a rest, and what stood behind
it. If it does not stand there, the cursor stays where it is. -/
theorem keywords_agree :
    (∀ (s : Text) (k : Keyword),
      (Keyword.ofText? s = some k ↔ k.spells s = true) ∧
      (k.spells s = true ↔ Text.Recased s k.name) ∧
      (k.leads s = true ↔
        ∃ w rest, s = w ++ rest ∧ Text.Recased w k.name ∧
          ∀ ch ∈ rest.head?, ch = '<' ∨ ch = '\x7b' ∨ ch = '(') ∧
      (k.leads s = true ↔
        ∃ w rest, Text.splitBytes? (byteLength k.name) s = some (w, rest) ∧ k.spells w = true ∧
          rest.head?.all Keyword.isGlue = true)) ∧
    ∀ (c : Cursor) (k : Keyword),
      ((∃ c', c.eatGlued? k = some c') ↔
        ∃ breaks t after, c.NextIs breaks t after ∧ k.leads t.text = true) ∧
      (∀ breaks t after c', c.NextIs breaks t after → c.eatGlued? k = some c' →
        ∃ front rest, t.Parted (byteLength k.name) front rest ∧
          Text.splitBytes? (byteLength k.name) t.text =
            some (front.text, rest.flatMap Token.text) ∧
          c' = c.beyond breaks front (rest ++ after)) ∧
      (c.eatGlued? k = none → c.skipGlued k = c) := by
  refine ⟨fun s k => ⟨Keyword.ofText?_eq_some, Keyword.spells_iff, Keyword.leads_iff,
    Keyword.leads_iff_splitBytes?⟩, fun c k => ⟨exists_eatGlued?_iff, ?_, ?_⟩⟩
  · intro breaks t after c' hnext heat
    obtain ⟨breaks', t', after', hnext', hleads⟩ := exists_eatGlued?_iff.1 ⟨c', heat⟩
    obtain rfl : t' = t := Option.some.inj (hnext'.peek_eq.symm.trans hnext.peek_eq)
    obtain ⟨front, rest, hparted, heq⟩ := hnext.eatGlued?_eq hleads
    exact ⟨front, rest, hparted, hparted.splitBytes?, Option.some.inj (heat.symm.trans heq)⟩
  · intro hnone
    rw [skipGlued, hnone, Option.getD_none]

/-- Behind a line break OPTIONAL is taken off the parenthesis glued to it. GRAPH is not taken off
the colon of a name. -/
theorem keywords_agree_optional :
    let c := start (tokenize "\nOptional(é graph:x".toList) 20
    let t : Token := ⟨.word, "Optional(é".toList, ⟨1, 12⟩⟩
    c.NextIs [⟨.newline, ['\n'], ⟨0, 1⟩⟩] t [⟨.word, "graph:x".toList, ⟨13, 20⟩⟩] ∧
      (∃ c', c.eatGlued? .optional = some c' ∧ c'.line = 2 ∧
        c'.upcoming.map Token.text = ["(é".toList, "graph:x".toList]) ∧
      c.skipGlued .graph = c := by
  intro c t
  have hnext : c.NextIs [⟨.newline, ['\n'], ⟨0, 1⟩⟩] t [⟨.word, "graph:x".toList, ⟨13, 20⟩⟩] :=
    ⟨by decide +kernel, by decide, by decide⟩
  obtain ⟨hsome, hgone, -⟩ := keywords_agree.2 c .optional
  obtain ⟨-, -, hstays⟩ := keywords_agree.2 c .graph
  obtain ⟨c', heat⟩ := hsome.2 ⟨_, t, _, hnext, by decide⟩
  obtain ⟨front, rest, hparted, hcut, rfl⟩ := hgone _ _ _ _ hnext heat
  have hfound : Text.splitBytes? (byteLength Keyword.optional.name) t.text =
      some ("Optional".toList, "(é".toList) := by decide +kernel
  obtain ⟨-, hrest⟩ := Prod.mk.injEq .. ▸ Option.some.inj (hcut.symm.trans hfound)
  refine ⟨hnext, ⟨_, heat, rfl, ?_⟩, hstays (by decide +kernel)⟩
  cases hparted with
  | whole => nomatch hrest
  | cut =>
    rw [List.flatMap_singleton] at hrest
    show [_, _] = _
    rw [hrest]

end Cursor

end SparqlTree
