import SparqlTree.Proofs.Query.Failure
import SparqlTree.Proofs.Query.Fork
import SparqlTree.Proofs.Token.Joining

/-!
# Refusals do not depend on what follows

A text that is refused at one of its tokens is refused with the same error if everything behind that
token is replaced by a line break and any other text (`Query.parse_front_eq_error`). The place of
the error has to be the end of a token of the text for this: of a word that was cut, only what is
left is ever pointed at.
-/

namespace SparqlTree

/-! ## 1. Errors at the end of a token -/

/-- The token ends where one of the text does. It is that token, or what is left of it once its head
was cut off; only a complete token is cut. -/
def Token.Ends (text : Text) (u : Token) : Prop :=
  ∃ t ∈ tokenize text, u.span.last = t.span.last ∧ (u = t ∨ Text.IsToken t.text)

/-- The error points at such a token, or at the end of the text. -/
def ParseError.AtEnd (text : Text) (e : ParseError) : Prop :=
  e.found = endOfInput ∨ ∃ u : Token, u.Ends text ∧ e.found = u.text ∧ e.span = u.span

namespace Cursor

/-- Each token that comes next ends where one of the text does. -/
structure Uncut (text : Text) (c : Cursor) : Prop where
  lexed : c.Lexed
  ends : ∀ u ∈ c.upcoming, u.Ends text

variable {text : Text} {c : Cursor} {t : Token}

theorem uncut_cursor (cfg : Config) (text : Text) : (Query.cursor cfg text).Uncut text where
  lexed := lexed_start text (Text.byteLength text)
  ends u hu := ⟨u, hu, rfl, .inl rfl⟩

namespace Uncut

variable (h : c.Uncut text)

include h

theorem advance (n : Nat) : (c.advance n).Uncut text where
  lexed := h.lexed.advance n
  ends u hu := h.ends u (List.mem_of_mem_drop hu)

theorem pass : c.pass.Uncut text := (h.advance _).advance 1

theorem ends_of_peek (hp : c.peek = some t) : t.Ends text := by
  apply h.ends
  rw [upcoming_eq_of_peek hp]
  simp

theorem breakOff (hp : c.peek = some t) {head : Text} (hhead : IsHead t head) :
    (c.pass.breakOff head).Uncut text := by
  refine ⟨h.lexed.pass.breakOff hhead.word.2, ?_⟩
  rw [breakOff_eq (consumed_pass_of_peek hp)]
  split
  · next hcut =>
    -- What is left ends where the token did, and that was a word.
    obtain ⟨-, -, hsame⟩ := hcut
    have hword := word_of_head h.lexed hp hhead hsame
    have hne : t.text ≠ [] := by
      intro hnil
      rw [hnil, List.take_nil] at hsame
      exact hhead.word.1 (List.length_eq_zero_iff.1 (Text.length_eq_of_sameLetters hsame).symm)
    obtain ⟨t₀, ht₀, hlast, heq⟩ := h.ends_of_peek hp
    have htoken : Text.IsToken t₀.text := heq.elim (fun he => he ▸ .word _ hne hword) id
    intro u hu
    rcases List.mem_cons.1 hu with rfl | hu
    · exact ⟨t₀, ht₀, hlast, .inr htoken⟩
    · exact h.pass.ends u hu
  · exact h.pass.ends

theorem errorAt (hp : c.peek = some t) (d : Cursor) (x : Expectation) :
    (d.errorAt t x).AtEnd text :=
  .inr ⟨t, h.ends_of_peek hp, Token.display_eq (noBreak_of_peek hp), rfl⟩

theorem errorFound (x : Expectation) : (c.errorFound x).AtEnd text := by
  rw [Cursor.errorFound]
  cases hp : c.peek with
  | none => exact .inl rfl
  | some t => exact h.errorAt hp c x

end Uncut

end Cursor

/-- In the reading of a text, each error points at the end of one of its tokens. -/
def Simulation.uncut (text : Text) : Simulation where
  __ := Simulation.along text 0
  Cursors c d := c = d ∧ c.Uncut text
  Errors e f := e = f ∧ e.AtEnd text
  peekNth := by
    rintro c _ ⟨rfl, -⟩ n
    rfl
  pass := by
    rintro c _ t ⟨rfl, h⟩ -
    exact ⟨rfl, h.pass⟩
  cut := by
    rintro c _ t head ⟨rfl, h⟩ hp hhead
    exact ⟨rfl, h.breakOff hp hhead⟩
  inside := by
    rintro c _ ⟨rfl, h⟩
    rw [Head.readInside]
    dsimp only
    split
    · exact .ok ⟨rfl, rfl, h.advance _⟩
    · exact .error ⟨rfl, .inl rfl⟩
  ahead := by
    rintro c _ x ⟨rfl, h⟩ -
    exact ⟨rfl, h.errorFound x⟩
  taken := by
    rintro c _ t u x ⟨rfl, h⟩ ht hu -
    obtain rfl := Option.some.inj (ht.symm.trans hu)
    exact ⟨rfl, h.errorAt ht c.pass x⟩
  ended := by
    rintro c _ x ⟨rfl, -⟩ -
    exact ⟨rfl, .inl rfl⟩
  helped := by
    rintro e _ ⟨rfl, h⟩ help
    exact ⟨rfl, h⟩
  kept_breaks := by
    rintro c _ x y ⟨rfl, -⟩ rfl v
    rfl

namespace Query

variable {cfg : Config} {text : Text} {e : ParseError}

theorem atEnd_of_parse (h : parse cfg text = .error e) : e.AtEnd text := by
  have hstart : (Simulation.uncut text).Cursors (cursor cfg text) (cursor cfg text) :=
    ⟨rfl, Cursor.uncut_cursor cfg text⟩
  have hrules : cfg.SameRules cfg := ⟨rfl, rfl⟩
  have hparse := Simulation.parse hrules hstart
  rw [h] at hparse
  cases hparse with
  | error he => exact he.2

/-! ## 2. What stands behind an error -/

/-- Two texts with a common beginning are refused with the same error if one of them is refused
there. -/
theorem parse_eq_error {front s₁ s₂ : Text} (h₁ : Text.Divides front s₁)
    (h₂ : Text.Divides front s₂) (h : parse cfg (front ++ s₁) = .error e)
    (hfound : e.found ≠ ParseError.endOfInput) (hfirst : e.span.first < Text.byteLength front) :
    parse cfg (front ++ s₂) = .error e := by
  have hparse := (Fork.level_behind cfg h₁ h₂).parse
  rw [h] at hparse
  apply hparse.eq_error
  rintro (⟨hend, -⟩ | ⟨t, ht, hspan⟩)
  · exact hfound hend
  · have hlate : Text.byteLength front ≤ t.span.first := ht.1
    rw [← hspan] at hlate
    omega

/-- A text that is refused at one of its tokens is refused with the same error whatever follows that
token on a line of its own, unless the token is a string or an IRI reference that is never
closed. -/
theorem parse_front_eq_error (h : parse cfg text = .error e)
    (hfound : e.found ≠ ParseError.endOfInput) :
    ∃ front back before w, Text.splitBytes? e.span.last text = some (front, back) ∧
      Text.splitBytes? e.span.first front = some (before, w) ∧
      (¬ Text.Unclosed w → ∀ s, parse cfg (front ++ '\n' :: s) = .error e) := by
  obtain ⟨hlt, -, before, after, htext, hspan⟩ :=
    (failsAt_parse cfg text e h).place.resolve_left fun hend => hfound hend.1
  have hlast : Text.splitBytes? e.span.last text = some (before ++ e.found, after) := by
    rw [htext, hspan]
    exact Text.splitBytes?_append _ _
  have hfirst : Text.splitBytes? e.span.first (before ++ e.found) = some (before, e.found) := by
    rw [hspan]
    exact Text.splitBytes?_append _ _
  refine ⟨before ++ e.found, after, before, e.found, hlast, hfirst, fun hclosed s => ?_⟩
  -- The error points at the end of a complete token, and the text may be divided there.
  obtain ⟨u, ⟨t, ht, hut, hu⟩, huf, hus⟩ := (atEnd_of_parse h).resolve_left hfound
  have htoken : Text.IsToken t.text := by
    rcases hu with rfl | htoken
    · refine (Text.isToken_or_isOpen_of_mem ht).resolve_right fun hopen => hclosed ?_
      rw [huf]
      exact hopen.1
    · exact htoken
  obtain ⟨pre, post, htokens⟩ := List.append_of_mem ht
  obtain ⟨front, back, hsplit, -, -, -, hback, hall⟩ := Text.tokenize_split htokens htoken
  rw [← hut, ← hus, hlast] at hsplit
  obtain ⟨rfl, rfl⟩ := Prod.mk.injEq .. ▸ Option.some.inj hsplit
  refine parse_eq_error hback (hall _ fun _ => Text.apart_cons rfl s) (htext ▸ h) hfound ?_
  rw [hspan] at hlt ⊢
  exact hlt

/-- Without the semicolon the template would have its WHERE. -/
theorem parse_front_eq_error_template :
    let text := "INSERT \x7b ?s a ?o \x7d ; WHERE \x7b ?s a ?o \x7d".toList
    let front := "INSERT \x7b ?s a ?o \x7d ;".toList
    ∃ e, parse {} text = .error e ∧ e.found = [';'] ∧ e.span = ⟨19, 20⟩ ∧
      ∀ s, parse {} (front ++ '\n' :: s) = .error e := by
  intro text front
  have h : parse {} text = .error ⟨1, .whereAfterTemplate Operation.insert.name, [';'],
      "\x7b ?s a ?o \x7d".toList, ⟨19, 20⟩, some ParseError.unboundHelp⟩ := by
    decide +kernel
  refine ⟨_, h, rfl, rfl, ?_⟩
  obtain ⟨front', back, before, w, hlast, hfirst, hall⟩ := parse_front_eq_error h (by decide)
  have hsplit : Text.splitBytes? 20 text = some (front, text.drop 20) := by decide +kernel
  obtain ⟨rfl, -⟩ := Prod.mk.injEq .. ▸ Option.some.inj (hlast.symm.trans hsplit)
  have hfound : Text.splitBytes? 19 front = some (front.take 19, [';']) := by decide +kernel
  obtain ⟨-, rfl⟩ := Prod.mk.injEq .. ▸ Option.some.inj (hfirst.symm.trans hfound)
  exact hall fun hopen => by nomatch hopen

end Query

end SparqlTree
