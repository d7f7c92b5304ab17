import Mathlib.Data.List.DropRight
import SparqlTree.Proofs.Query.Simulation

/-!
# Errors of a text

A text that is refused is refused at one of its tokens or at its end. The tokens are those of the
text, but that some have been cut on the way; the token at which the error points is the last one
consumed, or the next one that is no line break, and what the error quotes are the tokens consumed
last.
-/

namespace SparqlTree

/-! ## 1. Cursors of a text -/

theorem Token.isLineBreak_of_newline {t : Token} (h : t.kind = .newline) :
    t.isLineBreak = true := by
  rw [isLineBreak, h]
  rfl

namespace Cursor

/-- The cursor stands somewhere in the tokens of a text, some of which may have been cut. -/
structure Along (text : Text) (window : Nat) (c : Cursor) : Prop where
  lexed : c.Lexed
  recut : Recut (tokenize text) c.whole
  line_eq : c.line = 1 + c.consumed.countP (·.kind == .newline)
  stop_eq : c.stop = Text.byteLength text
  window_eq : c.window = window

/-- No line break was consumed after the last token that is none. -/
def Settled (c : Cursor) : Prop := ∀ t ∈ c.consumed.head?, t.isLineBreak = false

variable {text : Text} {window : Nat} {c : Cursor}

theorem along_cursor (cfg : Config) (text : Text) :
    (Query.cursor cfg text).Along text cfg.contextTokens where
  lexed := lexed_start text (Text.byteLength text)
  recut := .refl
  line_eq := rfl
  stop_eq := rfl
  window_eq := rfl

theorem Along.advance (h : c.Along text window) (n : Nat) : (c.advance n).Along text window where
  lexed := h.lexed.advance n
  recut := by
    rw [whole_advance]
    exact h.recut
  line_eq := line_advance h.line_eq n
  stop_eq := h.stop_eq
  window_eq := h.window_eq

theorem Along.pass (h : c.Along text window) : c.pass.Along text window := (h.advance _).advance 1

theorem settled_pass {t : Token} (hp : c.peek = some t) : c.pass.Settled := by
  intro u hu
  rw [consumed_pass_of_peek hp] at hu
  obtain rfl := Option.some.inj hu
  exact noBreak_of_peek hp

theorem countP_newline_cons {t : Token} (h : t.isLineBreak = false) (ts : List Token) :
    (t :: ts).countP (·.kind == .newline) = ts.countP (·.kind == .newline) := by
  refine List.countP_cons_of_neg fun hk => ?_
  rw [Token.isLineBreak_of_newline (beq_iff_eq.1 hk)] at h
  nomatch h

/-- A token that begins with a full stop or a keyword is a word. -/
theorem word_of_head (h : c.Lexed) {t : Token} (hp : c.peek = some t) {head : Text}
    (hhead : IsHead t head) (hsame : Text.sameLetters (t.text.take head.length) head = true) :
    ∀ ch ∈ t.text, Text.continuesWord ch = true := by
  refine h.word_of_peek hp fun ch hch => ?_
  have hf := Text.forall_of_sameLetters Text.continuesWord_toUpper hsame hhead.word.2
  obtain ⟨rest, htext⟩ := List.head?_eq_some_iff.1 hch
  apply hf ch
  rw [htext, ← Nat.succ_pred_eq_of_pos (List.length_pos_iff.2 hhead.word.1),
    Nat.succ_eq_add_one, List.take_succ_cons]
  exact List.mem_cons_self

/-- Where a full stop or a keyword was cut off the token consumed last, the pieces stand in its
place. -/
theorem Along.breakOff (h : c.Along text window) {t : Token} (hp : c.peek = some t) {head : Text}
    (hhead : IsHead t head) :
    (c.pass.breakOff head).Along text window ∧ (c.pass.breakOff head).Settled := by
  have hlexed := h.lexed.pass.breakOff hhead.word.2
  have hrecut := h.pass.recut
  have hline := h.pass.line_eq
  rw [whole, consumed_pass_of_peek hp, List.reverse_cons, List.append_assoc] at hrecut
  rw [consumed_pass_of_peek hp] at hline
  rw [breakOff_eq (consumed_pass_of_peek hp)] at hlexed ⊢
  split
  · next hcut =>
    rw [if_pos hcut] at hlexed
    obtain ⟨-, hlt, hsame⟩ := hcut
    have htext : t.text = t.text.take head.length ++ t.text.drop head.length :=
      (List.take_append_drop _ _).symm
    have hword := word_of_head h.lexed hp hhead hsame
    have hback : t.text.drop head.length ≠ [] := by
      rw [← List.length_pos_iff, List.length_drop]
      omega
    obtain ⟨htb, hfb, -⟩ := hrecut.cut_noBreak htext hword
    refine ⟨⟨hlexed, ?_, ?_, h.stop_eq, h.window_eq⟩, ?_⟩
    · rw [whole, List.reverse_cons, List.append_assoc]
      exact hrecut.cut htext hword hhead hsame hback
    · rw [countP_newline_cons htb] at hline
      rw [countP_newline_cons hfb]
      exact hline
    · intro u hu
      obtain rfl := Option.some.inj hu
      exact hfb
  · exact ⟨h.pass, settled_pass hp⟩

end Cursor

/-! ## 2. Errors of a text -/

/-- Where an error points, in tokens of which `us` were consumed and `vs` come next: at the token
consumed last, at the next one that is no line break if it only was looked at, or at the end. -/
inductive PointsAt (stop : Nat) (us vs : List Token) : Bool → Text → Span → Prop
  | last {us' : List Token} {t : Token} (hus : us = us' ++ [t]) (ht : t.isLineBreak = false) :
    PointsAt stop us vs false t.text t.span
  | next {bs vs' : List Token} {t : Token} (hvs : vs = bs ++ t :: vs')
      (hbs : ∀ b ∈ bs, b.isLineBreak = true) (ht : t.isLineBreak = false) :
    PointsAt stop us vs true t.text t.span
  | stop {ahead : Bool} (hvs : ∀ v ∈ vs, v.isLineBreak = true) (hahead : ahead = false → vs = []) :
    PointsAt stop us vs ahead ParseError.endOfInput ⟨stop, stop⟩

/-- The error was raised in reading a text, after the tokens `us` and before `vs`. -/
structure ParseError.Raised (text : Text) (window : Nat) (e : ParseError) (us vs : List Token) :
    Prop where
  recut : Recut (tokenize text) (us ++ vs)
  line_eq : e.line = 1 + us.countP (·.kind == .newline)
  near_eq : e.near =
    Text.spaced (((us.filter (!·.isLineBreak)).rtake window).map Token.text)
  settled : e.expected.looksAhead = true → ∀ u ∈ us.getLast?, u.isLineBreak = false
  points : PointsAt (Text.byteLength text) us vs e.expected.looksAhead e.found e.span

theorem Token.display_eq {t : Token} (h : t.isLineBreak = false) : t.display = t.text := by
  rw [display]
  split
  · next hk =>
    rw [isLineBreak_of_newline hk] at h
    cases h
  · next hk =>
    rw [isLineBreak, hk] at h
    cases h
  · rfl

namespace Cursor

variable {text : Text} {window : Nat} {c : Cursor}

theorem Along.previous_eq (h : c.Along text window) : c.previous c.window = Text.spaced
    (((c.consumed.reverse.filter (!·.isLineBreak)).rtake window).map Token.text) := by
  rw [previous, h.window_eq, List.rtake_eq_reverse_take_reverse, List.filter_reverse,
    List.reverse_reverse]

/-- An error that a cursor of the text raises. -/
theorem Along.raised (h : c.Along text window) {e : ParseError} (hline : e.line = c.line)
    (hnear : e.near = c.previous c.window) (hsettled : e.expected.looksAhead = true → c.Settled)
    (hpoints : PointsAt (Text.byteLength text) c.consumed.reverse c.upcoming
      e.expected.looksAhead e.found e.span) :
    e.Raised text window c.consumed.reverse c.upcoming where
  recut := h.recut
  line_eq := by rw [hline, h.line_eq, List.countP_reverse]
  near_eq := hnear.trans h.previous_eq
  settled hahead u hu := by
    rw [List.getLast?_reverse] at hu
    exact hsettled hahead u hu
  points := hpoints

theorem Along.errorFound (h : c.Along text window) (hs : c.Settled) {x : Expectation}
    (hx : x.looksAhead = true) :
    (c.errorFound x).Raised text window c.consumed.reverse c.upcoming := by
  rw [Cursor.errorFound]
  cases hp : c.peek with
  | none =>
    refine h.raised rfl rfl (fun _ => hs) ?_
    show PointsAt _ _ _ x.looksAhead ParseError.endOfInput ⟨c.stop, c.stop⟩
    rw [h.stop_eq]
    exact .stop (isLineBreak_of_peek_eq_none hp) fun hno => by rw [hx] at hno; nomatch hno
  | some t =>
    refine h.raised rfl rfl (fun _ => hs) ?_
    show PointsAt _ _ _ x.looksAhead t.display t.span
    rw [hx, Token.display_eq (noBreak_of_peek hp)]
    exact .next (upcoming_eq_of_peek hp) (fun b hb => List.mem_takeWhile_imp hb)
      (noBreak_of_peek hp)

theorem Along.errorAt_pass (h : c.Along text window) {t : Token} (hp : c.peek = some t)
    {x : Expectation} (hx : x.looksAhead = false) :
    (c.pass.errorAt t x).Raised text window c.pass.consumed.reverse c.pass.upcoming := by
  have hb := noBreak_of_peek hp
  refine h.pass.raised rfl rfl (fun hno => ?_) ?_
  · rw [show (c.pass.errorAt t x).expected = x from rfl, hx] at hno
    nomatch hno
  · show PointsAt _ _ _ x.looksAhead t.display t.span
    have hlast : c.pass.consumed.reverse = c.skipBreaks.consumed.reverse ++ [t] := by
      rw [consumed_pass_of_peek hp, List.reverse_cons]
    rw [hx, Token.display_eq hb]
    exact .last hlast hb

/-- The token behind the longest run of others than a closing brace is a closing brace. -/
theorem settled_inside
    (h : (c.upcoming.takeWhile (·.kind != .closeBrace)).length < c.upcoming.length) :
    (c.advance ((c.upcoming.takeWhile (·.kind != .closeBrace)).length + 1)).Settled := by
  have hup := List.takeWhile_append_dropWhile (p := (·.kind != .closeBrace)) (l := c.upcoming)
  have hhead := List.head?_dropWhile_not (·.kind != .closeBrace) c.upcoming
  generalize c.upcoming.takeWhile (·.kind != .closeBrace) = inside at h hup ⊢
  intro t ht
  change t ∈ ((c.upcoming.take (inside.length + 1)).reverse ++ c.consumed).head? at ht
  cases hd : c.upcoming.dropWhile (·.kind != .closeBrace) with
  | nil =>
    rw [← hup, hd, List.append_nil] at h
    exact absurd h (Nat.lt_irrefl _)
  | cons b rest =>
    rw [hd] at hhead
    rw [← hup, hd, List.take_length_add_append] at ht
    have hb : b.kind = .closeBrace := by simpa using hhead
    obtain rfl : b = t := by simpa using ht
    rw [Token.isLineBreak, hb]
    rfl

theorem Along.errorAtEnd_drain (h : c.Along text window) {x : Expectation}
    (hx : x.looksAhead = false) :
    (c.drain.errorAtEnd x).Raised text window c.drain.consumed.reverse c.drain.upcoming := by
  have hnil : c.drain.upcoming = [] := List.drop_length
  refine (h.advance _).raised rfl rfl (fun hno => ?_) ?_
  · rw [show (c.drain.errorAtEnd x).expected = x from rfl, hx] at hno
    nomatch hno
  · show PointsAt _ _ c.drain.upcoming x.looksAhead ParseError.endOfInput ⟨c.stop, c.stop⟩
    rw [h.stop_eq, hnil]
    exact .stop (fun v hv => nomatch hv) fun _ => rfl

end Cursor

namespace ParseError

variable {text : Text} {window : Nat} {e : ParseError} {us vs : List Token}

theorem Raised.token (h : e.Raised text window us vs) :
    e.found = endOfInput ∧ e.span = ⟨Text.byteLength text, Text.byteLength text⟩ ∨
      ∃ t ∈ us ++ vs, e.found = t.text ∧ e.span = t.span := by
  have hpoints := h.points
  generalize e.expected.looksAhead = ahead at hpoints
  generalize e.found = found at hpoints ⊢
  generalize e.span = span at hpoints ⊢
  cases hpoints with
  | @last us' t hus ht => exact .inr ⟨t, by simp [hus], rfl, rfl⟩
  | @next bs vs' t hvs hbs ht => exact .inr ⟨t, by simp [hvs], rfl, rfl⟩
  | stop => exact .inl ⟨rfl, rfl⟩

/-- The span of an error is the end of the text, or holds the text that was found. -/
theorem Raised.place (h : e.Raised text window us vs) :
    e.found = endOfInput ∧ e.span = ⟨Text.byteLength text, Text.byteLength text⟩ ∨
      e.span.first < e.span.last ∧ e.span.last ≤ Text.byteLength text ∧
        ∃ before after, text = before ++ e.found ++ after ∧
          e.span = ⟨Text.byteLength before, Text.byteLength (before ++ e.found)⟩ := by
  rcases h.token with hend | ⟨t, ht, hfound, hspan⟩
  · exact .inl hend
  · obtain ⟨hlt, hle⟩ := h.recut.first_lt_last ht
    obtain ⟨-, before, after, hat⟩ := h.recut.placed t ht
    have hlast := hat.last
    rw [← Text.byteLength_append] at hlast
    rw [hfound, hspan]
    refine .inr ⟨hlt, hle, before, after, hat.text, ?_⟩
    rw [← hat.first, ← hlast]

end ParseError

/-! ## 3. Readings of a text -/

/-- Each cursor in the reading of a text is one of its cursors. -/
def Simulation.along (text : Text) (window : Nat) : Simulation where
  Cursors c d := c = d ∧ c.Along text window ∧ c.Settled
  Errors e f := e = f
  kept x := x
  peekNth := by
    rintro c _ ⟨rfl, -⟩ n
    rfl
  pass := by
    rintro c _ t ⟨rfl, h, -⟩ hp
    exact ⟨rfl, h.pass, Cursor.settled_pass hp⟩
  cut := by
    rintro c _ t head ⟨rfl, h, -⟩ hp hhead
    exact ⟨rfl, h.breakOff hp hhead⟩
  inside := by
    rintro c _ ⟨rfl, h, -⟩
    rw [Head.readInside]
    dsimp only
    split
    · next hlt =>
      exact .ok ⟨rfl, rfl, h.advance _, Cursor.settled_inside hlt⟩
    · exact .error rfl
  ahead := by
    rintro c _ x ⟨rfl, -⟩ -
    rfl
  taken := by
    rintro c _ t u x ⟨rfl, -⟩ ht hu -
    obtain rfl := Option.some.inj (ht.symm.trans hu)
    rfl
  ended := by
    rintro c _ x ⟨rfl, -⟩ -
    rfl
  helped := by
    rintro e _ rfl help
    rfl
  kept_breaks := by
    rintro c _ x y ⟨rfl, -⟩ rfl v
    rfl
  kept_stop h := congrArg (· ++ [' ', '.']) h
  kept_trim h := congrArg Text.trim h
  trim_eq_nil h := by rw [h]
  variableNames_kept _ := rfl

/-- The cursor is one that is reached in reading the text. -/
abbrev Cursor.Stands (text : Text) (window : Nat) (c : Cursor) : Prop :=
  (Simulation.along text window).Cursors c c

namespace Cursor.Stands

variable {text : Text} {window : Nat} {c : Cursor}

theorem along (h : c.Stands text window) : c.Along text window := h.2.1

theorem settled (h : c.Stands text window) : c.Settled := h.2.2

theorem start (cfg : Config) (text : Text) :
    (Query.cursor cfg text).Stands text cfg.contextTokens :=
  ⟨rfl, along_cursor cfg text, fun _ ht => nomatch ht⟩

/-- A step leads from one place in a text to another. -/
theorem step {cfg : Config} {d d' : Draft} {c' : Cursor} (h : c.Stands text window)
    (hstep : Draft.step cfg d c = .ok (some (d', c'))) : c'.Stands text window := by
  have hrefl : (Simulation.along text window).Drafts d d := ⟨rfl, rfl, rfl, rfl, rfl, rfl, rfl⟩
  have hrules : cfg.SameRules cfg := ⟨rfl, rfl⟩
  cases (Simulation.step hrules hrefl h).rel hstep hstep with
  | some hr => exact hr.2

end Cursor.Stands

end SparqlTree
