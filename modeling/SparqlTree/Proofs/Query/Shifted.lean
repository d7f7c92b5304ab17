import SparqlTree.Proofs.Query.Simulation
import SparqlTree.Proofs.Token.Joining

/-!
# Reading tokens that stand further on

Tokens are read in the same way wherever they stand: the errors for them point further on too, and
nothing else of what is read depends on their places (`Simulation.shifted`). Nor does it matter for
a clause whether line breaks stand in front of it (`Draft.step_skipBreaks`). So a text that is
continued behind other texts is read there as it is read alone (`Draft.repeatStep_moved`).
-/

namespace SparqlTree

/-- The same refusal for the same token, `n` bytes further on. It may stand in another line, and
behind other tokens. -/
structure ParseError.Moved (n : Nat) (e f : ParseError) : Prop where
  expected : f.expected = e.expected
  found : f.found = e.found
  help : f.help = e.help
  span : f.span = ⟨n + e.span.first, n + e.span.last⟩

namespace ParseError

variable {m n : Nat} {e f g : ParseError}

theorem Moved.trans (h : e.Moved m f) (h' : f.Moved n g) : e.Moved (n + m) g where
  expected := h'.expected.trans h.expected
  found := h'.found.trans h.found
  help := h'.help.trans h.help
  span := by rw [h'.span, h.span, Nat.add_assoc, Nat.add_assoc]

theorem Moved.withHelp (h : e.Moved n f) (help : Text) :
    (e.withHelp help).Moved n (f.withHelp help) :=
  { h with help := rfl }

theorem moved_zero (e : ParseError) : e.Moved 0 e :=
  ⟨rfl, rfl, rfl, by rw [Nat.zero_add, Nat.zero_add]⟩

theorem Moved.symm (h : e.Moved 0 f) : f.Moved 0 e where
  expected := h.expected.symm
  found := h.found.symm
  help := h.help.symm
  span := by rw [h.span, Nat.zero_add, Nat.zero_add, Nat.zero_add, Nat.zero_add]

end ParseError

/-! ## 1. Tokens further on -/

namespace Cursor

/-- The tokens that come next are the same in both, further on by `n` bytes in the second. -/
structure Shifted (n : Nat) (c d : Cursor) : Prop where
  upcoming : d.upcoming = c.upcoming.map (Token.shift n)
  stop : d.stop = n + c.stop

variable {n : Nat} {c d : Cursor} {t : Token}

theorem takeWhile_map_shift (n : Nat) (ts : List Token) :
    (ts.map (Token.shift n)).takeWhile Token.isLineBreak =
      (ts.takeWhile Token.isLineBreak).map (Token.shift n) :=
  List.takeWhile_map

theorem nthToken_map_shift (n : Nat) (ts : List Token) (k : Nat) :
    nthToken (ts.map (Token.shift n)) k = (nthToken ts k).map (Token.shift n) := by
  have hsolid : solid (ts.map (Token.shift n)) = (solid ts).map (Token.shift n) := List.filter_map
  rw [nthToken_eq, nthToken_eq, hsolid, List.getElem?_map]

theorem Shifted.peekNth (h : Shifted n c d) (k : Nat) :
    d.peekNth k = (c.peekNth k).map (Token.shift n) := by
  rw [Cursor.peekNth, h.upcoming, nthToken_map_shift, Cursor.peekNth]

theorem Shifted.peek (h : Shifted n c d) : d.peek = c.peek.map (Token.shift n) := h.peekNth 0

theorem Shifted.advance (h : Shifted n c d) (k : Nat) : Shifted n (c.advance k) (d.advance k) where
  upcoming := by
    show d.upcoming.drop k = (c.upcoming.drop k).map _
    rw [h.upcoming, List.map_drop]
  stop := h.stop

theorem Shifted.skipBreaks (h : Shifted n c d) : Shifted n c.skipBreaks d.skipBreaks := by
  rw [Cursor.skipBreaks, Cursor.skipBreaks, h.upcoming, takeWhile_map_shift, List.length_map]
  exact h.advance _

theorem Shifted.pass (h : Shifted n c d) : Shifted n c.pass d.pass := h.skipBreaks.advance 1

/-- A token that is cut is cut at the same place wherever it stands. -/
theorem cut_shift (n : Nat) (t : Token) (head tail : Text) :
    ((t.shift n).cut head tail).2 = (t.cut head tail).2.shift n := by
  simp only [Token.cut, Token.shift, Nat.add_assoc, Nat.add_min_add_left]

theorem Shifted.breakOff (h : Shifted n c d) (hp : c.peek = some t) (head : Text) :
    Shifted n (c.pass.breakOff head) (d.pass.breakOff head) := by
  have hp' : d.peek = some (t.shift n) := by rw [h.peek, hp, Option.map_some]
  rw [breakOff_eq (consumed_pass_of_peek hp), breakOff_eq (consumed_pass_of_peek hp'),
    Token.shift_text]
  split
  · exact ⟨by rw [List.map_cons, ← cut_shift, h.pass.upcoming], h.stop⟩
  · exact h.pass

theorem shifted_zero (c : Cursor) : Shifted 0 c c :=
  ⟨(List.map_id'' Token.shift_zero _).symm, (Nat.zero_add _).symm⟩

theorem Shifted.trans {m : Nat} {e : Cursor} (h : Shifted m c d) (h' : Shifted n d e) :
    Shifted (n + m) c e :=
  ⟨by rw [h'.upcoming, h.upcoming, Token.map_shift_shift], by rw [h'.stop, h.stop, Nat.add_assoc]⟩

theorem Shifted.errorFound (h : Shifted n c d) (x : Expectation) :
    (c.errorFound x).Moved n (d.errorFound x) := by
  rw [Cursor.errorFound, Cursor.errorFound, h.peek]
  cases c.peek with
  | none => exact ⟨rfl, rfl, rfl, congrArg (fun k => Span.mk k k) h.stop⟩
  | some t => exact ⟨rfl, rfl, rfl, rfl⟩

end Cursor

/-- The reading of some tokens, and the reading of the same tokens `n` bytes further on. -/
def Simulation.shifted (n : Nat) : Simulation where
  Cursors c d := Cursor.Shifted n c d
  Errors e f := e.Moved n f
  kept := id
  peekNth {c d} h k := by
    rw [h.peekNth, Option.map_map]
    rfl
  pass h _ := h.pass
  cut h hp _ := h.breakOff hp _
  inside {c d} h := by
    have hinside : d.upcoming.takeWhile (·.kind != .closeBrace) =
        (c.upcoming.takeWhile (·.kind != .closeBrace)).map (Token.shift n) := by
      rw [h.upcoming, List.takeWhile_map]
      rfl
    rw [Head.readInside, Head.readInside]
    dsimp only
    rw [hinside, h.upcoming, List.length_map, List.length_map, List.flatMap_map]
    split
    · exact .ok ⟨rfl, h.advance _⟩
    · exact .error ⟨rfl, rfl, rfl, congrArg (fun k => Span.mk k k) h.stop⟩
  ahead h _ := h.errorFound _
  taken {c d t u x} h ht hu _ := by
    rw [h.peek, ht, Option.map_some] at hu
    obtain rfl := Option.some.inj hu
    exact ⟨rfl, rfl, rfl, rfl⟩
  ended h _ := ⟨rfl, rfl, rfl, congrArg (fun k => Span.mk k k) h.stop⟩
  helped h help := h.withHelp help
  kept_breaks {c d x y} h hxy v := by
    obtain rfl : x = y := hxy
    rw [breaksBefore, breaksBefore, h.upcoming, Cursor.takeWhile_map_shift, List.flatMap_map]
    rfl
  kept_stop h := congrArg (· ++ [' ', '.']) h
  kept_trim h := congrArg Text.trim h
  trim_eq_nil {x y} h := by
    obtain rfl : x = y := h
    rfl
  variableNames_kept _ := rfl

/-! ## 2. Line breaks in front of a clause -/

section

variable {ε α β γ : Type} {E F G : ε → ε → Prop} {R : α → β → Prop} {Q : β → γ → Prop}
  {P : α → γ → Prop} {x : Except ε α} {y : Except ε β} {z : Except ε γ}

theorem Alike.refl (hE : ∀ e, E e e) (x : Except ε α) : Alike E Eq x x := by
  cases x with
  | error e => exact .error (hE e)
  | ok a => exact .ok rfl

theorem Alike.imp {P : α → β → Prop} (h : Alike E R x y) (hR : ∀ a b, R a b → P a b) :
    Alike E P x y := by
  cases h with
  | error he => exact .error he
  | ok hab => exact .ok (hR _ _ hab)

theorem Alike.symm (h : Alike E R x y) (hE : ∀ e f, E e f → F f e) :
    Alike F (fun b a => R a b) y x := by
  cases h with
  | error he => exact .error (hE _ _ he)
  | ok hab => exact .ok hab

/-- The results may be taken before they were put to use. -/
theorem Alike.of_map {f : α → β} {R : β → γ → Prop} {x : Except ε α} {y : Except ε γ}
    (h : Alike E R (x.map f) y) : Alike E (fun a c => R (f a) c) x y := by
  cases x with
  | error e => cases h with | error he => exact .error he
  | ok a => cases h with | ok hac => exact .ok hac

/-- What is alike to the same is alike. -/
theorem Alike.trans (h : Alike E R x y) (h' : Alike F Q y z)
    (hE : ∀ e f g, E e f → F f g → G e g) (hR : ∀ a b c, R a b → Q b c → P a c) :
    Alike G P x z := by
  cases h with
  | error he => cases h' with | error he' => exact .error (hE _ _ _ he he')
  | ok hab => cases h' with | ok hbc => exact .ok (hR _ _ _ hab hbc)

end

namespace Cursor

variable {c : Cursor}

theorem skipBreaks_skipBreaks (c : Cursor) : c.skipBreaks.skipBreaks = c.skipBreaks := by
  have hnone : c.skipBreaks.upcoming.takeWhile Token.isLineBreak = [] := by
    have hhead := List.head?_dropWhile_not Token.isLineBreak c.upcoming
    rw [upcoming_skipBreaks]
    cases hup : c.upcoming.dropWhile Token.isLineBreak with
    | nil => rfl
    | cons t ts =>
      rw [hup] at hhead
      exact List.takeWhile_cons_of_neg (by simpa using hhead)
  rw [Cursor.skipBreaks, hnone]
  rfl

theorem pass_skipBreaks (c : Cursor) : c.skipBreaks.pass = c.pass := by
  rw [pass, skipBreaks_skipBreaks, pass]

theorem peek_skipBreaks (c : Cursor) : c.skipBreaks.peek = c.peek := by
  rw [peek_eq_head?_skipBreaks, skipBreaks_skipBreaks, peek_eq_head?_skipBreaks]

theorem errorFound_skipBreaks (c : Cursor) (x : Expectation) :
    (c.errorFound x).Moved 0 (c.skipBreaks.errorFound x) := by
  rw [errorFound, errorFound, peek_skipBreaks]
  cases c.peek with
  | none => exact ⟨rfl, rfl, rfl, congrArg (fun k => Span.mk k k) (Nat.zero_add _).symm⟩
  | some t => exact ⟨rfl, rfl, rfl, (ParseError.moved_zero (c.errorAt t x)).span⟩

end Cursor

namespace Query

/-- Behind a line break a text has its own tokens, further on by what stands in front of them. -/
theorem shifted_newline (cfg : Config) {n : Nat} {c : Cursor} {t : Text}
    (hup : c.upcoming = (tokenize ('\n' :: t)).map (Token.shift n))
    (hstop : c.stop = n + 1 + Text.byteLength t) :
    Cursor.Shifted (n + 1) (cursor cfg t).skipBreaks c.skipBreaks where
  upcoming := by
    rw [Cursor.upcoming_skipBreaks, Cursor.upcoming_skipBreaks, hup, Text.tokenize_newline,
      List.map_cons, List.dropWhile_cons_of_pos rfl, Token.map_shift_shift, List.dropWhile_map]
    rfl
  stop := hstop

end Query

namespace Draft

variable {cfg : Config} {n : Nat} {c d : Cursor} {r : Draft}

theorem readDeclaration_skipBreaks (k : Keyword) (r : Draft) (c : Cursor) :
    Alike (ParseError.Moved 0) Eq (readDeclaration k r c) (readDeclaration k r c.skipBreaks) := by
  rw [readDeclaration, readDeclaration, Cursor.pass_skipBreaks]
  split
  · exact .error (Cursor.errorFound_skipBreaks c _)
  · exact Alike.refl ParseError.moved_zero _

theorem readForm_skipBreaks (cfg : Config) (k : Keyword) (r : Draft) (c : Cursor) :
    Alike (ParseError.Moved 0) Eq (readForm cfg k r c) (readForm cfg k r c.skipBreaks) := by
  rw [readForm.eq_def, readForm.eq_def, Cursor.pass_skipBreaks]
  split
  · exact .error (Cursor.errorFound_skipBreaks c _)
  · exact Alike.refl ParseError.moved_zero _

theorem readUpdate_skipBreaks (cfg : Config) (operation : Operation) (r : Draft) (c : Cursor) :
    Alike (ParseError.Moved 0) Eq (readUpdate cfg operation r c)
      (readUpdate cfg operation r c.skipBreaks) := by
  rw [readUpdate, readUpdate, Cursor.pass_skipBreaks]
  split
  · exact Alike.refl ParseError.moved_zero _
  · exact .error (Cursor.errorFound_skipBreaks c _)

theorem readClause_skipBreaks (cfg : Config) (k : Keyword) (r : Draft) (c : Cursor) :
    Alike (ParseError.Moved 0) Eq (readClause cfg k r c) (readClause cfg k r c.skipBreaks) := by
  rw [readClause.eq_def, readClause.eq_def, Cursor.pass_skipBreaks]
  split
  · exact readDeclaration_skipBreaks _ r c
  · exact readDeclaration_skipBreaks _ r c
  · exact Alike.refl ParseError.moved_zero _
  · exact Alike.refl ParseError.moved_zero _
  · exact readForm_skipBreaks cfg _ r c
  · exact readForm_skipBreaks cfg _ r c
  · exact readForm_skipBreaks cfg _ r c
  · exact readForm_skipBreaks cfg _ r c
  · exact readUpdate_skipBreaks cfg _ r c
  · exact readUpdate_skipBreaks cfg _ r c
  · exact Alike.refl ParseError.moved_zero _
  · exact .error (Cursor.errorFound_skipBreaks c _)

/-- Line breaks in front of a clause are stepped over. -/
theorem step_skipBreaks (cfg : Config) (r : Draft) (c : Cursor) :
    Alike (ParseError.Moved 0) Eq (step cfg r c) (step cfg r c.skipBreaks) := by
  rw [step, step, Cursor.peek_skipBreaks, Cursor.pass_skipBreaks]
  split
  · exact .ok rfl
  split
  · exact .ok rfl
  split
  · exact .ok rfl
  split
  · exact .error (Cursor.errorFound_skipBreaks c _)
  · refine (readClause_skipBreaks cfg _ r c).bind ?_
    rintro _ _ rfl
    exact .ok rfl

/-! ## 3. Clauses further on -/

/-- What a reading comes to further on: the same, up to the line breaks in front of what follows. -/
def Meets (n : Nat) (p q : Draft × Cursor) : Prop :=
  p.1 = q.1 ∧ Cursor.Shifted n p.2.skipBreaks q.2.skipBreaks

theorem Meets.trans {m n : Nat} {p q s : Draft × Cursor} (h : Meets m p q) (h' : Meets n q s) :
    Meets (n + m) p s :=
  ⟨h.1.trans h'.1, h.2.trans h'.2⟩

/-- Where all of a text is in common, drafts that are alike are equal. -/
theorem eq_of_shifted {s : Draft} (h : (Simulation.shifted n).Drafts r s) : r = s := by
  obtain ⟨_, _, _, _, _, _, _⟩ := r
  obtain ⟨_, _, _, _, _, _, _⟩ := s
  obtain ⟨rfl, rfl, rfl, rfl, rfl, rfl, hstatements⟩ := h
  have hstatements : List.map (Statement.mapText id) _ = List.map (Statement.mapText id) _ :=
    hstatements
  rw [Statement.map_mapText_id, Statement.map_mapText_id] at hstatements
  obtain rfl := hstatements
  rfl

theorem drafts_refl (S : Simulation) (r : Draft) : S.Drafts r r :=
  ⟨rfl, rfl, rfl, rfl, rfl, rfl, rfl⟩

theorem step_shifted (h : Cursor.Shifted n c d) (r : Draft) :
    Alike (ParseError.Moved n) (Option.Rel fun p q => p.1 = q.1 ∧ Cursor.Shifted n p.2 q.2)
      (step cfg r c) (step cfg r d) := by
  refine (Simulation.step (S := .shifted n) ⟨rfl, rfl⟩ (drafts_refl _ r) h).imp ?_
  rintro _ _ (⟨hr, hcd⟩ | _)
  · exact .some ⟨eq_of_shifted hr, hcd⟩
  · exact .none

/-- A clause is read further on as it is read where it stands, whatever line breaks there are in
front of it. -/
theorem step_moved (h : Cursor.Shifted n c.skipBreaks d.skipBreaks) (r : Draft) :
    Alike (ParseError.Moved n) (Option.Rel fun p q => p.1 = q.1 ∧ Cursor.Shifted n p.2 q.2)
      (step cfg r c) (step cfg r d) := by
  have hc := step_skipBreaks cfg r c
  have hd := (step_skipBreaks cfg r d).symm fun _ _ he => ParseError.Moved.symm he
  have hcd := hc.trans (step_shifted h r) (G := ParseError.Moved n)
    (fun _ _ _ he hf => he.trans hf) fun _ _ _ heq hr => heq ▸ hr
  refine hcd.trans hd (fun _ _ _ he hf => ?_) fun _ _ _ hr heq => heq ▸ hr
  have hmoved := he.trans hf
  rwa [Nat.zero_add] at hmoved

/-- So are all clauses that follow. -/
theorem repeatStep_moved (h : Cursor.Shifted n c.skipBreaks d.skipBreaks) (r : Draft) :
    Alike (ParseError.Moved n) (Meets n)
      (Cursor.repeatStep (step cfg) (step_productive cfg) r c)
      (Cursor.repeatStep (step cfg) (step_productive cfg) r d) := by
  rw [Cursor.repeatStep_eq, Cursor.repeatStep_eq]
  refine (step_moved h r).bind ?_
  rintro _ _ (@⟨⟨s, c₁⟩, ⟨_, d₁⟩, rfl, h₁⟩ | _)
  · -- Behind the first clause the tokens are the same, line breaks included.
    refine (Simulation.repeatStep (S := .shifted n) (R := (Simulation.shifted n).Drafts)
      (fun _ _ _ _ hr h => Simulation.step ⟨rfl, rfl⟩ hr h) (drafts_refl _ s) h₁).imp ?_
    rintro p q ⟨hr, hcd⟩
    exact ⟨eq_of_shifted hr, hcd.skipBreaks⟩
  · exact .ok ⟨rfl, h⟩

/-- A text that ends too early is refused where it ends. -/
theorem errorFound_moved (h : Cursor.Shifted n c.skipBreaks d.skipBreaks) (x : Expectation) :
    (c.errorFound x).Moved n (d.errorFound x) := by
  have hc := Cursor.errorFound_skipBreaks c x
  have hd := (Cursor.errorFound_skipBreaks d x).symm
  have hmoved := (hc.trans (h.errorFound x)).trans hd
  rwa [Nat.add_zero, Nat.zero_add] at hmoved

end Draft

end SparqlTree
