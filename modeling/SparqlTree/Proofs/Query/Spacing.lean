import SparqlTree.Proofs.Query.Simulation
import SparqlTree.Proofs.Text.Words

/-!
# The layout of a text

Blanks, comments and line breaks between tokens do not matter to what a text is read as: two texts
with the same tokens, line breaks apart, are both refused for the same reason, or they are read as
queries that differ in nothing but the blanks in their texts (`Query.parse_of_sameTokens`).
-/

namespace SparqlTree

/-- The tokens that are no line breaks, apart from their places. -/
def solidTokens (ts : List Token) : List (TokenKind × Text) :=
  (ts.filter (!·.isLineBreak)).map Token.bare

/-- True of tokens whose line breaks are blank. -/
def BlankBreaks (ts : List Token) : Prop :=
  ∀ t ∈ ts, t.isLineBreak = true → Text.AllBlank t.text

/-! ## 1. Tokens that are no line breaks -/

@[simp] theorem solidTokens_nil : solidTokens [] = [] := rfl

theorem solidTokens_append (ts us : List Token) :
    solidTokens (ts ++ us) = solidTokens ts ++ solidTokens us := by
  rw [solidTokens, List.filter_append, List.map_append, ← solidTokens, ← solidTokens]

theorem solidTokens_reverse (ts : List Token) :
    solidTokens ts.reverse = (solidTokens ts).reverse := by
  rw [solidTokens, List.filter_reverse, List.map_reverse, ← solidTokens]

theorem solidTokens_cons_break {t : Token} (h : t.isLineBreak = true) (ts : List Token) :
    solidTokens (t :: ts) = solidTokens ts := by
  rw [solidTokens, List.filter_cons_of_neg (by rw [h]; decide), ← solidTokens]

theorem solidTokens_cons_solid {t : Token} (h : t.isLineBreak = false) (ts : List Token) :
    solidTokens (t :: ts) = t.bare :: solidTokens ts := by
  rw [solidTokens, List.filter_cons_of_pos (by rw [h]; decide), List.map_cons, ← solidTokens]

theorem solidTokens_of_breaks {ts : List Token} (h : ∀ t ∈ ts, t.isLineBreak = true) :
    solidTokens ts = [] := by
  rw [solidTokens, ← Cursor.solid, Cursor.solid_eq_nil.2 h, List.map_nil]

theorem nthToken_bare (ts : List Token) (n : Nat) :
    (Cursor.nthToken ts n).map Token.bare = (solidTokens ts)[n]? := by
  rw [Cursor.nthToken_eq, solidTokens, ← Cursor.solid, List.getElem?_map]

theorem solidTokens_cons_congr {t u : Token} {ts us : List Token} (h : t.bare = u.bare)
    (hs : solidTokens ts = solidTokens us) : solidTokens (t :: ts) = solidTokens (u :: us) := by
  have hb : t.isLineBreak = u.isLineBreak := by
    rw [Token.isLineBreak, Token.isLineBreak, (Token.bare_eq.1 h).1]
  cases ht : t.isLineBreak with
  | true => rw [solidTokens_cons_break ht, solidTokens_cons_break (hb ▸ ht), hs]
  | false => rw [solidTokens_cons_solid ht, solidTokens_cons_solid (hb ▸ ht), hs, h]

/-- The first closing brace is found in the same place with and without line breaks. -/
theorem solidTokens_inside (ts : List Token) :
    solidTokens (ts.takeWhile (·.kind != .closeBrace)) =
        (solidTokens ts).takeWhile (·.1 != .closeBrace) ∧
      ((ts.takeWhile (·.kind != .closeBrace)).length < ts.length ↔
        ∃ b ∈ solidTokens ts, b.1 = .closeBrace) ∧
      solidTokens (ts.drop ((ts.takeWhile (·.kind != .closeBrace)).length + 1)) =
        ((solidTokens ts).dropWhile (·.1 != .closeBrace)).tail := by
  induction ts with
  | nil => simp
  | cons t ts ih =>
    obtain ⟨htake, hlt, hdrop⟩ := ih
    by_cases hk : t.kind = .closeBrace
    · have hb : t.isLineBreak = false := by
        rw [Token.isLineBreak, hk]
        rfl
      simp [solidTokens_cons_solid hb, Token.bare, hk]
    · cases hb : t.isLineBreak with
      | true => simp [solidTokens_cons_break hb, hk, htake, hlt, hdrop]
      | false => simp [solidTokens_cons_solid hb, Token.bare, hk, htake, hlt, hdrop]

/-- The words of written tokens are those of the tokens, wherever the lines are broken. -/
theorem words_pieces {ts : List Token} (h : BlankBreaks ts) (w : Text) :
    Text.words (w ++ ts.flatMap Token.piece) =
      Text.words w ++ (solidTokens ts).flatMap fun b => Text.words b.2 := by
  induction ts generalizing w with
  | nil => simp
  | cons t ts ih =>
    obtain ⟨ht, hts⟩ := List.forall_mem_cons.1 h
    rw [List.flatMap_cons, Token.piece]
    split
    -- A line break ends the word before it and adds none; any other token comes after a space.
    · next hb =>
      rw [solidTokens_cons_break hb]
      cases htext : t.text with
      | nil => exact ih hts w
      | cons c b =>
        have hblank := ht hb
        rw [htext] at hblank
        obtain ⟨hc, hb'⟩ := List.forall_mem_cons.1 hblank
        have hrest := ih hts []
        rw [Text.words_nil, List.nil_append, List.nil_append] at hrest
        rw [List.cons_append, Text.words_append_blank w hc, Text.words_blank_append hb', hrest]
    · next hb =>
      rw [Bool.not_eq_true] at hb
      rw [solidTokens_cons_solid hb, List.flatMap_cons, List.cons_append,
        Text.words_append_blank w (by decide), ih hts t.text]
      rfl

theorem words_inside {ts : List Token} (h : BlankBreaks ts) :
    Text.words ((ts.takeWhile (·.kind != .closeBrace)).flatMap Token.piece) =
      (solidTokens (ts.takeWhile (·.kind != .closeBrace))).flatMap fun b => Text.words b.2 := by
  have hinside : BlankBreaks (ts.takeWhile (·.kind != .closeBrace)) :=
    fun t ht => h t ((List.takeWhile_sublist _).subset ht)
  have hwords := words_pieces hinside []
  rwa [Text.words_nil, List.nil_append, List.nil_append] at hwords

/-! ## 2. Cursors with the same tokens -/

namespace Cursor

/-- Before and after the cursors there are the same tokens, line breaks apart, and errors quote
equally many. -/
structure SameTokens (c d : Cursor) : Prop where
  consumed : solidTokens c.consumed = solidTokens d.consumed
  upcoming : solidTokens c.upcoming = solidTokens d.upcoming
  window : c.window = d.window
  left : BlankBreaks c.upcoming
  right : BlankBreaks d.upcoming

variable {c d : Cursor}

/-- The token that comes next is the first one, line breaks apart. -/
theorem solidTokens_of_peek {t : Token} (h : c.peek = some t) :
    solidTokens c.upcoming = t.bare :: solidTokens c.pass.upcoming ∧
      solidTokens c.pass.consumed = t.bare :: solidTokens c.consumed := by
  have hbreaks : solidTokens (c.upcoming.takeWhile Token.isLineBreak) = [] :=
    solidTokens_of_breaks fun t ht => List.mem_takeWhile_imp ht
  constructor
  · conv => lhs; rw [upcoming_eq_of_peek h]
    rw [solidTokens_append, hbreaks, solidTokens_cons_solid (noBreak_of_peek h)]
    rfl
  · rw [consumed_pass_of_peek h, solidTokens_cons_solid (noBreak_of_peek h), consumed_skipBreaks,
      solidTokens_append, solidTokens_reverse, hbreaks]
    rfl

theorem BlankBreaks.advance (h : BlankBreaks c.upcoming) (n : Nat) :
    BlankBreaks (c.advance n).upcoming :=
  fun t ht => h t ((List.drop_sublist n c.upcoming).subset ht)

namespace SameTokens

theorem peekNth (h : c.SameTokens d) (n : Nat) :
    (c.peekNth n).map Token.bare = (d.peekNth n).map Token.bare := by
  rw [Cursor.peekNth, Cursor.peekNth, nthToken_bare, nthToken_bare, h.upcoming]

theorem exists_peek (h : c.SameTokens d) {t : Token} (hp : c.peek = some t) :
    ∃ u, d.peek = some u ∧ t.bare = u.bare := by
  have hpeek : c.peek.map _ = d.peek.map _ := h.peekNth 0
  rw [hp] at hpeek
  obtain ⟨u, hu, hbare⟩ := Option.map_eq_some_iff.1 hpeek.symm
  exact ⟨u, hu, hbare.symm⟩

theorem pass (h : c.SameTokens d) {t : Token} (hp : c.peek = some t) :
    c.pass.SameTokens d.pass := by
  obtain ⟨u, hu, hbare⟩ := h.exists_peek hp
  obtain ⟨hcu, hcc⟩ := solidTokens_of_peek hp
  obtain ⟨hdu, hdc⟩ := solidTokens_of_peek hu
  refine ⟨?_, ?_, h.window, BlankBreaks.advance (BlankBreaks.advance h.left _) 1,
    BlankBreaks.advance (BlankBreaks.advance h.right _) 1⟩
  · rw [hcc, hdc, hbare, h.consumed]
  · have hup := h.upcoming
    rw [hcu, hdu] at hup
    exact (List.cons_eq_cons.1 hup).2

theorem drain (h : c.SameTokens d) :
    solidTokens c.drain.consumed = solidTokens d.drain.consumed := by
  have hdrain : ∀ c : Cursor, solidTokens c.drain.consumed =
      (solidTokens c.upcoming).reverse ++ solidTokens c.consumed := by
    intro c
    show solidTokens ((c.upcoming.take c.upcoming.length).reverse ++ c.consumed) = _
    rw [solidTokens_append, solidTokens_reverse, List.take_length]
  rw [hdrain, hdrain, h.upcoming, h.consumed]

theorem breakOff (h : c.SameTokens d) {t : Token} (hp : c.peek = some t) (head : Text) :
    (c.pass.breakOff head).SameTokens (d.pass.breakOff head) := by
  obtain ⟨u, hu, hbare⟩ := h.exists_peek hp
  have hpass := h.pass hp
  have htext := (Token.bare_eq.1 hbare).2
  rw [breakOff_eq (consumed_pass_of_peek hp), breakOff_eq (consumed_pass_of_peek hu), htext]
  split
  · have hbefore : solidTokens c.skipBreaks.consumed = solidTokens d.skipBreaks.consumed := by
      have hcons := hpass.consumed
      rw [consumed_pass_of_peek hp, consumed_pass_of_peek hu,
        solidTokens_cons_solid (noBreak_of_peek hp),
        solidTokens_cons_solid (noBreak_of_peek hu)] at hcons
      exact (List.cons_eq_cons.1 hcons).2
    have hblank : ∀ {s : Token} {front back : Text} {ts : List Token}, BlankBreaks ts →
        BlankBreaks ((s.cut front back).2 :: ts) := by
      intro s front back ts hts v hv hb
      rcases List.mem_cons.1 hv with rfl | hv
      · exact Text.isBlank_of_isBreak hb
      · exact hts v hv hb
    exact ⟨solidTokens_cons_congr rfl hbefore, solidTokens_cons_congr rfl hpass.upcoming,
      hpass.window, hblank hpass.left, hblank hpass.right⟩
  · exact hpass

theorem previous (h : solidTokens c.consumed = solidTokens d.consumed) (hw : c.window = d.window) :
    c.previous c.window = d.previous d.window := by
  have hprevious : ∀ (c : Cursor) (n : Nat), c.previous n =
      Text.spaced (((solidTokens c.consumed).take n).reverse.map Prod.snd) := by
    intro c n
    rw [Cursor.previous, solidTokens, ← List.map_take, ← List.map_reverse, List.map_map]
    rfl
  rw [hprevious, hprevious, h, hw]

theorem breaksBefore (h : BlankBreaks c.upcoming) : Text.AllBlank (SparqlTree.breaksBefore c) := by
  intro ch hch
  obtain ⟨t, ht, hch⟩ := List.mem_flatMap.1 hch
  exact h t ((List.takeWhile_sublist _).subset ht) (List.mem_takeWhile_imp ht) ch hch

theorem advance_inside (h : c.SameTokens d) :
    (c.advance ((c.upcoming.takeWhile (·.kind != .closeBrace)).length + 1)).SameTokens
      (d.advance ((d.upcoming.takeWhile (·.kind != .closeBrace)).length + 1)) := by
  obtain ⟨-, -, hdrop⟩ := solidTokens_inside c.upcoming
  obtain ⟨-, -, hdrop'⟩ := solidTokens_inside d.upcoming
  rw [h.upcoming, ← hdrop'] at hdrop
  generalize (c.upcoming.takeWhile (·.kind != .closeBrace)).length + 1 = m at hdrop ⊢
  generalize (d.upcoming.takeWhile (·.kind != .closeBrace)).length + 1 = n at hdrop ⊢
  -- What was taken is the same since the whole is and what is left.
  have htake : solidTokens (c.upcoming.take m) = solidTokens (d.upcoming.take n) := by
    have hup := h.upcoming
    rw [← List.take_append_drop m c.upcoming, ← List.take_append_drop n d.upcoming,
      solidTokens_append, solidTokens_append, hdrop] at hup
    exact List.append_cancel_right hup
  refine ⟨?_, hdrop, h.window, BlankBreaks.advance h.left m, BlankBreaks.advance h.right n⟩
  show solidTokens ((c.upcoming.take m).reverse ++ c.consumed) =
    solidTokens ((d.upcoming.take n).reverse ++ d.consumed)
  rw [solidTokens_append, solidTokens_append, solidTokens_reverse, solidTokens_reverse, htake,
    h.consumed]

end SameTokens

end Cursor

/-! ## 3. Texts with the same tokens -/

/-- Errors that differ in nothing but their places. -/
structure ParseError.SameReason (e f : ParseError) : Prop where
  expected : e.expected = f.expected
  found : e.found = f.found
  near : e.near = f.near
  help : e.help = f.help

/-- Queries that differ in nothing but the blanks between the words of their texts. -/
structure Query.SameWords (q r : Query) : Prop where
  form : q.form = r.form
  base : q.base = r.base
  prefixes : q.prefixes = r.prefixes
  graph : q.graph = r.graph
  graphs : q.graphs = r.graphs
  unknowns : q.unknowns = r.unknowns
  statements : q.statements.map (Statement.mapText Text.respaced) =
    r.statements.map (Statement.mapText Text.respaced)

theorem words_append_breaks {b : Text} (hb : Text.AllBlank b) (v x : Text) :
    Text.words (v ++ (b ++ ' ' :: x)) = Text.words v ++ Text.words x := by
  cases b with
  | nil => exact Text.words_append_blank v (by decide) x
  | cons c b =>
    obtain ⟨hc, hb⟩ := List.forall_mem_cons.1 hb
    rw [List.cons_append, Text.words_append_blank v hc, Text.words_blank_append hb,
      Text.words_cons_blank (by decide)]

theorem Token.display_of_bare {t u : Token} (h : t.bare = u.bare) : t.display = u.display := by
  obtain ⟨hkind, htext⟩ := bare_eq.1 h
  rw [display, display, hkind, htext]

/-- Readings of texts with the same tokens. -/
def Simulation.sameTokens : Simulation where
  Cursors c d := c.SameTokens d
  Errors e f := e.SameReason f
  kept := Text.respaced
  peekNth h n := h.peekNth n
  pass h hp := h.pass hp
  cut h hp _ := h.breakOff hp _
  inside := by
    intro c d h
    -- Line breaks are counted in the lengths compared here, but not in where the brace is found.
    obtain ⟨htake, hlt, -⟩ := solidTokens_inside c.upcoming
    obtain ⟨htake', hlt', -⟩ := solidTokens_inside d.upcoming
    rw [h.upcoming] at htake hlt
    rw [Head.readInside, Head.readInside]
    dsimp only
    by_cases hc : (c.upcoming.takeWhile (·.kind != .closeBrace)).length < c.upcoming.length
    · have hd := hlt'.2 (hlt.1 hc)
      rw [if_pos hc, if_pos hd]
      refine .ok ⟨?_, h.advance_inside⟩
      rw [Text.respaced_eq_iff, Text.words_trim, Text.words_trim]
      have hleft := words_inside h.left
      have hright := words_inside h.right
      rw [htake] at hleft
      rw [htake'] at hright
      exact hleft.trans hright.symm
    · have hd := mt (fun hd => hlt.2 (hlt'.1 hd)) hc
      rw [if_neg hc, if_neg hd]
      exact .error ⟨rfl, rfl, Cursor.SameTokens.previous h.drain h.window, rfl⟩
  ahead := by
    intro c d x h _
    have hnear := Cursor.SameTokens.previous h.consumed h.window
    rw [Cursor.errorFound, Cursor.errorFound]
    cases hp : c.peek with
    | none =>
      have hpeek := h.peekNth 0
      rw [show c.peekNth 0 = none from hp] at hpeek
      rw [show d.peek = none from Option.map_eq_none_iff.1 hpeek.symm]
      exact ⟨rfl, rfl, hnear, rfl⟩
    | some t =>
      obtain ⟨u, hu, hbare⟩ := h.exists_peek hp
      rw [hu]
      exact ⟨rfl, Token.display_of_bare hbare, hnear, rfl⟩
  taken := by
    intro c d t u x h ht hu _
    obtain ⟨v, hv, hbare⟩ := h.exists_peek ht
    obtain rfl := Option.some.inj (hu.symm.trans hv)
    have hpass := h.pass ht
    exact ⟨rfl, Token.display_of_bare hbare,
      Cursor.SameTokens.previous hpass.consumed hpass.window, rfl⟩
  ended h _ := ⟨rfl, rfl, Cursor.SameTokens.previous h.drain h.window, rfl⟩
  helped h help := { h with help := rfl }
  kept_breaks := by
    intro c d x y h hxy v
    rw [Text.respaced_eq_iff] at hxy ⊢
    rw [words_append_breaks (Cursor.SameTokens.breaksBefore h.left),
      words_append_breaks (Cursor.SameTokens.breaksBefore h.right), hxy]
  kept_stop := by
    intro x y h
    rw [Text.respaced_eq_iff] at h ⊢
    rw [Text.words_append_blank x (by decide), Text.words_append_blank y (by decide), h]
  kept_trim := by
    intro x y h
    rw [Text.respaced_eq_iff] at h ⊢
    rw [Text.words_trim, Text.words_trim, h]
  trim_eq_nil := by
    intro x y h
    rw [← Text.words_eq_nil, ← Text.words_eq_nil, Text.respaced_eq_iff.1 h]
  variableNames_kept := Text.variableNames_respaced

namespace Query

/-- Texts with the same tokens are read alike, however these are laid out. -/
theorem parse_of_sameTokens (cfg : Config) {text text' : Text}
    (h : solidTokens (tokenize text) = solidTokens (tokenize text')) :
    Alike ParseError.SameReason SameWords (parse cfg text) (parse cfg text') := by
  have hblank : ∀ text : Text, BlankBreaks (tokenize text) := by
    intro text t ht hb
    rw [Token.isLineBreak, Text.kind_tokenize ht] at hb
    exact Text.isBlank_of_isBreak hb
  have hstart : Simulation.sameTokens.Cursors (cursor cfg text) (cursor cfg text') :=
    ⟨rfl, h, rfl, hblank text, hblank text'⟩
  have hrules : cfg.SameRules cfg := ⟨rfl, rfl⟩
  have hparse := Simulation.parse hrules hstart
  generalize parse cfg text = x at hparse ⊢
  generalize parse cfg text' = y at hparse ⊢
  cases hparse with
  | error he => exact .error he
  | @ok q r hq =>
    refine .ok ⟨hq.form, hq.base, hq.prefixes, hq.graph, ?_, ?_, hq.statements⟩
    · rw [graphs, graphs, hq.graph, Statement.graphsAll_eq_of_map hq.statements]
    · exact Statement.unknownsAll_eq_of_map Text.variableNames_respaced hq.statements

theorem parse_of_sameTokens_ask :
    let text := "ASK \x7b ?s # a comment\n\n ?p ?o\n. \x7d".toList
    let text' := "ASK\x7b?s ?p\t?o .\x7d".toList
    solidTokens (tokenize text) = solidTokens (tokenize text') ∧
      ∃ q r, parse {} text = .ok q ∧ parse {} text' = .ok r ∧ q.statements ≠ r.statements ∧
        q.SameWords r := by
  intro text text'
  have h : solidTokens (tokenize text) = solidTokens (tokenize text') := by decide +kernel
  obtain ⟨q, hq⟩ := exists_eq_ok (x := parse {} text) (by decide +kernel)
  obtain ⟨r, hr⟩ := exists_eq_ok (x := parse {} text') (by decide +kernel)
  have hne : (parse {} text).toOption.map statements ≠
      (parse {} text').toOption.map statements := by decide +kernel
  have hsame := parse_of_sameTokens {} h
  rw [hq, hr] at hne hsame
  refine ⟨h, q, r, hq, hr, fun heq => hne (congrArg some heq), ?_⟩
  cases hsame with
  | ok hsame => exact hsame

end Query

end SparqlTree
