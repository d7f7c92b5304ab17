import SparqlTree.Proofs.Query.ErrorPlace
import SparqlTree.Proofs.Statement.Tokens

/-!
# How much errors quote

The number of tokens that errors quote has an effect on what they quote and on nothing else
(`Query.parse_contextTokens`). A reading of a text is set beside the same reading with another
window: they go through the same cursors, and an error that the one raises the other raises too, at
the same place.
-/

namespace SparqlTree

/-! ## 1. The last tokens -/

namespace Text

theorem spaced_suffix_cons (w : Text) (ws : List Text) : spaced ws <:+ spaced (w :: ws) := by
  by_cases hne : ws = []
  · rw [hne]
    exact List.nil_suffix
  · rw [spaced_cons hne]
    exact (List.suffix_cons _ _).trans (List.suffix_append _ _)

theorem spaced_suffix_append (vs ws : List Text) : spaced ws <:+ spaced (vs ++ ws) := by
  induction vs with
  | nil => exact List.suffix_rfl
  | cons v vs ih => exact ih.trans (spaced_suffix_cons v _)

end Text

theorem rtake_suffix {α : Type} (xs : List α) (n : Nat) : xs.rtake n <:+ xs := List.drop_suffix _ _

/-- The last of the last are the last. -/
theorem rtake_rtake {α : Type} (xs : List α) {n m : Nat} (h : n ≤ m) :
    (xs.rtake m).rtake n = xs.rtake n := by
  rw [List.rtake, List.rtake, List.rtake, List.drop_drop, List.length_drop]
  congr 1
  omega

/-- Two quotes from a text, each of the last tokens before one and the same place: `far` goes back
some way, and `near` is the tail of it that its last `n` tokens make up. -/
def IsTail (text : Text) (n : Nat) (near far : Text) : Prop :=
  near <:+ far ∧ ∃ us vs ws, Recut (tokenize text) (us ++ vs) ∧ ws <:+ us.filter (!·.isLineBreak) ∧
    far = Text.spaced (ws.map Token.text) ∧ near = Text.spaced ((ws.rtake n).map Token.text)

theorem isTail_of_recut {text : Text} {us vs : List Token} (h : Recut (tokenize text) (us ++ vs))
    {n m : Nat} (hnm : n ≤ m) :
    IsTail text n (Text.spaced (((us.filter (!·.isLineBreak)).rtake n).map Token.text))
      (Text.spaced (((us.filter (!·.isLineBreak)).rtake m).map Token.text)) := by
  refine ⟨?_, us, vs, _, h, rtake_suffix _ m, rfl, by rw [rtake_rtake _ hnm]⟩
  obtain ⟨before, hbefore⟩ := rtake_suffix ((us.filter (!·.isLineBreak)).rtake m) n
  rw [rtake_rtake _ hnm] at hbefore
  rw [← hbefore, List.map_append]
  exact Text.spaced_suffix_append _ _

/-! ## 2. Cursors with another window -/

namespace Cursor

variable {text : Text} {n : Nat} {c : Cursor}

theorem Along.withWindow (h : c.Along text n) (m : Nat) : (c.withWindow m).Along text m :=
  { h with window_eq := rfl }

theorem breakOff_withWindow (c : Cursor) (head : Text) (m : Nat) :
    (c.withWindow m).breakOff head = (c.breakOff head).withWindow m := by
  cases hc : c.consumed with
  | nil =>
    have hc' : (c.withWindow m).consumed = [] := hc
    rw [breakOff, breakOff, breakOff?, breakOff?, hc, hc']
    rfl
  | cons t before =>
    rw [breakOff_eq hc, breakOff_eq (show (c.withWindow m).consumed = t :: before from hc)]
    split <;> rfl

end Cursor

/-- Errors that differ in nothing but what they quote. -/
structure ParseError.SameButNear (e f : ParseError) : Prop where
  line : e.line = f.line
  expected : e.expected = f.expected
  found : e.found = f.found
  span : e.span = f.span
  help : e.help = f.help

theorem Cursor.errorFound_withWindow (c : Cursor) (x : Expectation) (m : Nat) :
    (c.errorFound x).SameButNear ((c.withWindow m).errorFound x) := by
  rw [errorFound, errorFound, show (c.withWindow m).peek = c.peek from rfl]
  split <;> exact ⟨rfl, rfl, rfl, rfl, rfl⟩

/-- The reading of a text, and the same with a window of `m` tokens in the place of `n`. -/
def Simulation.windowed (text : Text) (n m : Nat) : Simulation where
  __ := Simulation.along text n
  Cursors c d := c.Along text n ∧ c.Settled ∧ d = c.withWindow m
  Errors e f := e.SameButNear f ∧ ∃ us vs, e.Raised text n us vs ∧ f.Raised text m us vs
  peekNth := by
    rintro c _ ⟨-, -, rfl⟩ k
    rfl
  pass := by
    rintro c _ t ⟨h, -, rfl⟩ hp
    exact ⟨h.pass, Cursor.settled_pass hp, rfl⟩
  cut := by
    rintro c _ t head ⟨h, -, rfl⟩ hp hhead
    obtain ⟨hcut, hsettled⟩ := h.breakOff hp hhead
    exact ⟨hcut, hsettled, Cursor.breakOff_withWindow c.pass head m⟩
  inside := by
    rintro c _ ⟨h, -, rfl⟩
    rw [Head.readInside, Head.readInside]
    dsimp only
    show Alike _ _ _ (if (c.upcoming.takeWhile (·.kind != .closeBrace)).length < c.upcoming.length
      then _ else _)
    split
    · next hlt => exact .ok ⟨rfl, h.advance _, Cursor.settled_inside hlt, rfl⟩
    · exact .error ⟨⟨rfl, rfl, rfl, rfl, rfl⟩, _, _, h.errorAtEnd_drain rfl,
        (h.withWindow m).errorAtEnd_drain rfl⟩
  ahead := by
    rintro c _ x ⟨h, hs, rfl⟩ hx
    exact ⟨c.errorFound_withWindow x m, _, _, h.errorFound hs hx, (h.withWindow m).errorFound hs hx⟩
  taken := by
    rintro c _ t u x ⟨h, -, rfl⟩ ht hu hx
    obtain rfl := Option.some.inj (ht.symm.trans hu)
    exact ⟨⟨rfl, rfl, rfl, rfl, rfl⟩, _, _, h.errorAt_pass ht hx,
      (h.withWindow m).errorAt_pass hu hx⟩
  ended := by
    rintro c _ x ⟨h, -, rfl⟩ hx
    exact ⟨⟨rfl, rfl, rfl, rfl, rfl⟩, _, _, h.errorAtEnd_drain hx,
      (h.withWindow m).errorAtEnd_drain hx⟩
  helped := by
    rintro e f ⟨hsame, us, vs, he, hf⟩ help
    exact ⟨{ hsame with help := rfl }, us, vs, { he with }, { hf with }⟩
  kept_breaks := by
    rintro c _ x y ⟨-, -, rfl⟩ rfl v
    rfl

/-! ## 3. Texts -/

theorem Simulation.Queries.eq_of_source {text : Text} {n m : Nat} {q r : Query}
    (h : (Simulation.windowed text n m).Queries q r) (hsource : q.source = r.source) : q = r := by
  have hstatements : q.statements.map (Statement.mapText id) =
      r.statements.map (Statement.mapText id) := h.statements
  rw [Statement.map_mapText_id, Statement.map_mapText_id] at hstatements
  obtain ⟨_, _, _, _, _, _⟩ := q
  obtain ⟨_, _, _, _, _, _⟩ := r
  obtain ⟨rfl, rfl, rfl, rfl, -⟩ := h
  obtain rfl := hstatements
  obtain rfl := hsource
  rfl

namespace Query

theorem source_of_parse {cfg : Config} {text : Text} {q : Query} (h : parse cfg text = .ok q) :
    q.source = text := by
  obtain ⟨d, c, -, hq⟩ := exists_draft_of_parse h
  obtain ⟨form, -, rfl⟩ := Option.map_eq_some_iff.1 hq
  rfl

/-- How much errors quote has no other effect: every text is read as the same query, or refused with
errors that differ in what they quote only. The one with the smaller window quotes the last tokens
of what the other one quotes. -/
theorem parse_contextTokens (cfg : Config) (m : Nat) (text : Text) :
    Alike (fun e f => e.SameButNear f ∧
        (cfg.contextTokens ≤ m → IsTail text cfg.contextTokens e.near f.near) ∧
        (m ≤ cfg.contextTokens → IsTail text m f.near e.near)) Eq
      (parse cfg text) (parse { cfg with contextTokens := m } text) := by
  have hstart : (Simulation.windowed text cfg.contextTokens m).Cursors (cursor cfg text)
      (cursor { cfg with contextTokens := m } text) :=
    ⟨Cursor.along_cursor cfg text, (fun _ ht => nomatch ht), rfl⟩
  have hrules : cfg.SameRules { cfg with contextTokens := m } := ⟨rfl, rfl⟩
  have hparse := Simulation.parse hrules hstart
  generalize hx : parse cfg text = x at hparse ⊢
  generalize hy : parse { cfg with contextTokens := m } text = y at hparse ⊢
  cases hparse with
  | error he =>
    obtain ⟨hsame, us, vs, he, hf⟩ := he
    refine .error ⟨hsame, ?_⟩
    rw [he.near_eq, hf.near_eq]
    exact ⟨isTail_of_recut he.recut, isTail_of_recut he.recut⟩
  | ok hq => exact .ok (hq.eq_of_source ((source_of_parse hx).trans (source_of_parse hy).symm))

end Query

end SparqlTree
