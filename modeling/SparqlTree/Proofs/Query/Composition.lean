import SparqlTree.Proofs.Query.Canonical
import SparqlTree.Proofs.Query.Shifted
import SparqlTree.Proofs.Query.Truncation
import SparqlTree.Proofs.Query.UpdateRun

/-!
# Update requests one behind the other

Two update requests with a semicolon between them, on a line of its own, are one update request, if
nothing is declared in the second (`Query.parse_append`).

The first one is read in front of the semicolon as it is read at the end of a text: the texts are
compared as a text and what is left of it in front of the semicolon. Nothing that may follow an
update begins with a semicolon, so the readers do not tell it from the end
(`Truncation.Cursors.atGlued_semicolon`).
-/

namespace SparqlTree

open Text (byteLength)

variable {cfg : Config}

/-! ## 1. A semicolon in place of the end -/

namespace Keyword

theorem leads_semicolon (k : Keyword) : k.leads [';'] = false := by
  cases k <;> decide

theorem spells_semicolon (k : Keyword) : k.spells [';'] = false := by
  cases k <;> decide

end Keyword

namespace Truncation

/-- The tokens that are left out begin with a semicolon behind a line break. -/
def Semicolon (T : Truncation) (after : List Token) : Prop :=
  ∃ b t, T.rest = b :: t :: after ∧ b.isLineBreak = true ∧ t.isLineBreak = false ∧ t.text = [';']

variable {T : Truncation} {c d : Cursor} {t : Token} {k : Keyword} {after : List Token}

/-- Where no token is left, the semicolon comes next in the whole text. -/
theorem Cursors.semicolon (h : T.Cursors c d) (hT : T.Semicolon after) (hp : d.peek = none) :
    ∃ t, c.peek = some t ∧ t.text = [';'] ∧ c.pass.upcoming = after := by
  obtain ⟨b, t, hrest, hb, ht, htext⟩ := hT
  have hup : c.upcoming = d.upcoming ++ b :: t :: after := by rw [h.eq, extend, hrest]
  have hskip : c.skipBreaks.upcoming = t :: after := by
    rw [Cursor.upcoming_skipBreaks, hup,
      List.dropWhile_append_of_pos (Cursor.isLineBreak_of_peek_eq_none hp),
      List.dropWhile_cons_of_pos hb, List.dropWhile_cons_of_neg (Bool.eq_false_iff.1 ht)]
  have hc : c.peek = some t := by rw [Cursor.peek_eq_head?_skipBreaks, hskip, List.head?_cons]
  rw [Cursor.skipBreaks_upcoming_eq_of_peek hc] at hskip
  exact ⟨t, hc, htext, (List.cons_eq_cons.1 hskip).2⟩

namespace Cursors

variable (h : T.Cursors c d) (hT : T.Semicolon after)

include h hT

/-- A test of the next token that fails at a semicolon fails at the end. -/
theorem any_peek {p : Text → Bool} (hsemicolon : p [';'] = false) :
    (c.peek.any fun t => p t.text) = d.peek.any fun t => p t.text := by
  cases hp : d.peek with
  | none =>
    obtain ⟨t, hc, ht, -⟩ := h.semicolon hT hp
    rw [hc, Option.any_some, ht, hsemicolon, Option.any_none]
  | some t => rw [h.peek hp]

theorem atGlued_semicolon (k : Keyword) : c.atGlued k = d.atGlued k :=
  h.any_peek hT k.leads_semicolon

theorem atKeyword_semicolon (k : Keyword) : c.atKeyword k = d.atKeyword k :=
  h.any_peek hT k.spells_semicolon

theorem eatGlued?_semicolon (k : Keyword) :
    c.eatGlued? k = none ∧ d.eatGlued? k = none ∨
      ∃ c₁ d₁, c.eatGlued? k = some c₁ ∧ d.eatGlued? k = some d₁ ∧ T.Cursors c₁ d₁ := by
  cases hp : d.peek with
  | none =>
    -- Nothing is there to be eaten at the end, so nothing is at the semicolon.
    have hd : d.atGlued k = false := by
      rw [Cursor.atGlued, hp]
      rfl
    have hc : c.atGlued k = false := (h.atGlued_semicolon hT k).trans hd
    exact .inl ⟨if_neg (Bool.eq_false_iff.1 hc), if_neg (Bool.eq_false_iff.1 hd)⟩
  | some t => exact h.eatGlued? hp k

theorem skipGlued_semicolon (k : Keyword) : T.Cursors (c.skipGlued k) (d.skipGlued k) := by
  rw [Cursor.skipGlued, Cursor.skipGlued]
  rcases h.eatGlued?_semicolon hT k with ⟨hc, hd⟩ | ⟨c₁, d₁, hc, hd, h₁⟩
  · rwa [hc, hd]
  · rwa [hc, hd]

end Cursors

/-! ## 2. Updates -/

section

variable (hT : T.Semicolon after)

include hT

theorem readAttached? (h : T.Cursors c d) :
    T.Follows T.Same (UpdateHead.readAttached? cfg c) (UpdateHead.readAttached? cfg d) := by
  rw [UpdateHead.readAttached?, UpdateHead.readAttached?]
  rcases h.eatGlued?_semicolon hT .whereClause with ⟨hc, hd⟩ | ⟨c₁, d₁, hc, hd, h₁⟩
  · rw [hc, hd]
    exact .inr (.ok ⟨rfl, h⟩)
  · rw [hc, hd]
    refine (readOpenBrace h₁).bind fun c₂ d₂ h₂ => (readBody h₂).bind ?_
    rintro ⟨body, c₃⟩ ⟨_, d₃⟩ ⟨rfl, h₃⟩
    exact .inr (.ok ⟨rfl, h₃⟩)

theorem lacksWhere (h : T.Cursors c d) (data : Bool) (template : List Statement) :
    UpdateHead.lacksWhere cfg data template c = UpdateHead.lacksWhere cfg data template d := by
  rw [UpdateHead.lacksWhere, UpdateHead.lacksWhere, UpdateHead.atUpdate, UpdateHead.atUpdate,
    h.atGlued_semicolon hT, h.atKeyword_semicolon hT, h.atKeyword_semicolon hT]

omit hT in
theorem throwUnbound {α β : Type} {R : α → β → Prop} (h : T.Cursors c d) (operation : Operation) :
    T.Follows R (throw (UpdateHead.unbound operation c))
      (throw (UpdateHead.unbound operation d)) := by
  rw [UpdateHead.unbound, UpdateHead.unbound]
  cases hp : d.peek with
  | none => exact .inl ⟨_, rfl, (h.spent hp).errorFound _⟩
  | some t =>
    exact .inr (.error (congrArg (ParseError.withHelp · ParseError.unboundHelp)
      (h.errorFound hp (.whereAfterTemplate operation.name))))

theorem readUpdateBlock (h : T.Cursors c d) (operation : Operation) :
    T.Follows T.Same (UpdateHead.read cfg operation c) (UpdateHead.read cfg operation d) := by
  rw [UpdateHead.read, UpdateHead.read]
  dsimp only
  rw [h.atGlued_semicolon hT]
  refine (readOpenBrace (h.skipGlued_semicolon hT .data)).bind fun c₁ d₁ h₁ => ?_
  refine (readBody h₁).bind ?_
  rintro ⟨template, c₂⟩ ⟨_, d₂⟩ ⟨rfl, h₂⟩
  dsimp only
  -- The check looks one token ahead of the template.
  rw [lacksWhere hT h₂]
  split
  · exact throwUnbound h₂ operation
  · refine (readAttached? hT h₂).bind ?_
    rintro ⟨attached, c₃⟩ ⟨_, d₃⟩ ⟨rfl, h₃⟩
    exact .inr (.ok ⟨rfl, h₃⟩)

theorem readUpdate (h : T.Cursors c d) (hp : d.peek = some t) (operation : Operation) (q : Draft) :
    T.Follows T.Same (Draft.readUpdate cfg operation q c) (Draft.readUpdate cfg operation q d) := by
  rw [Draft.readUpdate, Draft.readUpdate]
  split
  · refine (readUpdateBlock hT (h.pass hp) operation).bind ?_
    rintro ⟨s, c₁⟩ ⟨_, d₁⟩ ⟨rfl, h₁⟩
    exact .inr (.ok ⟨rfl, h₁⟩)
  · exact h.throwFound .noUpdateAfterForm

/-- The clauses of an update request are read in front of a semicolon as they are at the end. -/
theorem readUpdateClause (h : T.Cursors c d) (hp : d.peek = some t)
    (hk : k ∉ Draft.formKeywords) (q : Draft) :
    T.Follows T.Same (Draft.readClause cfg k q c) (Draft.readClause cfg k q d) := by
  cases hgives : Draft.givesForm k with
  | false => exact readClause h hp hgives q
  | true =>
    rcases Draft.update_of_givesForm hgives hk with rfl | rfl
    · exact readUpdate hT h hp .insert q
    · exact readUpdate hT h hp .delete q

end

end Truncation

namespace Draft

variable {T : Truncation} {c d d' : Cursor} {q q' : Draft} {t : Token} {after : List Token}

/-- A semicolon between clauses is stepped over. -/
theorem step_of_semicolon (hq : q.complete = false) (hp : c.peek = some t) (ht : t.text = [';']) :
    step cfg q c = .ok (some (q, c.pass)) := by
  rw [step, hq, if_neg (by decide), hp]
  dsimp only
  rw [if_pos ht]
  rfl

/-- An update request is read in front of a semicolon as it is read to its end. -/
theorem UpdateRun.continued (hrun : UpdateRun cfg q d q' d') (hq : q.complete = false)
    (h : T.Cursors c d) (hT : T.Semicolon after) :
    ∃ c', readFrom cfg q c = readFrom cfg q' c' ∧ T.Cursors c' d' := by
  -- Before each clause the two cursors stand at the same place.
  induction hrun generalizing c with
  | done => exact ⟨c, rfl, h⟩
  | semicolon hp ht _ ih =>
    rw [readFrom_of_step (step_of_semicolon hq (h.peek hp) ht)]
    exact ih hq (h.pass hp)
  | @clause q _ _ d _ _ t k hp hk hno hread _ ih =>
    rcases Truncation.readUpdateClause hT h hp hno q with hfails | halike
    · -- The shorter reading is not refused.
      obtain ⟨e, he, -⟩ := hfails
      nomatch hread.symm.trans he
    rw [hread] at halike
    obtain ⟨⟨q₁, c₁⟩, hread', rfl, h₁⟩ :=
      Truncation.exists_of_alike_ok (halike.symm fun _ _ he => he.symm)
    have hstep : step cfg q c = .ok (some (q₁, c₁)) := by
      rw [step_of_keyword hq (h.peek hp) hk, hread']
      rfl
    rw [readFrom_of_step hstep]
    exact ih (incomplete_of_readClause hno hq hread) h₁

end Draft

/-! ## 3. Two requests -/

namespace Query

variable {t₁ t₂ : Text} {q₁ q₂ : Query}

theorem tokens_semicolon : tokenize [';'] = [⟨.word, [';'], ⟨0, 1⟩⟩] := by
  decide +kernel

theorem closed_semicolon : Text.Closed [';'] := by
  intro w hw
  rw [Text.tokens, tokens_semicolon] at hw
  obtain rfl := List.mem_singleton.1 hw
  exact Text.isToken_semicolon

/-- The tokens of a text behind a semicolon on a line of its own. -/
theorem tokenize_semicolon (t : Text) : tokenize ('\n' :: ';' :: '\n' :: t) =
    ⟨.newline, ['\n'], ⟨0, 1⟩⟩ :: ⟨.word, [';'], ⟨1, 2⟩⟩ ::
      (tokenize ('\n' :: t)).map (Token.shift 2) := by
  have h : tokenize (';' :: '\n' :: t) = _ := Text.tokenize_append_newline closed_semicolon t
  rw [Text.tokenize_newline, h, tokens_semicolon, List.map_append, Token.map_shift_shift]
  rfl

/-- The end of a text behind which there are a semicolon and another text. -/
def seam (t₁ t₂ : Text) : Truncation where
  rest := (tokenize ('\n' :: ';' :: '\n' :: t₂)).map (Token.shift (byteLength t₁))
  left := byteLength t₁
  whole := byteLength (t₁ ++ ['\n', ';', '\n'] ++ t₂)

theorem semicolon_seam (t₁ t₂ : Text) : (seam t₁ t₂).Semicolon
    ((tokenize ('\n' :: t₂)).map (Token.shift (byteLength t₁ + 2))) := by
  have hrest : (seam t₁ t₂).rest =
      ⟨.newline, ['\n'], ⟨byteLength t₁, byteLength t₁ + 1⟩⟩ ::
        ⟨.word, [';'], ⟨byteLength t₁ + 1, byteLength t₁ + 2⟩⟩ ::
          (tokenize ('\n' :: t₂)).map (Token.shift (byteLength t₁ + 2)) := by
    rw [seam, tokenize_semicolon, List.map_cons, List.map_cons, Token.map_shift_shift]
    rfl
  exact ⟨_, _, hrest, rfl, rfl, rfl⟩

theorem cursors_seam (cfg : Config) (h : Text.Closed t₁) (t₂ : Text) :
    (seam t₁ t₂).Cursors (cursor cfg (t₁ ++ ['\n', ';', '\n'] ++ t₂)) (cursor cfg t₁) := by
  have htokens : tokenize (t₁ ++ ['\n', ';', '\n'] ++ t₂) = tokenize t₁ ++ (seam t₁ t₂).rest := by
    rw [List.append_assoc]
    exact Text.tokenize_append_newline h (';' :: '\n' :: t₂)
  refine ⟨?_, rfl, lexed_cursor cfg t₁⟩
  rw [cursor, htokens]
  rfl

theorem whole_seam (t₁ t₂ : Text) :
    (seam t₁ t₂).whole = byteLength t₁ + 2 + 1 + byteLength t₂ := by
  rw [seam, Text.byteLength_append, Text.byteLength_append]
  rfl

/-- Behind an update request and a semicolon a text is read from the draft of that request on. -/
theorem read_append {d : Draft} {c : Cursor} (h : Text.Closed t₁)
    (hrun : Draft.UpdateRun cfg {} (cursor cfg t₁) d c) (t₂ : Text) :
    let n := byteLength t₁ + 3
    Alike (ParseError.Moved n) (Draft.Meets n) (Draft.readFrom cfg d (cursor cfg t₂))
      (Draft.read cfg (cursor cfg (t₁ ++ ['\n', ';', '\n'] ++ t₂))) := by
  intro n
  have hT := semicolon_seam t₁ t₂
  obtain ⟨c', hread, hc'⟩ := hrun.continued rfl (cursors_seam cfg h t₂) hT
  obtain ⟨t, hp, ht, hafter⟩ := hc'.semicolon hT hrun.peek_eq_none
  have hstop : c'.pass.stop = byteLength t₁ + 2 + 1 + byteLength t₂ := by
    rw [← whole_seam, hc'.eq]
    rfl
  rw [Draft.read, ← Draft.readFrom, hread,
    Draft.readFrom_of_step (Draft.step_of_semicolon (hrun.incomplete rfl) hp ht)]
  exact Draft.repeatStep_moved (shifted_newline cfg hafter hstop) d

/-- Two update requests with a semicolon between them are one, if the second has no declarations. -/
theorem parse_append (h₁ : parse cfg t₁ = .ok q₁) (h₂ : parse cfg t₂ = .ok q₂)
    (hform₁ : q₁.form = .update) (hform₂ : q₂.form = .update) (hbase : q₂.base = none)
    (hprefixes : q₂.prefixes = ∅) :
    let text := t₁ ++ ['\n', ';', '\n'] ++ t₂
    parse cfg text = .ok { q₁ with
      graph := q₂.graph.or q₁.graph
      statements := q₁.statements ++ q₂.statements
      source := text } := by
  intro text
  obtain ⟨d₁, c₁, -, hrun₁, hquery₁, hd₁⟩ := updateRun_of_parse h₁ hform₁
  obtain ⟨d₂, c₂, hread₂, -, hquery₂, hd₂⟩ := updateRun_of_parse h₂ hform₂
  obtain ⟨form₁, -, rfl⟩ := Option.map_eq_some_iff.1 hquery₁
  obtain ⟨form₂, -, rfl⟩ := Option.map_eq_some_iff.1 hquery₂
  obtain rfl : form₁ = .update := hform₁
  have hno : ¬ d₂.Declares := fun h => h.elim (· hbase) (· hprefixes)
  -- The second request is read behind the draft of the first as it is read alone.
  have honto : Draft.readFrom cfg d₁ (cursor cfg t₂) = .ok (d₂.onto d₁, c₂) := by
    have h : Draft.readFrom cfg (Draft.onto {} d₁) (cursor cfg t₂) = _ :=
      Draft.repeatStep_onto_update hd₁ (lexed_cursor cfg t₂) hread₂ hd₂ hno
    rwa [Draft.empty_onto (hrun₁.incomplete rfl)] at h
  obtain ⟨⟨_, c⟩, hread, rfl, -⟩ :=
    Truncation.exists_of_alike_ok (honto ▸ read_append (closed_of_update h₁ rfl) hrun₁ t₂)
  refine parse_of_read hread ?_
  have hbase : d₂.base = none := hbase
  have hprefixes : d₂.prefixes = ∅ := hprefixes
  rw [Draft.query?, Draft.onto, hd₂, hbase, hprefixes, Option.none_or, PrefixMap.empty_onto]
  rfl

/-- The comment behind the first request ends before the semicolon. The prefix and the graph of the
first request are those of both, and the WHERE body stays with the second. -/
theorem parse_append_delete :
    let t₁ := "PREFIX e: <http://e/> WITH <http://e/g> INSERT DATA \x7b \x7d # nothing".toList
    let t₂ := "DELETE \x7b ?s ?p ?o \x7d WHERE \x7b ?s ?p ?o \x7d".toList
    let text := t₁ ++ ['\n', ';', '\n'] ++ t₂
    let insert : Statement := .update { operation := .insert, data := true } [] none
    let delete : Statement := .update { operation := .delete } [.simple "?s ?p ?o".toList]
      (some [.simple "?s ?p ?o".toList])
    let q₁ : Query :=
      { prefixes := (∅ : PrefixMap).insert ['e'] "http://e/".toList
        form := .update
        graph := some "http://e/g".toList
        statements := [insert]
        source := t₁ }
    let q₂ : Query := { form := .update, statements := [delete], source := t₂ }
    parse {} t₁ = .ok q₁ ∧ parse {} t₂ = .ok q₂ ∧
      parse {} text = .ok { q₁ with statements := [insert, delete], source := text } := by
  intro t₁ t₂ text insert delete q₁ q₂
  have h₁ : parse {} t₁ = .ok q₁ := eq_ok_of_toOption (by decide +kernel)
  have h₂ : parse {} t₂ = .ok q₂ := eq_ok_of_toOption (by decide +kernel)
  exact ⟨h₁, h₂, parse_append h₁ h₂ rfl rfl rfl rfl⟩

end Query

end SparqlTree
