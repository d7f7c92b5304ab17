import SparqlTree.Proofs.Grammar.Truncation
import SparqlTree.Proofs.Query.Fork
import SparqlTree.Proofs.Query.FormPlace
import SparqlTree.Proofs.Query.Strictness
import SparqlTree.Proofs.Token.Truncation

/-!
# Queries that are cut short

A query form is complete once the body under its head is closed. A text that is cut off behind a
token before that closing brace is refused, and the error says that the text ends there
(`Query.truncated_of_parse`). The clauses of what is left are read like those of the whole text, up
to the form and then up to its body, and the reading comes to the end on the way.
-/

namespace SparqlTree

variable {cfg : Config} {text : Text}

namespace Truncation

variable {T : Truncation} {c d : Cursor} {t : Token} {k : Keyword}

/-! ## 1. Up to the body of the form -/

theorem readClause (h : T.Cursors c d) (hp : d.peek = some t) (hk : Draft.givesForm k = false)
    (q : Draft) : T.Follows T.Same (Draft.readClause cfg k q c) (Draft.readClause cfg k q d) :=
  .of_taken ((h.facing hp).readClause_of_not_form hp hk q)

theorem readToForm (h : T.Cursors c d) :
    T.Lags T.Same (Draft.readToForm cfg c) (Draft.readToForm cfg d) :=
  .of_same h.level.readToForm

theorem readHead (h : T.Cursors c d) (k : Keyword) :
    T.Follows T.Same (Draft.readHead k c) (Draft.readHead k d) :=
  .of_taken (h.level.readHead k)

theorem Spent.step (h : T.Spent d) (q : Draft) : Draft.step cfg q d = .ok none := by
  rw [Draft.step, h.peek]
  split <;> rfl

end Truncation

/-! ## 2. Queries -/

namespace Query

/-- Reads on from a draft, up to the query. -/
def parseFrom (cfg : Config) (text : Text) (d : Draft) (c : Cursor) : Except ParseError Query := do
  let (d, c) ← Cursor.repeatStep (Draft.step cfg) (Draft.step_productive cfg) d c
  match d.query? text with
  | some q => pure q
  | none => throw (c.errorFound .queryForm)

theorem parse_eq_bind : parse cfg text =
    Draft.readToForm cfg (cursor cfg text) >>= fun r => parseFrom cfg text r.1 r.2 := by
  rw [parse, Draft.read, Draft.repeatStep_eq_bind, bind_assoc]
  rfl

/-- Reads the body under the form of a query that is no update, from the start of the text. -/
def readFormBody (cfg : Config) (text : Text) : Except ParseError (List Statement × Cursor) := do
  let (_, c) ← Draft.readToForm cfg (cursor cfg text)
  match c.peek.bind fun t => Keyword.ofText? t.text with
  | none => throw (c.errorFound .queryForm)
  | some k => do
    let ((head, _), c) ← Draft.readHead k c.pass
    readBody cfg head.bodyStyle c

theorem readFormBody_eq {c : Cursor} {d : Draft} {t : Token} {k : Keyword}
    (hfirst : Draft.readToForm cfg (cursor cfg text) = .ok (d, c)) (hp : c.peek = some t)
    (hk : Keyword.ofText? t.text = some k) : readFormBody cfg text =
      Draft.readHead k c.pass >>= fun r => readBody cfg r.1.1.bodyStyle r.2 := by
  rw [readFormBody, hfirst]
  show (match c.peek.bind fun t => Keyword.ofText? t.text with
    | none => _
    | some k => _) = _
  rw [hp, Option.bind_some, hk]

end Query

namespace Truncation

variable {T : Truncation} {c d : Cursor} {t : Token} {k : Keyword} {q : Draft}

/-- Without a form there is no query. -/
theorem Spent.parseFrom (h : T.Spent d) (hq : q.Formless) :
    T.Fails (Query.parseFrom cfg text q d) := by
  rw [Query.parseFrom, Cursor.repeatStep_eq, h.step]
  show T.Fails (match q.query? text with
    | some q => pure q
    | none => throw (d.errorFound .queryForm))
  rw [Draft.query?, hq.1]
  exact ⟨_, rfl, h.errorFound .queryForm⟩

/-- What is left ends before the body of the form is closed. -/
theorem fails_parseFrom (h : T.Cursors c d) (hq : q.Formless) (hc : c.peek = some t)
    (hk : Keyword.ofText? t.text = some k) (hform : k ∈ Draft.formKeywords)
    {head : Head × Option Text} {c₁ c₂ : Cursor} (hhead : Draft.readHead k c.pass = .ok (head, c₁))
    {body : List Statement}
    (hbody : SparqlTree.readBody cfg head.1.bodyStyle c₁ = .ok (body, c₂))
    (hlen : c₂.upcoming.length < T.rest.length) : T.Fails (Query.parseFrom cfg text q d) := by
  cases hp : d.peek with
  | none => exact (h.spent hp).parseFrom hq
  | some u =>
    -- Both readings stand at the keyword of the form.
    obtain rfl := Option.some.inj (hc.symm.trans (h.peek hp))
    suffices hfails : T.Fails (Draft.readForm cfg k q d) by
      rw [Query.parseFrom, Cursor.repeatStep_eq, Draft.step_of_form hq hp hk hform]
      exact hfails.bind.bind.bind
    rw [Draft.readForm_eq hform hq.1]
    have h₁ := readHead (h.pass hp) k
    rw [hhead] at h₁
    rcases h₁ with hfails | halike
    · exact hfails.bind
    obtain ⟨⟨_, d₁⟩, hhead', rfl, h₁⟩ := exists_of_alike_ok halike
    rw [hhead']
    have h₂ : T.Follows T.Same (SparqlTree.readBody cfg head.1.bodyStyle c₁) _ := readBody h₁
    rw [hbody] at h₂
    rcases h₂ with hfails | halike
    · exact hfails.bind.bind
    · -- The body was closed by a token that was left out.
      obtain ⟨⟨_, d₂⟩, -, rfl, h₂⟩ := exists_of_alike_ok halike
      have hup := congrArg (fun c => c.upcoming.length) h₂.eq
      simp only [extend, List.length_append] at hup
      omega

/-- What is left is refused at its end if it has not got the brace that closes the body. -/
theorem fails_parse {front : Text} (h : T.Cursors (Query.cursor cfg text) (Query.cursor cfg front))
    {q : Query} (hparse : Query.parse cfg text = .ok q) (hform : q.form ≠ .update)
    {body : List Statement} (hbody : Query.readFormBody cfg text = .ok (body, c))
    (hlen : c.upcoming.length < T.rest.length) : T.Fails (Query.parse cfg front) := by
  obtain ⟨q, c', t, k, -, -, -, hfirst, hq, hp, hk, hmem, -⟩ :=
    Query.exists_form_of_parse hparse hform
  rw [Query.readFormBody_eq hfirst hp hk] at hbody
  obtain ⟨⟨head, c₁⟩, hhead, hbody⟩ := bind_eq_ok.1 hbody
  have hempty : Draft.Formless {} := ⟨rfl, rfl⟩
  have hlags : T.Lags T.Same (Draft.readToForm cfg (Query.cursor cfg text)) _ := readToForm h
  rw [hfirst] at hlags
  rw [Query.parse_eq_bind]
  rcases hlags with (hfails | ⟨q', d, hshort, hspent⟩) | halike
  · exact hfails.bind
  · -- What is left ends between two clauses in front of the form.
    rw [hshort]
    exact hspent.parseFrom (hempty.repeatStep hshort).1
  · obtain ⟨⟨_, d⟩, hshort, rfl, hd⟩ := exists_of_alike_ok halike
    rw [hshort]
    exact fails_parseFrom hd hq hp hk hmem hhead hbody hlen

end Truncation

namespace Query

variable {q : Query}

/-- The body under the form of a query was closed by a token of the text, and it is in the query. -/
theorem readFormBody_of_parse (h : parse cfg text = .ok q) (hform : q.form ≠ .update) :
    ∃ head body c before b, readFormBody cfg text = .ok (body, c) ∧
      .block head body ∈ q.statements ∧ c.consumed.head? = some b ∧ b.kind = .closeBrace ∧
      tokenize text = before ++ b :: c.upcoming := by
  obtain ⟨d, c, t, k, r, d', c', hfirst, hd, hp, hk, hmem, -, hstep, hread, hrun, hq⟩ :=
    exists_form_of_parse h hform
  have hc := (Draft.readToForm_suffix (lexed_cursor cfg text) hfirst).1
  have hprefix := Draft.statements_prefix_of_repeatStep (Draft.lexed_of_step hc hstep) hrun
  rw [Draft.readForm_eq hmem hd.1] at hread
  obtain ⟨⟨⟨head, graph⟩, c₁⟩, hhead, hread⟩ := bind_eq_ok.1 hread
  obtain ⟨⟨s, c₃⟩, hblock, hread⟩ := bind_eq_ok.1 hread
  obtain rfl := Except.ok.inj hread
  obtain ⟨⟨body, c₂⟩, hbody, hblock⟩ := bind_eq_ok.1 hblock
  obtain ⟨⟨closed, c₄⟩, -, hblock⟩ := bind_eq_ok.1 hblock
  obtain ⟨rfl, -⟩ := Prod.mk.inj (Except.ok.inj hblock)
  have hform : readFormBody cfg text = .ok (body, c₂) := by
    rw [readFormBody_eq hfirst hp hk, hhead]
    exact hbody
  have hmem : .block closed body ∈ q.statements := by
    obtain ⟨form, -, rfl⟩ := Option.map_eq_some_iff.1 hq
    exact hprefix.subset (List.mem_append_right _ (List.mem_singleton.2 rfl))
  -- The tokens from the closing brace on are an end of those behind the keyword of the form.
  obtain ⟨hc₁, hsuffix⟩ := Draft.readHead_suffix hc.pass hhead
  obtain ⟨b, hconsumed, hclose, hrest⟩ := readBody_closed hc₁ hbody
  obtain ⟨before, hbefore⟩ := split_at_form hfirst hp
  obtain ⟨inside, hinside⟩ := hrest.trans hsuffix
  refine ⟨closed, body, c₂, before ++ t :: inside, b, hform, hmem, hconsumed, hclose, ?_⟩
  rw [hbefore, ← hinside]
  simp

/-- Cut off behind any token in front of the brace that closes the body of its form, or down to
nothing, a query is refused where the text then ends. -/
theorem truncated_of_parse (h : parse cfg text = .ok q) (hform : q.form ≠ .update) :
    ∃ head body c before b, readFormBody cfg text = .ok (body, c) ∧
      .block head body ∈ q.statements ∧ c.consumed.head? = some b ∧ b.kind = .closeBrace ∧
      tokenize text = before ++ b :: c.upcoming ∧
      ∀ n ∈ 0 :: before.map (·.span.last), ∃ front back e,
        Text.splitBytes? n text = some (front, back) ∧ parse cfg front = .error e ∧
        e.found = ParseError.endOfInput ∧
        e.span = ⟨Text.byteLength front, Text.byteLength front⟩ := by
  obtain ⟨head, body, c, before, b, hbody, hmem, hconsumed, hclose, htext⟩ :=
    readFormBody_of_parse h hform
  refine ⟨head, body, c, before, b, hbody, hmem, hconsumed, hclose, htext, fun n hn => ?_⟩
  -- The cut leaves out some tokens, and the closing brace is one of them.
  suffices hcut : ∃ front back rest, Text.splitBytes? n text = some (front, back) ∧
      tokenize text = tokenize front ++ (rest ++ b :: c.upcoming) by
    obtain ⟨front, back, rest, hsplit, htext⟩ := hcut
    let T : Truncation := ⟨rest ++ b :: c.upcoming, Text.byteLength front, Text.byteLength text⟩
    have hstart : T.Cursors (cursor cfg text) (cursor cfg front) := by
      refine ⟨?_, rfl, lexed_cursor cfg front⟩
      rw [cursor, htext]
      rfl
    have hlen : c.upcoming.length < (rest ++ b :: c.upcoming).length := by
      rw [List.length_append, List.length_cons]
      omega
    obtain ⟨e, he⟩ := Truncation.fails_parse hstart h hform hbody hlen
    exact ⟨front, back, e, hsplit, he⟩
  rcases List.mem_cons.1 hn with rfl | hn
  · refine ⟨[], text, before, Text.splitBytes?_append [] text, ?_⟩
    rw [Text.tokenize_nil, htext, List.nil_append]
  · obtain ⟨u, hu, rfl⟩ := List.mem_map.1 hn
    obtain ⟨pre, post, rfl⟩ := List.append_of_mem hu
    rw [List.append_assoc, List.cons_append] at htext
    obtain ⟨front, back, hsplit, hfront⟩ := Text.tokenize_of_cut htext (by simp)
    refine ⟨front, back, post, hsplit, ?_⟩
    rw [htext, hfront, List.append_assoc, List.singleton_append]

/-- The brace at byte 46 closes the body. Behind the one at byte 12 the text no longer has the SELECT
by which a sub-select is told from a group. -/
theorem truncated_of_parse_subSelect :
    let text := "SELECT ?x \x7b \x7b SELECT ?y \x7b ?y a ?z \x7d LIMIT 1 \x7d \x7d ORDER BY ?x".toList
    ∃ q before b after, parse {} text = .ok q ∧ b.span = ⟨46, 47⟩ ∧
      tokenize text = before ++ b :: after ∧
      ∀ n ∈ 0 :: before.map (·.span.last), ∃ front back e,
        Text.splitBytes? n text = some (front, back) ∧ parse {} front = .error e ∧
        e.found = ParseError.endOfInput ∧
        e.span = ⟨Text.byteLength front, Text.byteLength front⟩ := by
  intro text
  obtain ⟨q, hq⟩ := exists_eq_ok (x := parse {} text) (by decide +kernel)
  have hform : (parse {} text).toOption.all fun q => q.form = .select := by decide +kernel
  rw [hq] at hform
  have hform : q.form = .select := of_decide_eq_true hform
  obtain ⟨head, body, c, before, b, hbody, -, hlast, -, htext, hcut⟩ :=
    truncated_of_parse hq (by rw [hform]; decide)
  have hplace : (readFormBody {} text).toOption.all fun r =>
      r.2.consumed.head?.all fun b => b.span = ⟨46, 47⟩ := by decide +kernel
  rw [hbody] at hplace
  change c.consumed.head?.all _ = true at hplace
  rw [hlast] at hplace
  exact ⟨q, before, b, c.upcoming, hq, of_decide_eq_true hplace, htext, hcut⟩

end Query

end SparqlTree
