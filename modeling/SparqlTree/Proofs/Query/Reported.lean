import SparqlTree.Proofs.Grammar.Mentions
import SparqlTree.Proofs.Query.FormPlace

/-!
# Which variables are reported

A query reports the variables of its statements: of projections, of templates, and of the text in
bodies at every depth. The operands of solution modifiers are not among them. So a variable that
stands as a word of its own behind SELECT is reported unless it was read as part of a solution
modifier (`Query.mentioned_of_parse`), and in that case it need not be.
-/

namespace SparqlTree

/-! ## 1. Clauses -/

/-- The variables among the tokens of a block, and those of its head, are mentioned by the
statement that it becomes. -/
theorem Head.readBlock_accounted {cfg : Config} {c c' : Cursor} {head : Head} {s : Statement}
    (hc : c.Lexed) (h : head.readBlock cfg c = .ok (s, c')) : ∃ ws, c.Passed ws c' ∧
      Accounted ws [s] ∧ ∀ name ∈ head.variableNames, Mentioned name [s] := by
  obtain ⟨body, c₁, closed, h₁, h₂, rfl⟩ := Head.readBlock_cases h
  obtain ⟨items, hitems, rfl⟩ := readBody_cases h₁
  obtain ⟨us, p₁, hd, -⟩ := readItems_sound hc hitems
  obtain ⟨vs, p₂, hclose⟩ := Head.took_close p₁.lexed h₂
  refine ⟨_, p₁.trans p₂.toPassed, fun name hname hm => ?_, fun name hmem => ?_⟩
  · simp only [List.mem_append, List.mem_singleton] at hm
    rcases hm with (hm | he) | hm
    · exact (hd.accounted p₁.single name hname hm).block closed
    · nomatch he
    · exact hclose.mentioned hname hm _
  · rw [← hclose.variableNames_eq] at hmem
    exact mentioned_of_head hmem _

namespace Draft

variable {cfg : Config} {start c c' : Cursor} {before : List Statement} {d d' : Draft}

/-- Behind the SELECT of a query, which stands before the cursor `start`: the statements that were
read since mention the variables among the tokens that were consumed since. -/
structure Reports (start : Cursor) (before : List Statement) (d : Draft) (c : Cursor) : Prop where
  form : d.form = some .select
  prologueClosed : d.prologueClosed = true
  complete : d.complete = false
  accounted : ∃ ws ss, start.Passed ws c ∧ d.statements = before ++ ss ∧ Accounted ws ss

/-- The form itself is the first of these statements. -/
theorem reports_of_readForm (hc : c.pass.Lexed) (hd : d.Formless)
    (h : readForm cfg .select d c = .ok (d', c')) : d'.Reports c.pass d.statements c' := by
  rw [readForm_eq (by decide) hd.1] at h
  obtain ⟨⟨⟨head, graph⟩, c₁⟩, h₁, h⟩ := bind_eq_ok.1 h
  obtain ⟨⟨s, c₂⟩, h₂, h⟩ := bind_eq_ok.1 h
  obtain ⟨rfl, rfl⟩ := Prod.mk.inj (Except.ok.inj h)
  obtain ⟨⟨p, c₃⟩, h₃, h₁⟩ := bind_eq_ok.1 h₁
  obtain ⟨he, rfl⟩ := Prod.mk.inj (Except.ok.inj h₁)
  obtain ⟨rfl, -⟩ := Prod.mk.inj he
  obtain ⟨vs, p₁, hproj⟩ := Projection.took_read hc h₃
  obtain ⟨ws, p₂, hws, hhead⟩ := Head.readBlock_accounted p₁.lexed h₂
  refine ⟨rfl, rfl, rfl, _, [s], p₁.toPassed.trans p₂, rfl, fun name hname hm => ?_⟩
  simp only [List.mem_append, List.mem_singleton] at hm
  rcases hm with (hm | he) | hm
  · exact hhead name (hproj.mem_variableNames hname hm)
  · nomatch he
  · exact hws name hname hm

theorem Reports.add (h : d.Reports start before c) {ws : List Text} {ss : List Statement}
    (hp : c.Passed ws c') (hws : Accounted ws ss) (hform : d'.form = d.form)
    (hclosed : d'.prologueClosed = true) (hcomplete : d'.complete = d.complete)
    (hstatements : d'.statements = d.statements ++ ss) : d'.Reports start before c' := by
  obtain ⟨vs, ts, hvs, hts, hacc⟩ := h.accounted
  refine ⟨hform.trans h.form, hclosed, hcomplete.trans h.complete, vs ++ ws, ts ++ ss,
    hvs.trans hp, ?_, hacc.append hws⟩
  rw [hstatements, hts, List.append_assoc]

theorem Reports.readClause {k : Keyword} (h : d.Reports start before c.pass) (hc : c.pass.Lexed)
    (hread : Draft.readClause cfg k d c = .ok (d', c')) : d'.Reports start before c' := by
  have hiri : ∀ {c c₁ : Cursor} {iri : Text}, c.Lexed → c.requireIri = .ok (iri, c₁) →
      ∃ ws, c.Passed ws c₁ ∧ NoVariables ws := fun hc hi =>
    ⟨_, (took_requireIri hc hi).toPassed, List.forall_mem_singleton.2 (head_angled_ne_question _)⟩
  cases readClause_cases hread with
  -- Behind SELECT come no declarations, no other form and no update.
  | prefixDecl hopen | base hopen =>
    rw [h.prologueClosed] at hopen
    nomatch hopen
  | select hnone | describe hnone | construct hnone | ask hnone =>
    exact absurd (h.form.symm.trans hnone) (Option.some_ne_none _)
  | insert hform | delete hform =>
    rw [h.form] at hform
    rcases hform with hform | hform <;> nomatch hform
  | fromClause h₁ =>
    obtain ⟨us, p₁, hus⟩ := took_skip hc .named
    obtain ⟨ws, p₂, hws⟩ := hiri p₁.lexed h₁
    have hno : NoVariables (us ++ ws) :=
      .append (fun w hw => Keyword.head_ne_question (hus w hw)) hws
    exact h.add (p₁.toPassed.trans p₂) hno.accounted rfl h.prologueClosed rfl
      (List.append_nil _).symm
  | withGraph h₁ =>
    obtain ⟨ws, p, hws⟩ := hiri hc h₁
    exact h.add p hws.accounted rfl h.prologueClosed rfl (List.append_nil _).symm
  | whereClause h₁ h₂ =>
    have p₁ := took_readOpenBrace hc h₁
    obtain ⟨ws, p₂, hws, -⟩ := Head.readBlock_accounted p₁.lexed h₂
    have hbrace : NoVariables [['\x7b']] := List.forall_mem_singleton.2 (by decide)
    exact h.add (p₁.toPassed.trans p₂) (hbrace.accounted.append hws) rfl rfl rfl rfl

/-- Each step keeps the variables accounted for. -/
theorem Reports.step (h : c.Lexed ∧ d.Reports start before c)
    (hstep : Draft.step cfg d c = .ok (some (d', c'))) :
    c'.Lexed ∧ d'.Reports start before c' := by
  obtain ⟨hc, h⟩ := h
  refine ⟨lexed_of_step hc hstep, ?_⟩
  obtain ⟨-, t, hp, hcase⟩ := step_cases hstep
  have hpass : t.text.head? ≠ some '?' → d.Reports start before c.pass := fun hne =>
    h.add (hc.passed_pass hp) (NoVariables.accounted (List.forall_mem_singleton.2 hne)) rfl
      h.prologueClosed rfl (List.append_nil _).symm
  rcases hcase with ⟨hsemi, rfl, rfl⟩ | ⟨k, hk, hread⟩
  · exact hpass (by rw [hsemi]; decide)
  · exact (hpass (Keyword.head_ne_question (Keyword.ofText?_eq_some.1 hk))).readClause hc.pass hread

end Draft

/-! ## 2. Texts -/

/-- Nothing is cut off the head of a token that begins with a question mark. -/
theorem Recut.mem_of_question {ts us : List Token} (h : Recut ts us) {u : Token} (hu : u ∈ ts)
    (hq : u.text.head? = some '?') : u ∈ us := by
  induction h with
  | refl => exact hu
  | @cut us vs t head tail w _ htext _ hw hhead _ ih =>
    have hne : u ≠ t := by
      rintro rfl
      obtain ⟨c, rest, rfl⟩ := List.exists_cons_of_ne_nil (ne_nil_of_head hw hhead)
      rw [htext, List.cons_append] at hq
      obtain rfl := Option.some.inj hq
      have hnone : '?' ∉ w := by
        cases hw with
        | stop => decide
        | @keyword k hk => exact k.noQuestion_name
      exact noQuestion_of_sameLetters hhead hnone List.mem_cons_self
    simp only [List.mem_append, List.mem_cons] at ih ⊢
    rcases ih with hu | hu | hu
    · exact .inl hu
    · exact absurd hu hne
    · exact .inr (.inr (.inr hu))

/-- Where the token `t` was consumed, a token behind `t` was not consumed before it. -/
theorem Cursor.Along.not_mem_of_behind {text : Text} {window : Nat} {c : Cursor}
    {before after us vs : List Token} {t u : Token} (h : c.Along text window)
    (htext : tokenize text = before ++ t :: after) (hu : u ∈ after)
    (hc : c.consumed = us ++ t :: vs) : u ∉ t :: vs := by
  intro hmem
  have hbehind : t.span.last ≤ u.span.first := by
    have hordered := Text.ordered_tokenize text
    rw [htext] at hordered
    exact (List.pairwise_cons.1 (List.pairwise_append.1 hordered).2.1).1 u hu
  have hwhole : c.whole = vs.reverse ++ t :: (us.reverse ++ c.upcoming) := by
    rw [Cursor.whole, hc]
    simp
  have hrecut := h.recut
  rw [hwhole] at hrecut
  have ht := hrecut.first_lt_last (u := t) (by simp)
  rcases List.mem_cons.1 hmem with rfl | hmem
  · omega
  · have hvs := (List.pairwise_append.1 hrecut.ordered).2.2 u (List.mem_reverse.2 hmem) t (by simp)
    have := hrecut.first_lt_last (u := u) (by simp [hmem])
    omega

/-- Where no token is left, every variable behind the token `t` was consumed after it. -/
theorem Cursor.Along.mem_of_behind {text : Text} {window : Nat} {c : Cursor}
    {before after us vs : List Token} {t u : Token} (h : c.Along text window)
    (hend : c.peek = none) (htext : tokenize text = before ++ t :: after) (hu : u ∈ after)
    (hq : u.text.head? = some '?') (hc : c.consumed = us ++ t :: vs) : u ∈ us := by
  have hmem : u ∈ tokenize text := by simp [htext, hu]
  rcases List.mem_append.1 (h.recut.mem_of_question hmem hq) with hpast | hup
  · rw [List.mem_reverse, hc, List.mem_append] at hpast
    exact hpast.resolve_right (h.not_mem_of_behind htext hu hc)
  · have hbreak := Cursor.isLineBreak_of_peek_eq_none hend u hup
    obtain ⟨name, hname⟩ := List.head?_eq_some_iff.1 hq
    rw [Token.isLineBreak, Text.kind_tokenize hmem, hname] at hbreak
    exact absurd hbreak Bool.false_ne_true

namespace Query

variable {cfg : Config} {text : Text} {q : Query}

/-- Every variable that stands behind the SELECT of a query as a word of its own is reported, unless
a solution modifier mentions it. -/
theorem mentioned_of_parse (h : parse cfg text = .ok q) (hform : q.form = .select) :
    (∃ before t, Keyword.select.spells t.text = true ∧
      tokenize text = before ++ t :: behindForm cfg text) ∧
    ∀ u ∈ behindForm cfg text, ∀ name, IsName name → u.text = '?' :: name →
      name ∈ q.unknowns ∨ ∃ m ∈ Statement.allModifiersAll q.statements, name ∈ m.variableNames := by
  obtain ⟨d, c, t, k, r, d', c', hfirst, hd, hp, hk, hmem, hk', hstep, hread, hrun, hq⟩ :=
    exists_form_of_parse h (by rw [hform]; decide)
  obtain rfl : k = .select := by
    rw [hform] at hk'
    simp only [Draft.formKeywords, List.mem_cons, List.not_mem_nil, or_false] at hmem
    rcases hmem with rfl | rfl | rfl | rfl
    · rfl
    all_goals exact absurd hk' (by decide)
  obtain ⟨before, hbefore⟩ := split_at_form hfirst hp
  have hbehind : behindForm cfg text = c.pass.upcoming := by rw [behindForm, hfirst]
  rw [hbehind]
  refine ⟨⟨before, t, Keyword.ofText?_eq_some.1 hk, hbefore⟩, fun u hu name hname htext => ?_⟩
  -- The run from SELECT on accounts for the tokens that it consumed, which is all of them.
  have hc := (Draft.readToForm_suffix (lexed_cursor cfg text) hfirst).1
  obtain ⟨⟨-, hreports⟩, hend⟩ := Cursor.repeatStep_invariant Draft.Reports.step
    ⟨Draft.lexed_of_step hc hstep, Draft.reports_of_readForm hc.pass hd hread⟩ hrun
  obtain ⟨ws, ss, ⟨-, -, ts, hts, rfl, -⟩, hss, hacc⟩ := hreports.accounted
  have hpeek : c'.peek = none := by
    rcases Draft.step_eq_none hend with hcomplete | hpeek
    · exact absurd (hreports.complete.symm.trans hcomplete) Bool.false_ne_true
    · exact hpeek
  have hrun :
      Cursor.repeatStep (Draft.step cfg) (Draft.step_productive cfg) d c = .ok (d', c') := by
    rw [Cursor.repeatStep_eq, hstep]
    exact hrun
  have hconsumed : u ∈ ts := by
    rw [Cursor.consumed_pass_of_peek hp] at hts
    have halong := Draft.along_of_run hfirst hrun
    exact List.mem_reverse.1 (halong.mem_of_behind hpeek hbefore hu (by rw [htext]; rfl) hts)
  have hmentioned : Mentioned name ss :=
    hacc name hname (List.mem_filter.2 ⟨htext ▸ List.mem_map_of_mem hconsumed, rfl⟩)
  obtain ⟨form, -, rfl⟩ := Option.map_eq_some_iff.1 hq
  show Mentioned name d'.statements
  rw [hss]
  exact hmentioned.append_right

/-- The variable of the sub-select's ORDER BY is reported since a pattern has it too. That of the
LIMIT is not, and a modifier has it. -/
theorem mentioned_of_parse_subSelect :
    let text := "SELECT ?x \x7b \x7b SELECT * \x7b ?x a ?y \x7d ORDER BY ?y \x7d \x7d LIMIT ?z".toList
    let q : Query :=
      { form := .select
        statements := [.block (.select { projected := "?x".toList
                                         modifiers := ["LIMIT ?z".toList] })
          [.block (.select { projected := ['*']
                             modifiers := ["ORDER BY ?y".toList]
                             inBlock := true })
            [.simple "?x a ?y".toList]]]
        source := text }
    parse {} text = .ok q ∧ ['y'] ∈ q.unknowns ∧ ['z'] ∉ q.unknowns ∧
      ["?y".toList, "?z".toList] ⊆ (behindForm {} text).map Token.text ∧
      ∀ u ∈ behindForm {} text, ∀ name, IsName name → u.text = '?' :: name →
        name ∈ q.unknowns ∨
          ∃ m ∈ Statement.allModifiersAll q.statements, name ∈ m.variableNames := by
  intro text q
  have hq : parse {} text = .ok q := eq_ok_of_toOption (by decide +kernel)
  exact ⟨hq, by decide +kernel, by decide +kernel, by decide +kernel, (mentioned_of_parse hq rfl).2⟩

/-- A variable that only a solution modifier mentions is not reported. -/
theorem not_mem_unknowns_orderBy :
    let text := "SELECT ?x WHERE \x7b \x7d ORDER BY ?y".toList
    ∃ q, parse {} text = .ok q ∧ q.form = .select ∧
      (∃ u ∈ behindForm {} text, u.kind = .word ∧ u.text = "?y".toList) ∧ IsName ['y'] ∧
      ['y'] ∉ q.unknowns := by
  intro text
  obtain ⟨q, hq⟩ := exists_eq_ok (x := parse {} text) (by decide +kernel)
  have hq' : (parse {} text).toOption.all fun q =>
      q.form = .select ∧ ['y'] ∉ q.unknowns := by decide +kernel
  rw [hq] at hq'
  obtain ⟨hform, hnot⟩ := of_decide_eq_true hq'
  have hletters : ['y'].all isNameChar = true := by decide +kernel
  exact ⟨q, hq, hform, by decide +kernel, ⟨by decide, List.all_eq_true.1 hletters⟩, hnot⟩

end Query

end SparqlTree
