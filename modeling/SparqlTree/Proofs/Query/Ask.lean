import SparqlTree.Proofs.Query.Fork
import SparqlTree.Proofs.Query.Truncation

/-!
# ASK queries end with their body

Nothing behind the brace that closes the body of an ASK query is read. So the query stays the same,
but for the text that it remembers, if other text is put behind it or directly behind that brace
(`Query.parse_ask_append`). Strings may be opened there, or words continued that are no part of it.
-/

namespace SparqlTree

open Text (Divides)

variable {cfg : Config} {text : Text}

/-! ## 1. The reading of an ASK query -/

namespace Draft

/-- How the text of an ASK query is read: the clauses in front of the form, up to the cursor `c`;
its head, up to `c₁`; and its body, up to `c₂`. -/
structure Asked (cfg : Config) (text : Text) (d : Draft) (graph : Option Text)
    (body : List Statement) (c c₁ c₂ : Cursor) : Prop where
  first : readToForm cfg (Query.cursor cfg text) = .ok (d, c)
  formless : d.Formless
  keyword : ∃ t, c.peek = some t ∧ Keyword.ofText? t.text = some .ask
  head : readHead .ask c.pass = .ok ((.ask, graph), c₁)
  body : readBody cfg Head.ask.bodyStyle c₁ = .ok (body, c₂)

/-- The query that such a draft becomes. -/
def asked (d : Draft) (graph : Option Text) (body : List Statement) (text : Text) : Query where
  base := d.base
  prefixes := d.prefixes
  form := .ask
  graph := graph.or d.graph
  statements := d.statements ++ [.block .ask body]
  source := text

variable {d : Draft} {graph : Option Text} {body : List Statement} {c c₁ c₂ : Cursor}

/-- Behind a form that ends the query nothing is read. -/
theorem repeatStep_of_complete (h : d.complete = true) (c : Cursor) :
    Cursor.repeatStep (step cfg) (step_productive cfg) d c = .ok (d, c) := by
  rw [Cursor.repeatStep_eq, step, if_pos h]
  rfl

theorem readHead_ask {r : Head × Option Text} (h : readHead .ask c = .ok (r, c₁)) :
    r.1 = .ask := by
  obtain ⟨⟨dataset, c'⟩, -, h⟩ := bind_eq_ok.1 h
  obtain ⟨c'', -, h⟩ := bind_eq_ok.1 h
  obtain ⟨rfl, -⟩ := Prod.mk.inj (Except.ok.inj h)
  rfl

namespace Asked

variable (h : Asked cfg text d graph body c c₁ c₂)

include h

/-- Nothing has to close an ASK query behind its body, and no clause may follow. -/
theorem parse : Query.parse cfg text = .ok (d.asked graph body text) := by
  obtain ⟨t, hp, hk⟩ := h.keyword
  have hblock : Head.ask.readBlock cfg c₁ = .ok (.block .ask body, c₂) := by
    rw [Head.readBlock, h.body]
    rfl
  have hform : readForm cfg .ask d c = .ok
      ({ d.addForm .ask true (.block .ask body) with graph := graph.or d.graph }, c₂) := by
    rw [readForm_eq (by decide) h.formless.1, h.head]
    show Head.ask.readBlock cfg c₁ >>= _ = _
    rw [hblock]
    rfl
  rw [Query.parse_eq_bind, h.first]
  show Query.parseFrom cfg text d c = _
  rw [Query.parseFrom, Cursor.repeatStep_eq, step_of_form h.formless hp hk (by decide), hform]
  show Cursor.repeatStep (step cfg) (step_productive cfg) _ _ >>= _ = _
  rw [repeatStep_of_complete rfl]
  rfl

theorem readFormBody : Query.readFormBody cfg text = .ok (body, c₂) := by
  obtain ⟨t, hp, hk⟩ := h.keyword
  rw [Query.readFormBody_eq h.first hp hk, h.head]
  exact h.body

end Asked

end Draft

namespace Query

theorem exists_asked_of_parse {q : Query} (h : parse cfg text = .ok q) (hform : q.form = .ask) :
    ∃ d graph body c c₁ c₂, Draft.Asked cfg text d graph body c c₁ c₂ ∧
      q = d.asked graph body text := by
  obtain ⟨d, c, t, k, r, d', c', hfirst, hd, hp, hk, hmem, hask, -, hread, -, -⟩ :=
    exists_form_of_parse h (by rw [hform]; decide)
  obtain rfl : k = .ask := by
    rw [hform] at hask
    simp only [Draft.formKeywords, List.mem_cons, List.not_mem_nil, or_false] at hmem
    rcases hmem with rfl | rfl | rfl | rfl
    · exact absurd hask (by decide)
    · exact absurd hask (by decide)
    · exact absurd hask (by decide)
    · rfl
  rw [Draft.readForm_eq hmem hd.1] at hread
  obtain ⟨⟨⟨head, graph⟩, c₁⟩, hhead, hread⟩ := bind_eq_ok.1 hread
  obtain rfl : head = .ask := Draft.readHead_ask hhead
  obtain ⟨⟨s, c₃⟩, hblock, -⟩ := bind_eq_ok.1 hread
  obtain ⟨⟨body, c₂⟩, hbody, -⟩ := bind_eq_ok.1 hblock
  have hasked : Draft.Asked cfg text d graph body c c₁ c₂ := ⟨hfirst, hd, ⟨t, hp, hk⟩, hhead, hbody⟩
  exact ⟨d, graph, body, c, c₁, c₂, hasked, Except.ok.inj (h.symm.trans hasked.parse)⟩

end Query

/-! ## 2. What stands behind the closing brace -/

/-- Two texts with a common beginning are read as the same ASK query if the brace that closes the
body belongs to it. -/
theorem Draft.Asked.behind {d : Draft} {graph : Option Text} {body : List Statement}
    {c c₁ c₂ : Cursor} {front s₁ s₂ : Text}
    (h : Asked cfg (front ++ s₁) d graph body c c₁ c₂) (h₁ : Divides front s₁)
    (h₂ : Divides front s₂) (hno : ¬ (Ending.behind front s₁).Consumed c₂) :
    ∃ c c₁ c₂, Asked cfg (front ++ s₂) d graph body c c₁ c₂ := by
  let K := Fork.behind front s₁ s₂
  -- No earlier cursor is past the beginning, since the ones that follow it would be, too.
  have hno₁ : ¬ K.left.Past c₁ := by
    intro hpast
    have hlevel : K.Level (.past K.left) c₁ c₁ := ⟨rfl, hpast⟩
    have hbody := hlevel.readBody cfg Head.ask.bodyStyle
    rw [h.body] at hbody
    exact hno (hbody.of_ok.2.consumed _ rfl)
  have hno₀ : ¬ K.left.Past c := by
    intro hpast
    have hlevel : K.Level (.past K.left) c.pass c.pass := ⟨rfl, (hpast.advance _).advance 1⟩
    have hhead := hlevel.readHead .ask
    rw [h.head] at hhead
    exact hno₁ hhead.of_ok.2.level.2
  obtain ⟨t, hp, hk⟩ := h.keyword
  have hfirst : K.Follows K.Same .within (readToForm cfg (Query.cursor cfg (front ++ s₁)))
      (readToForm cfg (Query.cursor cfg (front ++ s₂))) := (Fork.level_behind cfg h₁ h₂).readToForm
  rw [h.first] at hfirst
  obtain ⟨⟨_, c'⟩, hfirst', rfl, hc⟩ := hfirst.exists_ok fun hr => hno₀ hr.2.2
  have hfacing := hc.facing hno₀
  have hp' : c'.peek = some t := hfacing.peek_eq.symm.trans hp
  have hhead := (hfacing.pass hp').level.readHead .ask
  rw [h.head] at hhead
  obtain ⟨⟨_, c₁'⟩, hhead', rfl, hc₁⟩ := hhead.exists_ok fun hr => hno₁ hr.2.level.2
  have hbody := hc₁.level.readBody cfg Head.ask.bodyStyle
  rw [h.body] at hbody
  obtain ⟨⟨_, c₂'⟩, hbody', rfl, -⟩ := hbody.exists_ok fun hr => hno (hr.2.consumed _ rfl)
  exact ⟨c', c₁', c₂', hfirst', h.formless, ⟨t, hp', hk⟩, hhead', hbody'⟩

namespace Query

/-- An ASK query is decided by the brace that closes its body: whatever is put behind the text, or
in the place of what stands behind that brace, only the text that the query remembers is
another. -/
theorem parse_ask_append {q : Query} (h : parse cfg text = .ok q) (hform : q.form = .ask) :
    ∃ body c before b front back, readFormBody cfg text = .ok (body, c) ∧
      .block .ask body ∈ q.statements ∧ c.consumed.head? = some b ∧ b.kind = .closeBrace ∧
      tokenize text = before ++ b :: c.upcoming ∧
      Text.splitBytes? b.span.last text = some (front, back) ∧
      ∀ s, parse cfg (text ++ s) = .ok { q with source := text ++ s } ∧
        parse cfg (front ++ s) = .ok { q with source := front ++ s } := by
  obtain ⟨d, graph, body, c, c₁, c₂, hasked, rfl⟩ := exists_asked_of_parse h hform
  obtain ⟨_, _, _, before, b, hbody, -, hconsumed, hclose, htokens⟩ :=
    readFormBody_of_parse h (by rw [hform]; decide)
  obtain ⟨rfl, rfl⟩ := Prod.mk.injEq .. ▸ Except.ok.inj (hasked.readFormBody.symm.trans hbody)
  have hb : b ∈ tokenize text := by
    rw [htokens]
    simp
  have hbrace : b.text = ['\x7d'] := by
    rw [Text.kind_tokenize hb, Text.classify_eq_closeBrace] at hclose
    exact hclose
  obtain ⟨front, back, hsplit, hlen, rfl, -, -, hall⟩ :=
    Text.tokenize_split htokens (hbrace ▸ .closeBrace)
  -- A brace is no word, so anything may follow it.
  have hdivides : ∀ s, Divides front s := by
    intro s
    apply hall
    intro hword
    have hcontinues := hword '\x7d' (by rw [hbrace]; exact List.mem_singleton_self _)
    exact absurd hcontinues (by decide)
  have hno : ¬ (Ending.behind front back).Consumed c₂ := by
    rintro ⟨t, ht, hlate⟩
    obtain rfl := Option.some.inj (hconsumed.symm.trans ht)
    have hfirst : Text.byteLength front ≤ b.span.first := hlate.1
    have := (Recut.refl.first_lt_last hb).1
    omega
  have hfront : ∀ s, parse cfg (front ++ s) = .ok (d.asked graph body (front ++ s)) := by
    intro s
    obtain ⟨_, _, _, hs⟩ := hasked.behind (hdivides back) (hdivides s) hno
    exact hs.parse
  have hmem : .block .ask body ∈ (d.asked graph body (front ++ back)).statements := by
    simp [Draft.asked]
  refine ⟨body, c₂, before, b, front, back, hbody, hmem, hconsumed, hclose, htokens, hsplit,
    fun s => ⟨?_, hfront s⟩⟩
  rw [List.append_assoc]
  exact hfront (back ++ s)

/-- The word behind the brace may become a keyword, and a string may begin there. -/
theorem parse_ask_append_word :
    let text := "PREFIX e: <http://e/> ASK \x7b ?s a ?o \x7d LIM".toList
    let front := "PREFIX e: <http://e/> ASK \x7b ?s a ?o \x7d".toList
    ∃ q, parse {} text = .ok q ∧ q.form = .ask ∧
      ∀ s, parse {} (text ++ s) = .ok { q with source := text ++ s } ∧
        parse {} (front ++ s) = .ok { q with source := front ++ s } := by
  intro text front
  obtain ⟨q, hq⟩ := exists_eq_ok (x := parse {} text) (by decide +kernel)
  have hform : (parse {} text).toOption.all fun q => q.form = .ask := by decide +kernel
  rw [hq] at hform
  have hform : q.form = .ask := of_decide_eq_true hform
  obtain ⟨body, c, before, b, front', back, hbody, -, hlast, -, -, hsplit, hall⟩ :=
    parse_ask_append hq hform
  have hplace : (readFormBody {} text).toOption.all fun r =>
      r.2.consumed.head?.all fun b => b.span = ⟨36, 37⟩ := by decide +kernel
  rw [hbody] at hplace
  change c.consumed.head?.all _ = true at hplace
  rw [hlast] at hplace
  have hspan : b.span = ⟨36, 37⟩ := of_decide_eq_true hplace
  have hfront : Text.splitBytes? 37 text = some (front, " LIM".toList) := by decide +kernel
  rw [hspan] at hsplit
  obtain ⟨rfl, -⟩ := Prod.mk.injEq .. ▸ Option.some.inj (hsplit.symm.trans hfront)
  exact ⟨q, hq, hform, hall⟩

end Query

end SparqlTree
