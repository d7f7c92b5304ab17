import SparqlTree.Proofs.Grammar.Remaining
import SparqlTree.Proofs.Query.Onto

/-!
# How updates are read

The clauses of an update request are updates, declarations, graphs and WHERE bodies, with semicolons
between them: a query form among them would be the form of the query
(`Draft.updateRun_of_repeatStep`). Each of them ends with a token that is complete, a brace or an
IRI reference. So an update request leaves no string and no IRI reference open
(`Query.closed_of_update`).
-/

namespace SparqlTree

open Text (isBreak IsToken Closed)

/-! ## 1. Clauses end with complete tokens -/

theorem Text.isToken_semicolon : IsToken [';'] :=
  .word _ (by decide) (List.forall_mem_singleton.2 (by decide))

/-- The cursor stands directly behind a complete token, which was read on the way here from the
cursor `c`. -/
def Completes (c c' : Cursor) : Prop :=
  ∃ t : Token, IsToken t.text ∧ t :: c'.upcoming <:+ c.upcoming

variable {cfg : Config} {c c' c₁ : Cursor}

theorem Completes.of_suffix (h : Completes c₁ c') (hs : c₁.upcoming <:+ c.upcoming) :
    Completes c c' := by
  obtain ⟨t, ht, hsuffix⟩ := h
  exact ⟨t, ht, hsuffix.trans hs⟩

theorem Completes.suffix (h : Completes c c') : c'.upcoming <:+ c.upcoming := by
  obtain ⟨t, -, hsuffix⟩ := h
  exact (List.suffix_cons t _).trans hsuffix

theorem BodyClosed.completes {b : Token} (hc : c.Lexed) (h : BodyClosed c b c') :
    Completes c c' := by
  have hkind := hc.kind_of_mem (h.suffix.subset List.mem_cons_self)
  rw [h.kind] at hkind
  refine ⟨b, ?_, h.suffix⟩
  rw [Text.classify_eq_closeBrace.1 hkind.symm]
  exact .closeBrace

theorem readBody_completes {style : BodyStyle} {body : List Statement} (hc : c.Lexed)
    (h : readBody cfg style c = .ok (body, c')) : Completes c c' := by
  obtain ⟨b, hb⟩ := readBody_closed hc h
  exact hb.completes hc

theorem requireIri_completes {iri : Text} (hc : c.Lexed) (h : c.requireIri = .ok (iri, c')) :
    Completes c c' := by
  obtain ⟨-, hiri, -⟩ := requireIri_sound hc h
  obtain ⟨t, hp, rfl, ht⟩ := Cursor.requireIri_eq_ok h
  refine ⟨t, ?_, Cursor.pass_suffix hp⟩
  rw [Token.iri?_eq_some ht]
  exact .iri iri hiri

/-- A keyword that may be glued to a brace is a token of its own in front of one. -/
theorem skipGlued_suffix {k : Keyword} (hc : c.Lexed)
    (h : readOpenBrace (c.skipGlued k) = .ok c') : c'.Lexed ∧ c'.upcoming <:+ c.upcoming := by
  obtain ⟨ws, hp, -⟩ := took_skipGlued_brace hc h
  exact ⟨hp.lexed, hp.suffix⟩

namespace UpdateHead

theorem readAttached?_completes {attached : Option (List Statement)} (hc : c.Lexed)
    (h : readAttached? cfg c = .ok (attached, c')) : c' = c ∨ Completes c c' := by
  obtain ⟨-, -, rfl⟩ | ⟨c₁, c₂, body, hwhere, hbrace, hbody, -⟩ := readAttached?_cases h
  · exact .inl rfl
  · have hskip : readOpenBrace (c.skipGlued .whereClause) = .ok c₂ := by
      rwa [Cursor.skipGlued, hwhere]
    obtain ⟨hc₂, hsuffix⟩ := skipGlued_suffix hc hskip
    exact .inr ((readBody_completes hc₂ hbody).of_suffix hsuffix)

theorem read_completes {operation : Operation} {s : Statement} (hc : c.Lexed)
    (h : read cfg operation c = .ok (s, c')) : Completes c c' := by
  obtain ⟨c₁, template, c₂, attached, hbrace, htemplate, -, hattached, -⟩ := read_cases h
  obtain ⟨hc₁, hsuffix⟩ := skipGlued_suffix hc hbrace
  -- The brace that closes the template is the last token unless a WHERE body is attached.
  have hclosed := (readBody_completes hc₁ htemplate).of_suffix hsuffix
  obtain ⟨items, hitems, -⟩ := readBody_cases htemplate
  obtain ⟨_, hpassed, -⟩ := readItems_sound hc₁ hitems
  rcases readAttached?_completes hpassed.lexed hattached with rfl | hwhere
  · exact hclosed
  · exact hwhere.of_suffix hclosed.suffix

end UpdateHead

namespace Draft

variable {d d' d₁ : Draft} {k : Keyword} {t : Token}

theorem readPrefix_completes {label iri : Text} (hc : c.Lexed)
    (h : readPrefix c = .ok (label, iri, c')) : Completes c c' := by
  obtain ⟨t, c₁, hlabel, hcase⟩ := readPrefix_cases h
  obtain ⟨p₁, -⟩ := hc.expect_eq_ok hlabel
  obtain ⟨-, -, hiri⟩ | ⟨u, c₂, -, hcolon, hiri⟩ := hcase
  · exact (requireIri_completes p₁.lexed hiri).of_suffix p₁.suffix
  · have p₂ := p₁.trans (p₁.lexed.require_eq_ok hcolon).1
    exact (requireIri_completes p₂.lexed hiri).of_suffix p₂.suffix

/-- Every clause but a query form ends with a complete token. -/
theorem readClause_completes (hc : c.pass.Lexed) (hk : k ∉ formKeywords)
    (h : readClause cfg k d c = .ok (d', c')) : Completes c.pass c' := by
  cases readClause_cases h with
  | prefixDecl _ hread => exact readPrefix_completes hc hread
  | base _ hiri | withGraph hiri => exact requireIri_completes hc hiri
  | fromClause hiri =>
    obtain ⟨_, p, -⟩ := took_skip hc .named
    exact (requireIri_completes p.lexed hiri).of_suffix p.suffix
  | select | describe | construct | ask => exact absurd (by decide) hk
  | insert _ hread | delete _ hread => exact UpdateHead.read_completes hc hread
  | whereClause hbrace hblock =>
    obtain ⟨body, c₁, closed, hbody, hclose, -⟩ := Head.readBlock_cases hblock
    obtain ⟨-, rfl⟩ := Prod.mk.inj (Except.ok.inj hclose)
    have p := took_readOpenBrace hc hbrace
    exact (readBody_completes p.lexed hbody).of_suffix p.suffix

/-! ## 2. The clauses of an update request -/

/-- The clauses that are read from one draft and cursor to others, at the end of the text: none of
them is a query form. -/
inductive UpdateRun (cfg : Config) : Draft → Cursor → Draft → Cursor → Prop
  | done {d : Draft} {c : Cursor} : c.peek = none → UpdateRun cfg d c d c
  | semicolon {d d' : Draft} {c c' : Cursor} {t : Token} : c.peek = some t → t.text = [';'] →
    UpdateRun cfg d c.pass d' c' → UpdateRun cfg d c d' c'
  | clause {d d₁ d' : Draft} {c c₁ c' : Cursor} {t : Token} {k : Keyword} : c.peek = some t →
    Keyword.ofText? t.text = some k → k ∉ formKeywords →
    readClause cfg k d c = .ok (d₁, c₁) → UpdateRun cfg d₁ c₁ d' c' → UpdateRun cfg d c d' c'

/-- Only a query form can complete a draft. -/
theorem incomplete_of_readClause (hk : k ∉ formKeywords) (hd : d.complete = false)
    (h : readClause cfg k d c = .ok (d', c')) : d'.complete = false := by
  cases readClause_cases h with
  | prefixDecl | base | fromClause | withGraph | whereClause => exact hd
  | insert | delete => rfl
  | select | describe | construct | ask => exact absurd (by decide) hk

theorem UpdateRun.incomplete (h : UpdateRun cfg d c d' c') (hd : d.complete = false) :
    d'.complete = false := by
  induction h with
  | done => exact hd
  | semicolon _ _ _ ih => exact ih hd
  | clause _ _ hk hread _ ih => exact ih (incomplete_of_readClause hk hd hread)

theorem UpdateRun.peek_eq_none (h : UpdateRun cfg d c d' c') : c'.peek = none := by
  induction h with
  | done hp => exact hp
  | semicolon _ _ _ ih => exact ih
  | clause _ _ _ _ _ ih => exact ih

theorem UpdateRun.lexed (h : UpdateRun cfg d c d' c') (hc : c.Lexed) : c'.Lexed := by
  induction h with
  | done => exact hc
  | semicolon _ _ _ ih => exact ih hc.pass
  | clause _ _ _ hread _ ih => exact ih (readClause_sound hc.pass (Nat.le_refl _) hread).lexed

/-- A query that was read as updates was read clause by clause, without a form among them. -/
theorem updateRun_of_repeatStep (hd : d.complete = false)
    (h : Cursor.repeatStep (step cfg) (step_productive cfg) d c = .ok (d', c'))
    (hform : d'.form = some .update) : UpdateRun cfg d c d' c' := by
  induction h using Cursor.repeatStep_induction with
  | stop hlast => exact .done ((step_eq_none hlast).resolve_left (Bool.eq_false_iff.1 hd))
  | turn hturn htail _ ih =>
    obtain ⟨-, t, hp, ⟨ht, rfl, rfl⟩ | ⟨k, hk, hread⟩⟩ := step_cases hturn
    · exact .semicolon hp ht (ih hd)
    · have hno : k ∉ formKeywords := by
        intro hmem
        rw [readClause_of_form hmem] at hread
        -- The form would have stayed.
        have hform' := form_of_repeatStep (formOf_of_readForm hmem hread) htail
        exact formOf_ne_update k (Option.some.inj (hform'.symm.trans hform))
      exact .clause hp hk hno hread (ih (incomplete_of_readClause hno hd hread))

/-- Such clauses leave the cursor behind a complete token, if it has moved. -/
theorem UpdateRun.completes (h : UpdateRun cfg d c d' c') (hc : c.Lexed) :
    c' = c ∨ Completes c c' := by
  induction h with
  | done => exact .inl rfl
  | @semicolon _ _ c c' t hp ht _ ih =>
    have hpass : Completes c c.pass :=
      ⟨t, ht ▸ Text.isToken_semicolon, Cursor.pass_suffix hp⟩
    rcases ih hc.pass with rfl | h
    · exact .inr hpass
    · exact .inr (h.of_suffix hpass.suffix)
  | @clause _ _ _ c c₁ c' t k hp _ hk hread _ ih =>
    have hclause := (readClause_completes hc.pass hk hread).of_suffix (hc.took_pass hp).suffix
    rcases ih (readClause_sound hc.pass (Nat.le_refl _) hread).lexed with rfl | h
    · exact .inr hclause
    · exact .inr (h.of_suffix hclause.suffix)

end Draft

namespace Query

variable {text : Text} {q : Query}

theorem isToken_of_peek_eq_none (hc : c.Lexed) (hp : c.peek = none) :
    ∀ t ∈ c.upcoming, IsToken t.text := by
  intro t ht
  have hbreak : isBreak t.text = true := by
    rw [isBreak, ← hc.kind_of_mem ht]
    exact Cursor.isLineBreak_of_peek_eq_none hp t ht
  rcases Text.isBreak_iff.1 hbreak with h | h
  · exact h ▸ .newline
  · exact h ▸ .carriageReturn

/-- An update request was read to the end of its text. -/
theorem updateRun_of_parse (h : parse cfg text = .ok q) (hq : q.form = .update) :
    ∃ d c, Draft.read cfg (cursor cfg text) = .ok (d, c) ∧
      Draft.UpdateRun cfg {} (cursor cfg text) d c ∧ d.query? text = some q ∧
        d.form = some .update := by
  obtain ⟨d, c, hread, hquery⟩ := exists_draft_of_parse h
  obtain ⟨form, hform, rfl⟩ := Option.map_eq_some_iff.1 hquery
  have hd : d.form = some .update := hform.trans (congrArg some hq)
  exact ⟨d, c, hread, Draft.updateRun_of_repeatStep rfl hread hd, hquery, hd⟩

/-- An update request leaves no string and no IRI reference open. -/
theorem closed_of_update (h : parse cfg text = .ok q) (hq : q.form = .update) : Closed text := by
  obtain ⟨d, c, -, hrun, -, -⟩ := updateRun_of_parse h hq
  have hlexed := lexed_cursor cfg text
  have hend := isToken_of_peek_eq_none (hrun.lexed hlexed) hrun.peek_eq_none
  intro w hw
  obtain ⟨u, hu, rfl⟩ := List.mem_map.1 hw
  rcases hrun.completes hlexed with rfl | ⟨t, ht, before, hbefore⟩
  · exact hend u hu
  · have hbefore : tokenize text = before ++ t :: c.upcoming := hbefore.symm
    have hscan := Text.scanned_tokens text
    rw [Text.tokens, hbefore, List.map_append] at hscan
    rw [hbefore, List.mem_append, List.mem_cons] at hu
    rcases hu with hu | rfl | hu
    · exact hscan.forall_of_append (List.cons_ne_nil _ _) _ (List.mem_map_of_mem hu)
    · exact ht
    · exact hend u hu

end Query

end SparqlTree
