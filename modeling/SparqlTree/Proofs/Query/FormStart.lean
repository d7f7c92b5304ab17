import SparqlTree.Proofs.Query.Shape

/-!
# Where the form of a query begins

The clauses of a query are read in two stretches: those in front of the keyword that gives the
query its form (`Draft.readToForm`), and the others (`Draft.repeatStep_eq_bind`). In the first
stretch no form is found. A query other than an update was read by a second stretch that begins with
the form itself, whose head is read by `Draft.readHead` (`Query.exists_form_of_parse`).
-/

namespace SparqlTree

namespace Draft

/-! ## 1. Up to the form -/

/-- The keywords behind which a query has a form. -/
def givesForm (k : Keyword) : Bool := (formKeywords ++ [Keyword.insert, .delete]).contains k

/-- True if such a keyword comes next. -/
def atForm (c : Cursor) : Bool := c.peek.any fun t => (Keyword.ofText? t.text).any givesForm

/-- Reads one clause, or declines at the keyword that gives the query its form. -/
def stepToForm (cfg : Config) : Cursor.Step Draft := fun d c =>
  if atForm c then pure none else step cfg d c

theorem stepToForm_productive (cfg : Config) : (stepToForm cfg).Productive := by
  intro d c d' c' h
  unfold stepToForm at h
  split at h
  · nomatch h
  · exact step_productive cfg d c d' c' h

/-- Reads the clauses in front of the keyword that gives the query its form. -/
def readToForm (cfg : Config) (c : Cursor) : Except ParseError (Draft × Cursor) :=
  Cursor.repeatStep (stepToForm cfg) (stepToForm_productive cfg) {} c

/-- All clauses are the ones up to the form, and the ones from there on. -/
theorem repeatStep_eq_bind (cfg : Config) (d : Draft) (c : Cursor) :
    Cursor.repeatStep (step cfg) (step_productive cfg) d c =
      Cursor.repeatStep (stepToForm cfg) (stepToForm_productive cfg) d c >>= fun r =>
        Cursor.repeatStep (step cfg) (step_productive cfg) r.1 r.2 := by
  induction c using Cursor.size_induction generalizing d with
  | ind c ih =>
    rw [Cursor.repeatStep_eq (stepToForm cfg), stepToForm]
    split
    · rfl
    · rw [Cursor.repeatStep_eq]
      cases hx : step cfg d c with
      | error e => rfl
      | ok r =>
        cases r with
        | none =>
          show _ = Cursor.repeatStep (step cfg) (step_productive cfg) d c
          rw [Cursor.repeatStep_eq, hx]
        | some r => exact ih r.2 (step_productive cfg d c r.1 r.2 hx) r.1

variable {cfg : Config} {d d' : Draft} {c c' : Cursor} {k : Keyword}

/-- What clauses have to do with the form: the others keep it, and where a form begins there was
none, or it is an update behind updates. -/
theorem form_of_readClause (h : readClause cfg k d c = .ok (d', c')) :
    givesForm k = false ∧ d'.form = d.form ∧ d'.complete = d.complete ∨
      givesForm k = true ∧
        (d.form = none ∨ d.form = some .update ∧ d'.form = some .update) := by
  cases readClause_cases h with
  | prefixDecl | base | fromClause | withGraph | whereClause => exact .inl ⟨rfl, rfl, rfl⟩
  | select hform | describe hform | construct hform | ask hform => exact .inr ⟨rfl, .inl hform⟩
  | insert hform | delete hform => exact .inr ⟨rfl, hform.imp_right (⟨·, rfl⟩)⟩

/-- A form that was found stays. -/
theorem form_of_repeatStep {form : QueryForm} (hd : d.form = some form)
    (h : Cursor.repeatStep (step cfg) (step_productive cfg) d c = .ok (d', c')) :
    d'.form = some form := by
  refine (Cursor.repeatStep_invariant (P := fun d _ => d.form = some form)
    (fun {d c d' c'} hd hstep => ?_) hd h).1
  obtain ⟨-, t, -, ⟨-, hsame, -⟩ | ⟨k, -, hread⟩⟩ := step_cases hstep
  · exact hsame ▸ hd
  · rcases form_of_readClause hread with ⟨-, hform, -⟩ | ⟨-, hnone | ⟨hform, hform'⟩⟩
    · exact hform.trans hd
    · rw [hd] at hnone
      nomatch hnone
    · exact hform'.trans (hform.symm.trans hd)

/-- True of drafts for which no form was found. -/
def Formless (d : Draft) : Prop := d.form = none ∧ d.complete = false

theorem Formless.stepToForm (hd : d.Formless)
    (h : Draft.stepToForm cfg d c = .ok (some (d', c'))) : d'.Formless := by
  unfold Draft.stepToForm at h
  split at h
  · nomatch h
  · next hat =>
    obtain ⟨-, t, hp, ⟨-, rfl, -⟩ | ⟨k, hk, hread⟩⟩ := step_cases h
    · exact hd
    · rcases form_of_readClause hread with ⟨-, hform, hcomplete⟩ | ⟨hgives, -⟩
      · exact ⟨hform.trans hd.1, hcomplete.trans hd.2⟩
      · refine absurd ?_ hat
        rw [atForm, hp, Option.any_some, hk, Option.any_some, hgives]

/-- The first stretch ends at the keyword that gives the form or with the text. -/
theorem Formless.repeatStep (hd : d.Formless)
    (h : Cursor.repeatStep (Draft.stepToForm cfg) (stepToForm_productive cfg) d c =
      .ok (d', c')) : d'.Formless ∧ (atForm c' = true ∨ Draft.step cfg d' c' = .ok none) := by
  obtain ⟨hd', hend⟩ := Cursor.repeatStep_invariant (P := fun d _ => d.Formless)
    Formless.stepToForm hd h
  refine ⟨hd', ?_⟩
  unfold Draft.stepToForm at hend
  split at hend
  · next hat => exact .inl hat
  · exact .inr hend

/-! ## 2. The form -/

/-- The form that a keyword begins. -/
def formOf : Keyword → QueryForm
  | .select => .select
  | .construct => .construct
  | .describe => .describe
  | _ => .ask

/-- Reads the head of a query form behind its keyword, up to the opening brace of its body; and the
graph that the query has from it. -/
def readHead (k : Keyword) (c : Cursor) : Except ParseError ((Head × Option Text) × Cursor) := do
  match k with
  | .select =>
    let (p, c) ← Projection.read false c
    pure ((.select p, none), c)
  | .describe =>
    let (p, c) ← Projection.read false c
    pure ((.describe p, none), c)
  | .construct =>
    let (head, c) ← Head.readConstruct c
    pure ((head, none), c)
  | _ =>
    let (dataset, c) ← readDataset? c
    let c ← Head.readOptionalWhere c
    pure ((.ask, dataset.map Prod.fst), c)

/-- A form is read in two parts: its head, and the block with its body. -/
theorem readForm_eq (hk : k ∈ formKeywords) (hd : d.form = none) (c : Cursor) :
    readForm cfg k d c = readHead k c.pass >>= fun r => r.1.1.readBlock cfg r.2 >>= fun s =>
      pure ({ d.addForm (formOf k) (k != .select) s.1 with graph := r.1.2.or d.graph }, s.2) := by
  have hnone : ¬ d.form.isSome = true := by rw [hd]; decide
  simp only [formKeywords, List.mem_cons, List.not_mem_nil, or_false] at hk
  rcases hk with rfl | rfl | rfl | rfl
  all_goals
    unfold readForm readHead
    rw [if_neg hnone]
    simp only [bind_assoc, pure_bind]
    rfl

theorem formOf_of_readForm (hk : k ∈ formKeywords) (h : readForm cfg k d c = .ok (d', c')) :
    d'.form = some (formOf k) := by
  rw [readForm_eq hk (form_of_readForm h)] at h
  obtain ⟨r, -, h⟩ := bind_eq_ok.1 h
  obtain ⟨s, -, h⟩ := bind_eq_ok.1 h
  obtain ⟨rfl, -⟩ := Prod.mk.inj (Except.ok.inj h)
  rfl

theorem readClause_of_form (hk : k ∈ formKeywords) (d : Draft) (c : Cursor) :
    readClause cfg k d c = readForm cfg k d c := by
  simp only [formKeywords, List.mem_cons, List.not_mem_nil, or_false] at hk
  rcases hk with rfl | rfl | rfl | rfl
  all_goals rfl

/-- At the keyword of a form the next step is to read the form. -/
theorem step_of_form (hd : d.Formless) {t : Token} (hp : c.peek = some t)
    (ht : Keyword.ofText? t.text = some k) (hk : k ∈ formKeywords) :
    step cfg d c = readForm cfg k d c >>= fun r => pure (some r) := by
  rw [step_of_keyword hd.2 hp ht, readClause_of_form hk]

/-- A keyword that gives a form and begins no query form begins an update. -/
theorem update_of_givesForm (h : givesForm k = true) (hk : k ∉ formKeywords) :
    k = .insert ∨ k = .delete := by
  rw [givesForm, List.contains_iff_mem, List.mem_append] at h
  have hupdate := h.resolve_left hk
  rwa [List.mem_cons, List.mem_singleton] at hupdate

/-- The keywords that give a form are those of the forms, and those of updates. -/
theorem form_or_update (hk : givesForm k = true) : k ∈ formKeywords ∨
    ∀ {d d' : Draft} {c c' : Cursor}, readClause cfg k d c = .ok (d', c') →
      d'.form = some .update := by
  by_cases hmem : k ∈ formKeywords
  · exact .inl hmem
  · refine .inr fun {d d' c c'} h => ?_
    cases readClause_cases h with
    | insert | delete => rfl
    | prefixDecl | base | fromClause | withGraph | whereClause => exact absurd hk (by decide)
    | select | describe | construct | ask => exact absurd (by decide) hmem

end Draft

namespace Query

variable {cfg : Config} {text : Text} {q : Query}

/-- A query that is no update was read up to the keyword of its form, and on from there. -/
theorem exists_form_of_parse (h : parse cfg text = .ok q) (hform : q.form ≠ .update) :
    ∃ d c t k r d' c', Draft.readToForm cfg (cursor cfg text) = .ok (d, c) ∧ d.Formless ∧
      c.peek = some t ∧ Keyword.ofText? t.text = some k ∧ k ∈ Draft.formKeywords ∧
      q.form = Draft.formOf k ∧ Draft.step cfg d c = .ok (some r) ∧
      Draft.readForm cfg k d c = .ok r ∧
      Cursor.repeatStep (Draft.step cfg) (Draft.step_productive cfg) r.1 r.2 = .ok (d', c') ∧
      d'.query? text = some q := by
  obtain ⟨d', c', hread, hq⟩ := exists_draft_of_parse h
  obtain ⟨form, hd', rfl⟩ := Option.map_eq_some_iff.1 hq
  have hform : form ≠ .update := hform
  rw [Draft.read, Draft.repeatStep_eq_bind] at hread
  obtain ⟨⟨d, c⟩, hfirst, hread⟩ := bind_eq_ok.1 hread
  have hstart : Draft.Formless {} := ⟨rfl, rfl⟩
  obtain ⟨hd, hend⟩ := hstart.repeatStep hfirst
  rw [Cursor.repeatStep_eq] at hread
  obtain ⟨r, hr, hread⟩ := bind_eq_ok.1 hread
  cases r with
  -- Without another step the draft would be left without a form.
  | none =>
    obtain ⟨rfl, -⟩ := Prod.mk.inj (Except.ok.inj hread)
    rw [hd.1] at hd'
    nomatch hd'
  | some r =>
    rcases hend with hat | hnone
    · obtain ⟨t, hp, hat⟩ := Option.any_eq_true _ _ |>.1 hat
      obtain ⟨k, hk, hgives⟩ := Option.any_eq_true _ _ |>.1 hat
      obtain ⟨-, u, hu, ⟨hsemi, -⟩ | ⟨j, hj, hclause⟩⟩ := Draft.step_cases hr
      · obtain rfl := Option.some.inj (hp.symm.trans hu)
        exact absurd hsemi (Draft.ne_semicolon_of_keyword hk)
      obtain rfl := Option.some.inj (hp.symm.trans hu)
      obtain rfl := Option.some.inj (hk.symm.trans hj)
      have hkeep : ∀ f, r.1.form = some f → form = f := fun f hf =>
        Option.some.inj (hd'.symm.trans (Draft.form_of_repeatStep hf hread))
      rcases Draft.form_or_update hgives with hmem | hupdate
      · rw [Draft.readClause_of_form hmem] at hclause
        exact ⟨d, c, t, k, r, d', c', hfirst, hd, hp, hk, hmem,
          hkeep _ (Draft.formOf_of_readForm hmem hclause), hr, hclause, hread, hq⟩
      · exact absurd (hkeep _ (hupdate hclause)) hform
    · rw [hnone] at hr
      nomatch hr

end Query

end SparqlTree
