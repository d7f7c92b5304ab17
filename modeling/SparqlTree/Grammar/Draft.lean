import SparqlTree.Grammar.Update
import SparqlTree.Query.Basic

/-!
# Drafts

A query is read clause by clause into a draft. Declarations come first; then a query form, updates,
or WHERE bodies. DESCRIBE, CONSTRUCT and ASK end the query: what stands behind them is not read.
-/

namespace SparqlTree

/-- What has been read of a query. -/
structure Draft where
  base : Option Text := none
  prefixes : PrefixMap := ∅
  graph : Option Text := none
  form : Option QueryForm := none
  /-- True once something other than a declaration was read; no PREFIX or BASE may follow. -/
  prologueClosed : Bool := false
  /-- True once a form was read that ends the query. -/
  complete : Bool := false
  statements : List Statement := []

namespace Draft

/-- The draft with one more statement, of a form that lets others follow. -/
def add (d : Draft) (s : Statement) : Draft :=
  { d with prologueClosed := true, statements := d.statements ++ [s] }

/-- The draft with its form and one more statement. -/
def addForm (d : Draft) (form : QueryForm) (complete : Bool) (s : Statement) : Draft :=
  { d.add s with form := some form, complete }

/-- Reads the declaration of a prefix behind its keyword. The colon may be part of the label's
token or stand alone. -/
def readPrefix (c : Cursor) : Except ParseError (Text × Text × Cursor) := do
  let (label, c) ← c.expect .prefixLabel
  if label.text.getLast? = some ':' then
    let (iri, c) ← c.requireIri
    pure (label.text.dropLast, iri, c)
  else
    let (_, c) ← c.require .colon (·.text == [':'])
    let (iri, c) ← c.requireIri
    pure (label.text, iri, c)

/-- Reads a declaration that belongs before the query form. -/
def readDeclaration (k : Keyword) (d : Draft) (c : Cursor) :
    Except ParseError (Draft × Cursor) := do
  if d.prologueClosed then throw (c.errorFound .prologueFirst)
  else if k = .prefixDecl then
    let (label, iri, c) ← readPrefix c.pass
    pure ({ d with prefixes := d.prefixes.insert label iri }, c)
  else
    let (iri, c) ← c.pass.requireIri
    pure ({ d with base := some iri }, c)

/-- Reads a query form. There may be only one. -/
def readForm (cfg : Config) (k : Keyword) (d : Draft) (c : Cursor) :
    Except ParseError (Draft × Cursor) := do
  if d.form.isSome then throw (c.errorFound .singleForm)
  else
    match k with
    | .select =>
      let (p, c) ← Projection.read false c.pass
      let (s, c) ← Head.readBlock cfg (.select p) c
      pure (d.addForm .select false s, c)
    | .describe =>
      let (p, c) ← Projection.read false c.pass
      let (s, c) ← Head.readBlock cfg (.describe p) c
      pure (d.addForm .describe true s, c)
    | .construct =>
      let (head, c) ← Head.readConstruct c.pass
      let (s, c) ← Head.readBlock cfg head c
      pure (d.addForm .construct true s, c)
    | _ =>
      -- A graph named here takes the place of one named before the form.
      let (dataset, c) ← readDataset? c.pass
      let c ← Head.readOptionalWhere c
      let (s, c) ← Head.readBlock cfg .ask c
      pure ({ d.addForm .ask true s with graph := (dataset.map Prod.fst).or d.graph }, c)

/-- Reads an update. It may not follow a query form. -/
def readUpdate (cfg : Config) (operation : Operation) (d : Draft) (c : Cursor) :
    Except ParseError (Draft × Cursor) := do
  if d.form = none ∨ d.form = some .update then
    let (s, c) ← UpdateHead.read cfg operation c.pass
    pure (d.addForm .update false s, c)
  else throw (c.errorFound .noUpdateAfterForm)

/-- Reads the clause that begins with the keyword that comes next. -/
def readClause (cfg : Config) (k : Keyword) (d : Draft) (c : Cursor) :
    Except ParseError (Draft × Cursor) := do
  match k with
  | .prefixDecl | .base => readDeclaration k d c
  | .fromClause =>
    let (graph, c) ← (c.pass.skip .named).requireIri
    pure ({ d with graph := some graph }, c)
  | .withGraph =>
    let (graph, c) ← c.pass.requireIri
    pure ({ d with graph := some graph }, c)
  | .select | .construct | .describe | .ask => readForm cfg k d c
  | .insert => readUpdate cfg .insert d c
  | .delete => readUpdate cfg .delete d c
  | .whereClause =>
    let c ← readOpenBrace c.pass
    let (s, c) ← Head.readBlock cfg .pattern c
    pure (d.add s, c)
  | _ => throw (c.errorFound .queryKeyword)

/-- Reads one clause, or the semicolon between two. Declines at the end of the query. -/
def step (cfg : Config) : Cursor.Step Draft := fun d c =>
  if d.complete then pure none
  else
    match c.peek with
    | none => pure none
    | some t =>
      -- Semicolons are good anywhere between clauses.
      if t.text = [';'] then pure (some (d, c.pass))
      else
        match Keyword.ofText? t.text with
        | none => throw (c.errorFound .queryKeyword)
        | some k => do
          let (d, c) ← readClause cfg k d c
          pure (some (d, c))

/-! ## What can be read -/

/-- The label of a prefix ends with the colon, or the colon stands behind it. -/
theorem readPrefix_cases {c c' : Cursor} {label iri : Text}
    (h : readPrefix c = .ok (label, iri, c')) :
    ∃ t c₁, c.expect .prefixLabel = .ok (t, c₁) ∧
      (t.text.getLast? = some ':' ∧ label = t.text.dropLast ∧ c₁.requireIri = .ok (iri, c') ∨
        ∃ u c₂, label = t.text ∧ c₁.require .colon (·.text == [':']) = .ok (u, c₂) ∧
          c₂.requireIri = .ok (iri, c')) := by
  obtain ⟨⟨t, c₁⟩, h₁, h⟩ := bind_eq_ok.1 h
  refine ⟨t, c₁, h₁, ?_⟩
  dsimp only at h
  split at h
  · next hlast =>
    obtain ⟨⟨i, c₂⟩, h₂, h⟩ := bind_eq_ok.1 h
    obtain ⟨rfl, rfl, rfl⟩ := by simpa [pure, Except.pure] using h
    exact .inl ⟨hlast, rfl, h₂⟩
  · obtain ⟨⟨u, c₂⟩, h₂, h⟩ := bind_eq_ok.1 h
    obtain ⟨⟨i, c₃⟩, h₃, h⟩ := bind_eq_ok.1 h
    obtain ⟨rfl, rfl, rfl⟩ := by simpa [pure, Except.pure] using h
    exact .inr ⟨u, c₂, rfl, h₂, h₃⟩

/-- The clauses that can be read behind a draft. The parts of each are named in the order in which
they are read. -/
inductive ClauseParts (cfg : Config) (d : Draft) (c : Cursor) : Keyword → Draft → Cursor → Prop
  | prefixDecl {label iri : Text} {c' : Cursor} : d.prologueClosed = false →
    readPrefix c.pass = .ok (label, iri, c') →
    ClauseParts cfg d c .prefixDecl { d with prefixes := d.prefixes.insert label iri } c'
  | base {iri : Text} {c' : Cursor} : d.prologueClosed = false →
    c.pass.requireIri = .ok (iri, c') → ClauseParts cfg d c .base { d with base := some iri } c'
  | fromClause {iri : Text} {c' : Cursor} : (c.pass.skip .named).requireIri = .ok (iri, c') →
    ClauseParts cfg d c .fromClause { d with graph := some iri } c'
  | withGraph {iri : Text} {c' : Cursor} : c.pass.requireIri = .ok (iri, c') →
    ClauseParts cfg d c .withGraph { d with graph := some iri } c'
  | select {p : Projection} {s : Statement} {c₁ c' : Cursor} : d.form = none →
    Projection.read false c.pass = .ok (p, c₁) → Head.readBlock cfg (.select p) c₁ = .ok (s, c') →
    ClauseParts cfg d c .select (d.addForm .select false s) c'
  | describe {p : Projection} {s : Statement} {c₁ c' : Cursor} : d.form = none →
    Projection.read false c.pass = .ok (p, c₁) →
    Head.readBlock cfg (.describe p) c₁ = .ok (s, c') →
    ClauseParts cfg d c .describe (d.addForm .describe true s) c'
  | construct {head : Head} {s : Statement} {c₁ c' : Cursor} : d.form = none →
    Head.readConstruct c.pass = .ok (head, c₁) → head.readBlock cfg c₁ = .ok (s, c') →
    ClauseParts cfg d c .construct (d.addForm .construct true s) c'
  | ask {dataset : Option (Text × Bool)} {s : Statement} {c₁ c₂ c' : Cursor} : d.form = none →
    readDataset? c.pass = .ok (dataset, c₁) → Head.readOptionalWhere c₁ = .ok c₂ →
    Head.readBlock cfg .ask c₂ = .ok (s, c') →
    ClauseParts cfg d c .ask
      { d.addForm .ask true s with graph := (dataset.map Prod.fst).or d.graph } c'
  | insert {s : Statement} {c' : Cursor} : d.form = none ∨ d.form = some .update →
    UpdateHead.read cfg .insert c.pass = .ok (s, c') →
    ClauseParts cfg d c .insert (d.addForm .update false s) c'
  | delete {s : Statement} {c' : Cursor} : d.form = none ∨ d.form = some .update →
    UpdateHead.read cfg .delete c.pass = .ok (s, c') →
    ClauseParts cfg d c .delete (d.addForm .update false s) c'
  | whereClause {s : Statement} {c₁ c' : Cursor} : readOpenBrace c.pass = .ok c₁ →
    Head.readBlock cfg .pattern c₁ = .ok (s, c') → ClauseParts cfg d c .whereClause (d.add s) c'

section

variable {cfg : Config} {k : Keyword} {d d' : Draft} {c c' : Cursor}

theorem form_of_readForm (h : readForm cfg k d c = .ok (d', c')) : d.form = none := by
  unfold readForm at h
  split at h
  · nomatch h
  · next hnone => exact Option.not_isSome_iff_eq_none.1 hnone

theorem readUpdate_cases {operation : Operation}
    (h : readUpdate cfg operation d c = .ok (d', c')) :
    (d.form = none ∨ d.form = some .update) ∧
      ∃ s, UpdateHead.read cfg operation c.pass = .ok (s, c') ∧ d' = d.addForm .update false s := by
  unfold readUpdate at h
  split at h
  · next hform =>
    obtain ⟨⟨s, c₁⟩, h₁, h⟩ := bind_eq_ok.1 h
    obtain ⟨rfl, rfl⟩ := Prod.mk.inj (Except.ok.inj h)
    exact ⟨hform, s, h₁, rfl⟩
  · nomatch h

theorem readClause_cases (h : readClause cfg k d c = .ok (d', c')) :
    ClauseParts cfg d c k d' c' := by
  unfold readClause at h
  -- One case for each keyword, in the order in which the function lists them.
  split at h
  · unfold readDeclaration at h
    split at h
    · nomatch h
    next hopen =>
    obtain ⟨⟨label, iri, c₁⟩, h₁, h⟩ := bind_eq_ok.1 h
    obtain ⟨rfl, rfl⟩ := Prod.mk.inj (Except.ok.inj h)
    exact .prefixDecl (Bool.eq_false_iff.2 hopen) h₁
  · unfold readDeclaration at h
    split at h
    · nomatch h
    next hopen =>
    obtain ⟨⟨iri, c₁⟩, h₁, h⟩ := bind_eq_ok.1 h
    obtain ⟨rfl, rfl⟩ := Prod.mk.inj (Except.ok.inj h)
    exact .base (Bool.eq_false_iff.2 hopen) h₁
  · obtain ⟨⟨iri, c₁⟩, h₁, h⟩ := bind_eq_ok.1 h
    obtain ⟨rfl, rfl⟩ := Prod.mk.inj (Except.ok.inj h)
    exact .fromClause h₁
  · obtain ⟨⟨iri, c₁⟩, h₁, h⟩ := bind_eq_ok.1 h
    obtain ⟨rfl, rfl⟩ := Prod.mk.inj (Except.ok.inj h)
    exact .withGraph h₁
  · have hform := form_of_readForm h
    rw [readForm.eq_def, if_neg (Option.not_isSome_iff_eq_none.2 hform)] at h
    obtain ⟨⟨p, c₁⟩, h₁, h⟩ := bind_eq_ok.1 h
    obtain ⟨⟨s, c₂⟩, h₂, h⟩ := bind_eq_ok.1 h
    obtain ⟨rfl, rfl⟩ := Prod.mk.inj (Except.ok.inj h)
    exact .select hform h₁ h₂
  · have hform := form_of_readForm h
    rw [readForm.eq_def, if_neg (Option.not_isSome_iff_eq_none.2 hform)] at h
    obtain ⟨⟨head, c₁⟩, h₁, h⟩ := bind_eq_ok.1 h
    obtain ⟨⟨s, c₂⟩, h₂, h⟩ := bind_eq_ok.1 h
    obtain ⟨rfl, rfl⟩ := Prod.mk.inj (Except.ok.inj h)
    exact .construct hform h₁ h₂
  · have hform := form_of_readForm h
    rw [readForm.eq_def, if_neg (Option.not_isSome_iff_eq_none.2 hform)] at h
    obtain ⟨⟨p, c₁⟩, h₁, h⟩ := bind_eq_ok.1 h
    obtain ⟨⟨s, c₂⟩, h₂, h⟩ := bind_eq_ok.1 h
    obtain ⟨rfl, rfl⟩ := Prod.mk.inj (Except.ok.inj h)
    exact .describe hform h₁ h₂
  · have hform := form_of_readForm h
    rw [readForm.eq_def, if_neg (Option.not_isSome_iff_eq_none.2 hform)] at h
    obtain ⟨⟨dataset, c₁⟩, h₁, h⟩ := bind_eq_ok.1 h
    obtain ⟨c₂, h₂, h⟩ := bind_eq_ok.1 h
    obtain ⟨⟨s, c₃⟩, h₃, h⟩ := bind_eq_ok.1 h
    obtain ⟨rfl, rfl⟩ := Prod.mk.inj (Except.ok.inj h)
    exact .ask hform h₁ h₂ h₃
  · obtain ⟨hform, s, hread, rfl⟩ := readUpdate_cases h
    exact .insert hform hread
  · obtain ⟨hform, s, hread, rfl⟩ := readUpdate_cases h
    exact .delete hform hread
  · obtain ⟨c₁, h₁, h⟩ := bind_eq_ok.1 h
    obtain ⟨⟨s, c₂⟩, h₂, h⟩ := bind_eq_ok.1 h
    obtain ⟨rfl, rfl⟩ := Prod.mk.inj (Except.ok.inj h)
    exact .whereClause h₁ h₂
  · nomatch h

/-- A clause is read if its parts are. -/
theorem ClauseParts.readClause (h : ClauseParts cfg d c k d' c') :
    readClause cfg k d c = .ok (d', c') := by
  cases h with
  | prefixDecl hopen h₁ =>
    show readDeclaration .prefixDecl d c = _
    rw [readDeclaration, if_neg (Bool.eq_false_iff.1 hopen), if_pos rfl]
    exact bind_eq_ok.2 ⟨_, h₁, rfl⟩
  | base hopen h₁ =>
    show readDeclaration .base d c = _
    rw [readDeclaration, if_neg (Bool.eq_false_iff.1 hopen), if_neg (by decide)]
    exact bind_eq_ok.2 ⟨_, h₁, rfl⟩
  | fromClause h₁ | withGraph h₁ => exact bind_eq_ok.2 ⟨_, h₁, rfl⟩
  | select hform h₁ h₂ =>
    show readForm cfg .select d c = _
    rw [readForm.eq_def, if_neg (Option.not_isSome_iff_eq_none.2 hform)]
    exact bind_eq_ok.2 ⟨_, h₁, bind_eq_ok.2 ⟨_, h₂, rfl⟩⟩
  | describe hform h₁ h₂ =>
    show readForm cfg .describe d c = _
    rw [readForm.eq_def, if_neg (Option.not_isSome_iff_eq_none.2 hform)]
    exact bind_eq_ok.2 ⟨_, h₁, bind_eq_ok.2 ⟨_, h₂, rfl⟩⟩
  | construct hform h₁ h₂ =>
    show readForm cfg .construct d c = _
    rw [readForm.eq_def, if_neg (Option.not_isSome_iff_eq_none.2 hform)]
    exact bind_eq_ok.2 ⟨_, h₁, bind_eq_ok.2 ⟨_, h₂, rfl⟩⟩
  | ask hform h₁ h₂ h₃ =>
    show readForm cfg .ask d c = _
    rw [readForm.eq_def, if_neg (Option.not_isSome_iff_eq_none.2 hform)]
    exact bind_eq_ok.2 ⟨_, h₁, bind_eq_ok.2 ⟨_, h₂, bind_eq_ok.2 ⟨_, h₃, rfl⟩⟩⟩
  | insert hform h₁ =>
    show readUpdate cfg .insert d c = _
    rw [readUpdate, if_pos hform]
    exact bind_eq_ok.2 ⟨_, h₁, rfl⟩
  | delete hform h₁ =>
    show readUpdate cfg .delete d c = _
    rw [readUpdate, if_pos hform]
    exact bind_eq_ok.2 ⟨_, h₁, rfl⟩
  | whereClause h₁ h₂ => exact bind_eq_ok.2 ⟨_, h₁, bind_eq_ok.2 ⟨_, h₂, rfl⟩⟩

theorem ne_semicolon_of_keyword {t : Text} (h : Keyword.ofText? t = some k) : t ≠ [';'] := by
  rintro rfl
  rw [show Keyword.ofText? [';'] = none by decide] at h
  nomatch h

/-- Where a clause begins, the next step is to read it. -/
theorem step_of_keyword (hd : d.complete = false) {t : Token} (hp : c.peek = some t)
    (hk : Keyword.ofText? t.text = some k) :
    step cfg d c = readClause cfg k d c >>= fun r => pure (some r) := by
  rw [step, hd, if_neg (by decide), hp]
  dsimp only
  rw [if_neg (ne_semicolon_of_keyword hk), hk]

/-- What a step can do: pass over a semicolon, or read the clause whose keyword comes next. -/
theorem step_cases (h : step cfg d c = .ok (some (d', c'))) :
    d.complete = false ∧ ∃ t, c.peek = some t ∧ (t.text = [';'] ∧ d' = d ∧ c' = c.pass ∨
      ∃ k, Keyword.ofText? t.text = some k ∧ readClause cfg k d c = .ok (d', c')) := by
  unfold step at h
  split at h
  · nomatch h
  next hopen =>
  split at h
  · nomatch h
  next t hp =>
  refine ⟨Bool.eq_false_iff.2 hopen, t, hp, ?_⟩
  split at h
  · next hsemi =>
    obtain ⟨rfl, rfl⟩ := Prod.mk.inj (Option.some.inj (Except.ok.inj h))
    exact .inl ⟨hsemi, rfl, rfl⟩
  split at h
  · nomatch h
  · next k hk =>
    obtain ⟨⟨d₁, c₁⟩, hr, h⟩ := bind_eq_ok.1 h
    obtain ⟨rfl, rfl⟩ := Prod.mk.inj (Option.some.inj (Except.ok.inj h))
    exact .inr ⟨k, hk, hr⟩

end

/-! ## Every clause consumes something -/

theorem size_readPrefix_lt {c rest : Cursor} {label iri : Text}
    (h : readPrefix c = .ok (label, iri, rest)) : rest.size < c.size := by
  obtain ⟨t, c₁, h₁, ⟨-, -, hiri⟩ | ⟨u, c₂, -, h₂, hiri⟩⟩ := readPrefix_cases h
  · exact Nat.lt_trans (Cursor.size_requireIri_lt hiri) (Cursor.size_expect_lt h₁)
  · have := Cursor.size_expect_lt h₁
    have := Cursor.size_require_lt h₂
    have := Cursor.size_requireIri_lt hiri
    omega

theorem size_readClause_lt {cfg : Config} {k : Keyword} {d d' : Draft} {c rest : Cursor}
    (h : readClause cfg k d c = .ok (d', rest)) : rest.size < c.size := by
  refine Nat.lt_of_lt_of_le ?_ (Cursor.size_pass_le c)
  cases readClause_cases h with
  | prefixDecl _ h₁ => exact size_readPrefix_lt h₁
  | base _ h₁ | withGraph h₁ => exact Cursor.size_requireIri_lt h₁
  | fromClause h₁ =>
    exact Nat.lt_of_lt_of_le (Cursor.size_requireIri_lt h₁) (Cursor.size_skip_le _ .named)
  | select _ h₁ h₂ | describe _ h₁ h₂ =>
    exact Nat.lt_trans (Head.size_readBlock_lt h₂) (Projection.size_read_lt h₁)
  | construct _ h₁ h₂ =>
    exact Nat.lt_trans (Head.size_readBlock_lt h₂) (Head.size_readConstruct_lt h₁)
  | ask _ h₁ h₂ h₃ =>
    have := size_readDataset?_le h₁
    have := Head.size_readOptionalWhere_lt h₂
    have := Head.size_readBlock_lt h₃
    omega
  | insert _ h₁ | delete _ h₁ => exact UpdateHead.size_read_lt h₁
  | whereClause h₁ h₂ =>
    exact Nat.lt_trans (Head.size_readBlock_lt h₂) (size_readOpenBrace_lt h₁)

theorem step_productive (cfg : Config) : (step cfg).Productive := by
  intro d c d' c' h
  obtain ⟨-, t, hp, ⟨-, -, rfl⟩ | ⟨k, -, hread⟩⟩ := step_cases h
  · exact Cursor.size_pass_lt hp
  · exact size_readClause_lt hread

/-! ## All clauses -/

/-- Reads clauses up to the end of the query. -/
def read (cfg : Config) (c : Cursor) : Except ParseError (Draft × Cursor) :=
  Cursor.repeatStep (step cfg) (step_productive cfg) {} c

end Draft

end SparqlTree
