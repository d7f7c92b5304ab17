import SparqlTree.Proofs.Grammar.ForkBody
import SparqlTree.Proofs.Query.FormStart
import SparqlTree.Proofs.Token.Truncation

/-!
# Updates and clauses in texts that begin alike

An update looks one token ahead of its template, and a run of clauses looks for the keyword of the
next one. Both see the same where the beginning of the texts goes on, so whole queries are read
alike up to its end (`Fork.Level.read`).
-/

namespace SparqlTree

/-- Reads on behind the template of an update. -/
def UpdateHead.readBehind (cfg : Config) (operation : Operation) (data : Bool)
    (template : List Statement) (c : Cursor) : Except ParseError (Statement × Cursor) := do
  if lacksWhere cfg data template c then throw (unbound operation c)
  let (attached, c) ← readAttached? cfg c
  pure (.update { operation, data } template attached, c)

theorem UpdateHead.read_eq_bind (cfg : Config) (operation : Operation) (c : Cursor) :
    read cfg operation c = readOpenBrace (c.skipGlued .data) >>= fun c₁ =>
      readBody cfg .whole c₁ >>= fun r => readBehind cfg operation (c.atGlued .data) r.1 r.2 := rfl

namespace Fork

variable {K : Fork} {i : Stage} {c d : Cursor} {t : Token} {k : Keyword} {cfg : Config}

/-! ## 1. Updates -/

theorem Level.readAttached? (h : K.Level i c d) :
    K.Follows K.Same i (UpdateHead.readAttached? cfg c) (UpdateHead.readAttached? cfg d) := by
  refine h.follows (UpdateHead.readAttached? cfg) fun i c d h => ?_
  rw [UpdateHead.readAttached?, UpdateHead.readAttached?]
  rcases h.eatGlued? .whereClause with ⟨hc, hd⟩ | ⟨c₁, d₁, hc, hd, h₁⟩
  · rw [hc, hd]
    exact .ok ⟨rfl, h.level⟩
  · rw [hc, hd]
    refine h₁.level.readOpenBrace.bind fun _ _ _ h₂ => ?_
    exact (h₂.level.readBody cfg .segmented).bind fun _ _ _ hr => .ok (hr.same.pair some)

theorem Facing.lacksWhere (h : K.Facing i c d) (data : Bool) (template : List Statement) :
    UpdateHead.lacksWhere cfg data template c = UpdateHead.lacksWhere cfg data template d := by
  rw [UpdateHead.lacksWhere, UpdateHead.lacksWhere, UpdateHead.atUpdate, UpdateHead.atUpdate,
    h.atGlued, h.atKeyword, h.atKeyword]

/-- The check behind a template reads ahead, and an error of it points at what was read. -/
theorem Level.readBehind (h : K.Level i c d) (operation : Operation) (data : Bool)
    (template : List Statement) :
    K.Follows K.Same i (UpdateHead.readBehind cfg operation data template c)
      (UpdateHead.readBehind cfg operation data template d) := by
  refine h.follows (UpdateHead.readBehind cfg operation data template) fun i c d h => ?_
  rw [UpdateHead.readBehind, UpdateHead.readBehind, h.lacksWhere]
  split
  · exact .error ((h.errorFound _).withHelp _)
  · exact h.level.readAttached?.bind fun _ _ _ hr =>
      .ok (hr.pair (Statement.update { operation, data } template ·))

theorem Level.readUpdateBlock (h : K.Level i c d) (operation : Operation) :
    K.Follows K.Same i (UpdateHead.read cfg operation c) (UpdateHead.read cfg operation d) := by
  refine h.follows (UpdateHead.read cfg operation) fun i c d h => ?_
  rw [UpdateHead.read_eq_bind, UpdateHead.read_eq_bind, h.atGlued]
  refine (h.skipGlued .data).readOpenBrace.bind fun _ _ _ h₁ => ?_
  refine (h₁.level.readBody cfg .whole).bind ?_
  rintro i ⟨template, c₂⟩ ⟨_, d₂⟩ ⟨rfl, h₂⟩
  exact h₂.level.readBehind operation _ template

/-! ## 2. Clauses -/

/-- The head of a query form, behind its keyword. -/
theorem Level.readHead (h : K.Level i c d) (k : Keyword) :
    K.Follows K.Taken i (Draft.readHead k c) (Draft.readHead k d) := by
  rw [Draft.readHead.eq_def, Draft.readHead.eq_def]
  split
  · exact (h.readProjection false).bind fun _ _ _ hr =>
      .ok (hr.pair fun p => (Head.select p, none))
  · exact (h.readProjection false).bind fun _ _ _ hr =>
      .ok (hr.pair fun p => (Head.describe p, none))
  · exact h.readConstruct.bind fun _ _ _ hr => .ok (hr.pair fun head => (head, none))
  · refine h.readDataset?.bind ?_
    rintro i ⟨dataset, c₁⟩ ⟨_, d₁⟩ ⟨rfl, h₁⟩
    exact h₁.readOptionalWhere.bind fun _ _ _ h₂ => .ok ⟨rfl, h₂⟩

theorem Level.readPrefix (h : K.Level i c d) :
    K.Follows (fun i r s => r.1 = s.1 ∧ K.Taken i r.2 s.2) i (Draft.readPrefix c)
      (Draft.readPrefix d) := by
  rw [Draft.readPrefix, Draft.readPrefix]
  refine (h.expect _).bind ?_
  rintro i ⟨label, c₁⟩ ⟨_, d₁⟩ ⟨rfl, h₁⟩
  dsimp only
  split
  · exact h₁.level.requireIri.bind fun _ _ _ hr => .ok ⟨rfl, hr⟩
  · refine (h₁.level.require _ _).bind fun _ _ _ hr => ?_
    exact hr.2.level.requireIri.bind fun _ _ _ hs => .ok ⟨rfl, hs⟩

/-- Nothing has to close a pattern behind its body. -/
theorem Level.readPattern (h : K.Level i c d) :
    K.Follows K.Taken i (Head.pattern.readBlock cfg c) (Head.pattern.readBlock cfg d) :=
  (h.readBody cfg Head.pattern.bodyStyle).bind fun _ _ _ hr =>
    .ok (hr.pair (Statement.block .pattern))

namespace Facing

variable (h : K.Facing i c d) (hp : d.peek = some t)

include h hp

theorem readDeclaration (k : Keyword) (q : Draft) :
    K.Follows K.Taken i (Draft.readDeclaration k q c) (Draft.readDeclaration k q d) := by
  have hpass := (h.pass hp).level
  rw [Draft.readDeclaration, Draft.readDeclaration]
  split
  · exact .error (h.errorFound .prologueFirst)
  split
  · refine hpass.readPrefix.bind ?_
    rintro i ⟨label, r⟩ ⟨_, s⟩ ⟨rfl, hr⟩
    exact .ok (hr.pair fun iri => { q with prefixes := q.prefixes.insert label iri })
  · exact hpass.requireIri.bind fun _ _ _ hr =>
      .ok (hr.pair fun iri => { q with base := some iri })

/-- A clause in front of the form ends with something that it has to consume. -/
theorem readClause_of_not_form (hk : Draft.givesForm k = false) (q : Draft) :
    K.Follows K.Taken i (Draft.readClause cfg k q c) (Draft.readClause cfg k q d) := by
  have hpass := (h.pass hp).level
  rw [Draft.readClause.eq_def, Draft.readClause.eq_def]
  split
  · exact h.readDeclaration hp _ q
  · exact h.readDeclaration hp _ q
  · exact (hpass.requireIri_skip .named).bind fun _ _ _ hr =>
      .ok (hr.pair fun graph => { q with graph := some graph })
  · exact hpass.requireIri.bind fun _ _ _ hr =>
      .ok (hr.pair fun graph => { q with graph := some graph })
  -- the keywords that give a form
  · exact absurd hk (by decide)
  · exact absurd hk (by decide)
  · exact absurd hk (by decide)
  · exact absurd hk (by decide)
  · exact absurd hk (by decide)
  · exact absurd hk (by decide)
  · refine hpass.readOpenBrace.bind fun _ _ _ h₁ => ?_
    exact h₁.level.readPattern.bind fun _ _ _ hr => .ok (hr.pair q.add)
  · exact .error (h.errorFound .queryKeyword)

theorem readForm (hk : k ∈ Draft.formKeywords) (q : Draft) :
    K.Follows K.Same i (Draft.readForm cfg k q c) (Draft.readForm cfg k q d) := by
  by_cases hq : q.form = none
  · rw [Draft.readForm_eq hk hq, Draft.readForm_eq hk hq]
    refine ((h.pass hp).level.readHead k).bind ?_
    rintro i ⟨⟨head, graph⟩, c₁⟩ ⟨_, d₁⟩ ⟨rfl, h₁⟩
    exact (h₁.level.readBlock cfg head).bind fun _ _ _ hr => .ok (hr.pair fun s =>
      { q.addForm (Draft.formOf k) (k != .select) s with graph := graph.or q.graph })
  · have hsome : q.form.isSome = true := Option.isSome_iff_ne_none.2 hq
    rw [Draft.readForm.eq_def, Draft.readForm.eq_def, if_pos hsome, if_pos hsome]
    exact .error (h.errorFound .singleForm)

theorem readUpdate (operation : Operation) (q : Draft) :
    K.Follows K.Same i (Draft.readUpdate cfg operation q c)
      (Draft.readUpdate cfg operation q d) := by
  rw [Draft.readUpdate, Draft.readUpdate]
  split
  · exact ((h.pass hp).level.readUpdateBlock operation).bind fun _ _ _ hr =>
      .ok (hr.pair (q.addForm .update false ·))
  · exact .error (h.errorFound .noUpdateAfterForm)

theorem readClause (k : Keyword) (q : Draft) :
    K.Follows K.Same i (Draft.readClause cfg k q c) (Draft.readClause cfg k q d) := by
  cases hgives : Draft.givesForm k with
  | false => exact (h.readClause_of_not_form hp hgives q).same
  | true =>
    by_cases hk : k ∈ Draft.formKeywords
    · rw [Draft.readClause_of_form hk, Draft.readClause_of_form hk]
      exact h.readForm hp hk q
    · rcases Draft.update_of_givesForm hgives hk with rfl | rfl
      · exact h.readUpdate hp .insert q
      · exact h.readUpdate hp .delete q

omit hp in
theorem step (q : Draft) :
    K.Follows (K.Stepped i) i (Draft.step cfg q c) (Draft.step cfg q d) := by
  rw [Draft.step, Draft.step, h.peek_eq]
  split
  · exact .ok .declined
  cases hp : d.peek with
  | none => exact .ok .declined
  | some t =>
    dsimp only
    split
    · exact .ok (.taken ⟨rfl, (h.pass hp).level⟩)
    split
    · exact .error (h.errorFound .queryKeyword)
    · exact (h.readClause hp _ q).bind fun _ _ _ hr => .ok (.taken hr)

omit hp in
theorem stepToForm (q : Draft) :
    K.Follows (K.Stepped i) i (Draft.stepToForm cfg q c) (Draft.stepToForm cfg q d) := by
  rw [Draft.stepToForm, Draft.stepToForm, Draft.atForm, Draft.atForm, h.peek_eq]
  split
  · exact .ok .declined
  · exact h.step q

end Facing

/-! ## 3. Runs of clauses -/

theorem Level.read (h : K.Level i c d) :
    K.Follows K.Same i (Draft.read cfg c) (Draft.read cfg d) :=
  h.repeatStep (fun q _ _ _ h => h.step q) {}

theorem Level.readToForm (h : K.Level i c d) :
    K.Follows K.Same i (Draft.readToForm cfg c) (Draft.readToForm cfg d) :=
  h.repeatStep (fun q _ _ _ h => h.stepToForm q) {}

end Fork

/-! ## 4. Texts -/

open Text (byteLength Divides)

/-- The end of the text `front ++ back`, if no token reaches from the one part into the other. -/
def Ending.behind (front back : Text) : Ending where
  rest := (tokenize back).map (Token.shift (byteLength front))
  stop := byteLength (front ++ back)
  late t := byteLength front ≤ t.span.first ∧ t.span.first ≤ t.span.last
  late_of_mem := by
    intro t ht
    obtain ⟨u, hu, rfl⟩ := List.mem_map.1 ht
    have := (Recut.refl.first_lt_last hu).1
    rw [Token.shift_first, Token.shift_last]
    omega
  late_cut := by
    intro t head tail ⟨hfirst, hle⟩
    obtain ⟨h₁, h₂, h₃, h₄, h₅⟩ := Token.cut_spans hle head tail
    omega

/-- Two texts that have a beginning in common. -/
def Fork.behind (front s₁ s₂ : Text) : Fork := ⟨.behind front s₁, .behind front s₂⟩

theorem Ending.cursor_behind (cfg : Config) {front back : Text} (h : Divides front back) :
    Query.cursor cfg (front ++ back) = (behind front back).extend (Query.cursor cfg front) := by
  rw [Query.cursor, h]
  rfl

theorem Fork.level_behind (cfg : Config) {front s₁ s₂ : Text} (h₁ : Divides front s₁)
    (h₂ : Divides front s₂) : (behind front s₁ s₂).Level .within
      (Query.cursor cfg (front ++ s₁)) (Query.cursor cfg (front ++ s₂)) :=
  ⟨Query.cursor cfg front, Ending.cursor_behind cfg h₁, Ending.cursor_behind cfg h₂,
    Cursor.lexed_start front (byteLength front)⟩

/-- The query that a draft has become, or the refusal of a text that has no form. -/
def Draft.finish (text : Text) (r : Draft × Cursor) : Except ParseError Query :=
  (r.1.query? text).elim (throw (r.2.errorFound .queryForm)) pure

theorem Query.parse_eq_finish (cfg : Config) (text : Text) :
    parse cfg text = Draft.read cfg (cursor cfg text) >>= Draft.finish text := by
  rw [parse]
  refine bind_congr fun r => ?_
  obtain ⟨d, c⟩ := r
  rw [Draft.finish]
  dsimp only
  cases d.query? text <;> rfl

namespace Fork

/-- The text is kept in the query, but nothing else is done with it behind the last clause. -/
theorem Level.finish {K : Fork} {i : Stage} {c d : Cursor} (h : K.Level i c d) (t₁ t₂ : Text)
    (q : Draft) :
    K.Follows (fun _ _ _ => True) i (Draft.finish t₁ (q, c)) (Draft.finish t₂ (q, d)) := by
  rw [Draft.finish, Draft.finish, Draft.query?, Draft.query?]
  cases q.form with
  | none => exact h.throwFound .queryForm
  | some form => exact .ok trivial

/-- A query that is refused within the common beginning is refused in either text. -/
theorem Level.parse {K : Fork} {cfg : Config} {t₁ t₂ : Text}
    (h : K.Level .within (Query.cursor cfg t₁) (Query.cursor cfg t₂)) :
    K.Follows (fun _ _ _ => True) .within (Query.parse cfg t₁) (Query.parse cfg t₂) := by
  rw [Query.parse_eq_finish, Query.parse_eq_finish]
  refine h.read.bind_of_parted ?_ (fun _ r _ hr => hr.2.finish t₁ t₁ r.1)
    fun _ r _ hr => hr.2.finish t₂ t₂ r.1
  rintro ⟨q, c⟩ ⟨_, d⟩ - - ⟨rfl, h₁⟩
  exact h₁.finish t₁ t₂ q

end Fork

end SparqlTree
