import SparqlTree.Query.Parse
import SparqlTree.Proofs.Grammar.Clauses

/-!
# Shapes of queries

Every query that was read from a text is shaped: its statements stand in the order that its form
demands, all bodies are shaped bodies, and what is written in angle brackets can stand there. This
is an invariant of the draft, which each clause preserves.
-/

namespace SparqlTree

open Text (Closed)

/-! ## 1. The order of statements -/

/-- The statements that a query of a form can have, in order. WHERE bodies of their own may stand
before the one that gives a query its form, and behind a SELECT. -/
inductive TopLevel : QueryForm → List Statement → Prop
  | select {before after : List Statement} {s : Statement} :
    (∀ t ∈ before ++ after, t.kind = .pattern) → s.kind = .select →
    TopLevel .select (before ++ s :: after)
  | describe {before : List Statement} {s : Statement} : (∀ t ∈ before, t.kind = .pattern) →
    s.kind = .describe → TopLevel .describe (before ++ [s])
  | construct {before : List Statement} {s : Statement} : (∀ t ∈ before, t.kind = .pattern) →
    s.kind = .construct → TopLevel .construct (before ++ [s])
  | ask {before : List Statement} {s : Statement} : (∀ t ∈ before, t.kind = .pattern) →
    s.kind = .ask → TopLevel .ask (before ++ [s])
  | update {ss : List Statement} : (∀ t ∈ ss, t.kind = .pattern ∨ t.kind = .update) →
    (∃ t ∈ ss, t.kind = .update) → TopLevel .update ss

/-- A query as it can be read. -/
structure Query.Shaped (q : Query) : Prop where
  base : ∀ iri ∈ q.base, IsIri iri
  prefixes : ∀ p ∈ q.prefixes.toList, IsLabel p.1 ∧ IsIri p.2
  graph : ∀ iri ∈ q.graph, IsIri iri
  order : TopLevel q.form q.statements
  top : ∀ s ∈ q.statements, s.Top
  /-- Only the last statement can end with an open string or IRI reference. -/
  closed : ∀ s ∈ q.statements.dropLast, ∀ m ∈ s.modifiers, Closed m

namespace Statement

/-- True of updates whose template has variables and no WHERE body to bind them. -/
def Unbound (s : Statement) : Prop :=
  ∃ head template, s = .update head template none ∧ head.data = false ∧
    (unknownsAll template).isEmpty = false

/-- True if every update that needs one has a WHERE body, or another update directly behind it;
`next` tells whether an update follows the list. -/
def Bound (next : Bool) : List Statement → Prop
  | [] => True
  | [s] => s.Unbound → next = true
  | s :: t :: ss => (s.Unbound → t.kind = .update) ∧ Bound next (t :: ss)

theorem Bound.mono {n m : Bool} {ss : List Statement} (hnm : n = true → m = true)
    (h : Bound n ss) : Bound m ss := by
  induction ss with
  | nil => exact trivial
  | cons s ss ih =>
    cases ss with
    | nil => exact fun hs => hnm (h hs)
    | cons t ss => exact ⟨h.1, ih h.2⟩

theorem Bound.concat {n m : Bool} {ss : List Statement} {s : Statement} (h : Bound n ss)
    (hn : n = true → s.kind = .update) (hm : s.Unbound → m = true) : Bound m (ss ++ [s]) := by
  induction ss with
  | nil => exact hm
  | cons t ss ih =>
    cases ss with
    | nil => exact ⟨fun ht => hn (h ht), hm⟩
    | cons u ss => exact ⟨h.1, ih h.2⟩

end Statement

theorem TopLevel.append_pattern {form : QueryForm} {ss : List Statement} {s : Statement}
    (h : TopLevel form ss) (hform : form = .select ∨ form = .update) (hs : s.kind = .pattern) :
    TopLevel form (ss ++ [s]) := by
  cases h with
  | @select before after t hb ht =>
    rw [List.append_assoc, List.cons_append]
    refine .select ?_ ht
    rw [← List.append_assoc]
    exact List.forall_mem_append.2 ⟨hb, List.forall_mem_singleton.2 hs⟩
  | update hall hex =>
    obtain ⟨u, hu, hk⟩ := hex
    exact .update (List.forall_mem_append.2 ⟨hall, List.forall_mem_singleton.2 (.inl hs)⟩)
      ⟨u, List.mem_append_left _ hu, hk⟩
  | _ => rcases hform with h | h <;> nomatch h

/-! ## 2. The invariant of drafts -/

/-- The statements of a draft so far, by its form. -/
def Draft.Ordered (d : Draft) : Prop :=
  match d.form with
  | none => ∀ s ∈ d.statements, s.kind = .pattern
  | some form => TopLevel form d.statements

/-- The forms of a draft that is complete, and of one that can go on. -/
def Draft.Ended (d : Draft) : Prop :=
  if d.complete then ∃ form, d.form = some form ∧ form ≠ .update
  else d.form = none ∨ d.form = some .select ∨ d.form = some .update

/-- What holds of a draft and the cursor behind it, whatever was read. -/
structure Draft.Sound (cfg : Config) (d : Draft) (c : Cursor) : Prop where
  lexed : c.Lexed
  base : ∀ iri ∈ d.base, IsIri iri
  prefixes : ∀ p ∈ d.prefixes.toList, IsLabel p.1 ∧ IsIri p.2
  graph : ∀ iri ∈ d.graph, IsIri iri
  ordered : d.Ordered
  ended : d.Ended
  top : ∀ s ∈ d.statements, s.Top
  depth : ∀ s ∈ d.statements, s.depth ≤ cfg.maxDepth
  closed : ∀ s ∈ d.statements.dropLast, ∀ m ∈ s.modifiers, Closed m
  /-- Nothing follows an open string or IRI reference. -/
  closedBefore : ∀ t, c.peek = some t → ∀ s ∈ d.statements, ∀ m ∈ s.modifiers, Closed m
  bound : cfg.strictUpdateWhere = true → Statement.Bound (UpdateHead.atUpdate c) d.statements

namespace Draft

variable {cfg : Config} {d d' : Draft} {c c' : Cursor}

/-- An update keyword can only begin an update. -/
theorem atUpdate_cases {t : Token} (hp : c.peek = some t)
    (h : UpdateHead.atUpdate c = true) :
    Keyword.ofText? t.text = some .insert ∨ Keyword.ofText? t.text = some .delete := by
  rw [UpdateHead.atUpdate, Bool.or_eq_true, Cursor.atKeyword_eq_true, Cursor.atKeyword_eq_true] at h
  rcases h with ⟨u, hu, hs⟩ | ⟨u, hu, hs⟩
  · obtain rfl := Option.some.inj (hp.symm.trans hu)
    exact .inl (Keyword.ofText?_eq_some.2 hs)
  · obtain rfl := Option.some.inj (hp.symm.trans hu)
    exact .inr (Keyword.ofText?_eq_some.2 hs)

/-- What one step can do: pass over a semicolon, or read a clause, which is an update if the
keyword of one comes next. -/
theorem step_sound (hc : c.Lexed) (h : step cfg d c = .ok (some (d', c'))) :
    d.complete = false ∧ (∃ t, c.peek = some t) ∧
      (d' = d ∧ c'.Lexed ∧ c'.bulk ≤ c.bulk ∧ UpdateHead.atUpdate c = false ∨
        ClauseRead cfg c.bulk c' d d' ∧ (UpdateHead.atUpdate c = true →
          ∃ s, s.kind = .update ∧ StatementRead cfg c.bulk s c' ∧
            d' = d.addForm .update false s)) := by
  obtain ⟨hopen, t, hp, hcase⟩ := step_cases h
  refine ⟨hopen, ⟨t, hp⟩, ?_⟩
  have hbulk := Cursor.bulk_of_peek hp
  rcases hcase with ⟨hsemi, rfl, rfl⟩ | ⟨k, hk, hread⟩
  · refine .inl ⟨rfl, hc.pass, by omega, ?_⟩
    rw [← Bool.not_eq_true]
    intro hat
    rcases atUpdate_cases hp hat with hk | hk <;> rw [hsemi] at hk <;> revert hk <;> decide
  · rw [bulk_spells (Keyword.ofText?_eq_some.1 hk)] at hbulk
    refine .inr ⟨readClause_sound hc.pass hbulk hread, fun hat => ?_⟩
    rcases atUpdate_cases hp hat with hk' | hk'
    · obtain rfl := Option.some.inj (hk.symm.trans hk')
      cases readClause_cases hread with
      | insert _ h₁ =>
        obtain ⟨hs, hkind⟩ := UpdateHead.read_sound hc.pass (by exact hbulk) h₁
        exact ⟨_, hkind, hs, rfl⟩
    · obtain rfl := Option.some.inj (hk.symm.trans hk')
      cases readClause_cases hread with
      | delete _ h₁ =>
        obtain ⟨hs, hkind⟩ := UpdateHead.read_sound hc.pass (by exact hbulk) h₁
        exact ⟨_, hkind, hs, rfl⟩

theorem ClauseRead.lexed {n : Nat} (h : ClauseRead cfg n c' d d') : c'.Lexed := by
  cases h with
  | prefixDecl _ hc | base _ hc | graph hc => exact hc
  | pattern _ hs => exact hs.lexed
  | select _ _ hs | describe _ _ hs | construct _ _ hs | update _ _ hs => exact hs.lexed
  | ask _ _ _ hs => exact hs.lexed

theorem lexed_of_step (hc : c.Lexed) (h : step cfg d c = .ok (some (d', c'))) : c'.Lexed := by
  obtain ⟨-, -, ⟨-, hc', -⟩ | ⟨hread, -⟩⟩ := step_sound hc h
  · exact hc'
  · exact hread.lexed

/-- Adding a statement that was just read keeps all that does not depend on the form. -/
theorem Sound.add {s : Statement} (h : d.Sound cfg c) (hp : ∃ t, c.peek = some t)
    {n : Nat} (hs : StatementRead cfg n s c')
    (hupdate : UpdateHead.atUpdate c = true → s.kind = .update)
    (hbase : d'.base = d.base) (hprefixes : d'.prefixes = d.prefixes)
    (hgraph : ∀ iri ∈ d'.graph, IsIri iri) (hstatements : d'.statements = d.statements ++ [s])
    (hordered : d'.Ordered)
    (hended : d'.Ended) : d'.Sound cfg c' where
  lexed := hs.lexed
  base := hbase ▸ h.base
  prefixes := hprefixes ▸ h.prefixes
  graph := hgraph
  ordered := hordered
  ended := hended
  top := by
    rw [hstatements]
    exact List.forall_mem_append.2 ⟨h.top, List.forall_mem_singleton.2 hs.top⟩
  depth := by
    rw [hstatements]
    exact List.forall_mem_append.2 ⟨h.depth, List.forall_mem_singleton.2 hs.depth⟩
  closed := by
    rw [hstatements, List.dropLast_concat]
    obtain ⟨t, ht⟩ := hp
    exact h.closedBefore t ht
  closedBefore := by
    rw [hstatements]
    intro t ht
    obtain ⟨t', ht'⟩ := hp
    exact List.forall_mem_append.2 ⟨h.closedBefore t' ht',
      List.forall_mem_singleton.2 (hs.closed t ht)⟩
  bound := by
    rw [hstatements]
    intro hstrict
    apply (h.bound hstrict).concat hupdate
    rintro ⟨head, template, rfl, hdata, hvars⟩
    exact hs.bound head template rfl hstrict hdata hvars

theorem mem_insert_prefixes {label iri : Text} {m : PrefixMap} {p : Text × Text}
    (h : p ∈ (m.insert label iri).toList) : p = (label, iri) ∨ p ∈ m.toList :=
  PrefixMap.mem_place h

/-- Passing on without a new statement keeps what is known of the statements. -/
theorem Sound.declare (h : d.Sound cfg c) (hp : ∃ t, c.peek = some t) (hc : c'.Lexed)
    (hupdate : UpdateHead.atUpdate c = false) (hbase : ∀ iri ∈ d'.base, IsIri iri)
    (hprefixes : ∀ p ∈ d'.prefixes.toList, IsLabel p.1 ∧ IsIri p.2)
    (hgraph : ∀ iri ∈ d'.graph, IsIri iri) (hform : d'.form = d.form)
    (hcomplete : d'.complete = d.complete) (hstatements : d'.statements = d.statements) :
    d'.Sound cfg c' where
  lexed := hc
  base := hbase
  prefixes := hprefixes
  graph := hgraph
  ordered := by
    rw [Ordered, hform, hstatements]
    exact h.ordered
  ended := by
    rw [Ended, hform, hcomplete]
    exact h.ended
  top := hstatements ▸ h.top
  depth := hstatements ▸ h.depth
  closed := hstatements ▸ h.closed
  closedBefore := by
    obtain ⟨t, ht⟩ := hp
    rw [hstatements]
    exact fun _ _ => h.closedBefore t ht
  bound := by
    rw [hstatements]
    intro hstrict
    refine (h.bound hstrict).mono fun hat => ?_
    rw [hupdate] at hat
    nomatch hat

theorem Ordered.add {s : Statement} (h : d.Ordered) (hs : s.kind = .pattern)
    (hform : d.form = none ∨ d.form = some .select ∨ d.form = some .update) :
    (d.add s).Ordered := by
  have hadd : (d.add s).form = d.form := rfl
  unfold Ordered at h
  rw [Ordered, hadd]
  rcases hform with hf | hf | hf
  · rw [hf] at h ⊢
    exact List.forall_mem_append.2 ⟨h, List.forall_mem_singleton.2 hs⟩
  · rw [hf] at h ⊢
    exact h.append_pattern (.inl rfl) hs
  · rw [hf] at h ⊢
    exact h.append_pattern (.inr rfl) hs

theorem Ordered.addUpdate {s : Statement} (h : d.Ordered) (hs : s.kind = .update)
    (hform : d.form = none ∨ d.form = some .update) : (d.addForm .update false s).Ordered := by
  have hall : ∀ t ∈ d.statements, t.kind = .pattern ∨ t.kind = .update := by
    unfold Ordered at h
    rcases hform with hf | hf
    · rw [hf] at h
      exact fun t ht => .inl (h t ht)
    · rw [hf] at h
      cases h with
      | update hall => exact hall
  exact .update (List.forall_mem_append.2 ⟨hall, List.forall_mem_singleton.2 (.inr hs)⟩)
    ⟨s, List.mem_append_right _ (List.mem_singleton_self s), hs⟩

section

variable {n : Nat} (hat : UpdateHead.atUpdate c = true → ∃ s, s.kind = .update ∧
  StatementRead cfg n s c' ∧ d' = d.addForm .update false s)
include hat

/-- Where an update comes next, an update is what was added. -/
theorem kind_of_atUpdate {s : Statement} (hs : d'.statements = d.statements ++ [s])
    (hnext : UpdateHead.atUpdate c = true) : s.kind = .update := by
  obtain ⟨u, hu, -, rfl⟩ := hat hnext
  have he := List.append_cancel_left (hs.symm.trans rfl : _ = d.statements ++ [u])
  rw [(List.cons_eq_cons.1 he).1]
  exact hu

theorem atUpdate_eq_false (hs : d'.statements = d.statements) : UpdateHead.atUpdate c = false := by
  rw [← Bool.not_eq_true]
  intro hnext
  obtain ⟨u, -, -, rfl⟩ := hat hnext
  have hlen : (d.statements ++ [u]).length = d.statements.length := congrArg List.length hs
  rw [List.length_append] at hlen
  simp at hlen

end

/-- Each step keeps the invariant. -/
theorem Sound.step (h : d.Sound cfg c) (hstep : Draft.step cfg d c = .ok (some (d', c'))) :
    d'.Sound cfg c' := by
  obtain ⟨hcomplete, hp, hcase⟩ := step_sound h.lexed hstep
  have hform := h.ended
  rw [Ended, hcomplete, if_neg (by decide)] at hform
  have hordered := h.ordered
  rw [Ordered] at hordered
  rcases hcase with ⟨rfl, hc', -, hat⟩ | ⟨hread, hat⟩
  · exact h.declare hp hc' hat h.base h.prefixes h.graph rfl rfl rfl
  · have hadd {s : Statement} := kind_of_atUpdate (s := s) hat
    have hkeep := atUpdate_eq_false hat
    cases hread with
    -- A declaration or the name of a graph adds no statement.
    | prefixDecl hclosed hc' _ hlabel hiri =>
      refine h.declare hp hc' (hkeep rfl) h.base (fun p hm => ?_) h.graph rfl rfl rfl
      rcases mem_insert_prefixes hm with rfl | hm
      · exact ⟨hlabel, hiri⟩
      · exact h.prefixes p hm
    | base hclosed hc' _ hiri =>
      refine h.declare hp hc' (hkeep rfl) (fun iri hm => ?_) h.prefixes h.graph rfl rfl rfl
      exact Option.some.inj hm ▸ hiri
    | graph hc' _ hiri =>
      refine h.declare hp hc' (hkeep rfl) h.base h.prefixes (fun iri hm => ?_) rfl rfl rfl
      exact Option.some.inj hm ▸ hiri
    -- Every other clause adds one, which the form that is found has a place for.
    | @pattern s hkind hs =>
      have hended : (d.add s).Ended := by
        have h' := h.ended
        rwa [Ended] at h' ⊢
      exact h.add hp hs (hadd rfl) rfl rfl h.graph rfl (h.ordered.add hkind hform) hended
    | select hnone hkind hs =>
      rw [hnone] at hordered
      exact h.add hp hs (hadd rfl) rfl rfl h.graph rfl
        (.select (by rwa [List.append_nil]) hkind) (.inr (.inl rfl))
    | describe hnone hkind hs =>
      rw [hnone] at hordered
      exact h.add hp hs (hadd rfl) rfl rfl h.graph rfl (.describe hordered hkind)
        ⟨_, rfl, by decide⟩
    | construct hnone hkind hs =>
      rw [hnone] at hordered
      exact h.add hp hs (hadd rfl) rfl rfl h.graph rfl (.construct hordered hkind)
        ⟨_, rfl, by decide⟩
    | @ask s graph hnone hkind hgraph hs =>
      rw [hnone] at hordered
      refine h.add hp hs (hadd rfl) rfl rfl (fun iri hm => ?_) rfl (.ask hordered hkind)
        ⟨_, rfl, by decide⟩
      cases graph with
      | none => exact h.graph iri hm
      | some g => exact hgraph iri hm
    | update hf hkind hs =>
      exact h.add hp hs (hadd rfl) rfl rfl h.graph rfl (h.ordered.addUpdate hkind hf)
        (.inr (.inr rfl))

/-- The invariant holds at the end of every reading, where no step is left to take. -/
theorem Sound.repeatStep (h : d.Sound cfg c)
    (hread : Cursor.repeatStep (Draft.step cfg) (step_productive cfg) d c = .ok (d', c')) :
    d'.Sound cfg c' ∧ Draft.step cfg d' c' = .ok none :=
  Cursor.repeatStep_invariant Sound.step h hread

/-- Reading ends with a complete draft or at the end of the text. -/
theorem step_eq_none (h : step cfg d c = .ok none) : d.complete = true ∨ c.peek = none := by
  unfold step at h
  split at h
  · next hc => exact .inl hc
  · split at h
    · next hp => exact .inr hp
    · split at h
      · nomatch h
      · split at h
        · nomatch h
        · obtain ⟨r, -, h⟩ := bind_eq_ok.1 h
          nomatch h

theorem sound_start (hc : c.Lexed) : Sound cfg {} c where
  lexed := hc
  base := fun _ h => nomatch h
  prefixes := fun _ h => nomatch h
  graph := fun _ h => nomatch h
  ordered := fun _ h => nomatch h
  ended := .inl rfl
  top := fun _ h => nomatch h
  depth := fun _ h => nomatch h
  closed := fun _ h => nomatch h
  closedBefore := fun _ _ _ h => nomatch h
  bound := fun _ => trivial

end Draft

/-! ## 3. All queries that can be read -/

theorem TopLevel.kind_ne_update {form : QueryForm} {ss : List Statement} (h : TopLevel form ss)
    (hform : form ≠ .update) : ∀ s ∈ ss, s.kind ≠ .update := by
  intro u hu hk
  cases h with
  | @select before after s hb hs =>
    rw [List.mem_append, List.mem_cons] at hu
    rcases hu with hu | rfl | hu
    · rw [hb u (List.mem_append_left _ hu)] at hk; nomatch hk
    · rw [hs] at hk; nomatch hk
    · rw [hb u (List.mem_append_right _ hu)] at hk; nomatch hk
  | describe hb hs | construct hb hs | ask hb hs =>
    rw [List.mem_append, List.mem_singleton] at hu
    rcases hu with hu | rfl
    · rw [hb u hu] at hk; nomatch hk
    · rw [hs] at hk; nomatch hk
  | update => exact hform rfl

theorem Statement.bound_of_kind {next : Bool} {ss : List Statement}
    (h : ∀ s ∈ ss, s.kind ≠ .update) : Bound next ss := by
  have hno : ∀ s ∈ ss, ¬ s.Unbound := by
    rintro s hs ⟨head, template, rfl, -⟩
    exact h _ hs rfl
  induction ss with
  | nil => exact trivial
  | cons s ss ih =>
    cases ss with
    | nil => exact fun hs => absurd hs (hno s (by simp))
    | cons t ss =>
      exact ⟨fun hs => absurd hs (hno s (by simp)), ih (fun u hu => h u (List.mem_cons_of_mem _ hu))
        fun u hu => hno u (List.mem_cons_of_mem _ hu)⟩

namespace Query

variable {cfg : Config} {text : Text} {q : Query}

theorem lexed_cursor (cfg : Config) (text : Text) : (cursor cfg text).Lexed := by
  obtain ⟨ws, hs, hscan⟩ := Cursor.lexed_start text (Text.byteLength text)
  exact ⟨ws, hs, hscan⟩

/-- What holds of every query that was read: it is shaped, keeps to the limit on nesting, and has
a WHERE body wherever strict checking wants one. -/
theorem sound_of_parse (h : parse cfg text = .ok q) :
    q.Shaped ∧ (∀ s ∈ q.statements, s.depth ≤ cfg.maxDepth) ∧
      (cfg.strictUpdateWhere = true → Statement.Bound false q.statements) := by
  obtain ⟨d, c, hread, hq⟩ := exists_draft_of_parse h
  obtain ⟨hd, hend⟩ := (Draft.sound_start (lexed_cursor cfg text)).repeatStep hread
  obtain ⟨form, hform, rfl⟩ := Option.map_eq_some_iff.1 hq
  have hordered := hd.ordered
  rw [Draft.Ordered, hform] at hordered
  refine ⟨⟨hd.base, hd.prefixes, hd.graph, hordered, hd.top, hd.closed⟩, hd.depth,
    fun hstrict => ?_⟩
  rcases Draft.step_eq_none hend with hc | hp
  · have hended := hd.ended
    rw [Draft.Ended, if_pos hc] at hended
    obtain ⟨f, hf, hne⟩ := hended
    obtain rfl := Option.some.inj (hform.symm.trans hf)
    exact Statement.bound_of_kind (hordered.kind_ne_update hne)
  · refine (hd.bound hstrict).mono fun hat => ?_
    rw [UpdateHead.atUpdate, Cursor.atKeyword, Cursor.atKeyword, hp] at hat
    nomatch hat

/-- Whatever text a query was read from, it is shaped. -/
theorem shaped_of_parse (h : parse cfg text = .ok q) : q.Shaped := (sound_of_parse h).1

/-- The sub-select is a block of its own and has the modifier; the quantifier and the graph are those
of the form. -/
theorem shaped_of_parse_subSelect :
    let text :=
      "SELECT DISTINCT ?s FROM NAMED <g> { ?s ?p ?o { SELECT * { ?o ?q 1.5 } LIMIT 3 } }".toList
    let q : Query :=
      { form := .select
        statements := [.block (.select { quantifier := some .distinct
                                         projected := "?s".toList
                                         graph := some ['g']
                                         fromNamed := true })
          [.simple "?s ?p ?o".toList,
            .block (.select { projected := ['*']
                              modifiers := ["LIMIT 3".toList]
                              inBlock := true })
              [.simple "?o ?q 1.5".toList]]]
        source := text }
    parse {} text = .ok q ∧ q.Shaped := by
  intro text q
  have h : parse {} text = .ok q := eq_ok_of_toOption (by decide +kernel)
  exact ⟨h, shaped_of_parse h⟩

end Query

end SparqlTree
