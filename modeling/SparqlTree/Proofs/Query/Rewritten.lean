import SparqlTree.Proofs.Query.RoundTrip

/-!
# Queries with their graphs rewritten

A query that round-trips is read from its own text also after its graphs were rewritten
(`Query.reparse_assignGraph`). The text is that of another tree: a group that is optional and in a
graph is written as two groups, one within the other, and FROM NAMED is not written where no graph
is left. That tree is canonical if its blocks stand no deeper than may be read, and if no plain
group comes to begin with SELECT.
-/

namespace SparqlTree

open Statement (layout layoutAll nesting nestingAll)

/-! ## 1. The tree that is read -/

/-- The projection as it is read from its text: FROM NAMED is written only with a graph. -/
def Projection.asRead (p : Projection) : Projection :=
  { p with fromNamed := p.fromNamed && p.graph.isSome }

namespace Statement

/-- The statement that is read from the text of a block. -/
def blockAsRead : Head → List Statement → Statement
  | .group (some graph) true, body =>
    block (.group none true) [block (.group (some graph) false) body]
  | .select p, body => block (.select p.asRead) body
  | .describe p, body => block (.describe p.asRead) body
  | head, body => block head body

mutual

/-- The statement that is read from the text of a statement. -/
def asRead : Statement → Statement
  | simple text => simple text
  | block head body => blockAsRead head (asReadAll body)
  | update head template attached =>
    update head (asReadAll template)
      (match attached with
      | some body => some (asReadAll body)
      | none => none)

/-- The statements that are read from the texts of several statements. -/
def asReadAll : List Statement → List Statement
  | [] => []
  | s :: ss => asRead s :: asReadAll ss

end

theorem asReadAll_eq_map (ss : List Statement) : asReadAll ss = ss.map asRead := by
  induction ss with
  | nil => rfl
  | cons s ss ih => rw [asReadAll, ih, List.map_cons]

theorem asRead_update (head : UpdateHead) (template : List Statement)
    (attached : Option (List Statement)) : asRead (update head template attached) =
      update head (template.map asRead) (attached.map (·.map asRead)) := by
  cases attached <;> simp [asRead, asReadAll_eq_map]

theorem layout_blockAsRead (head : Head) (body : List Statement) :
    layout (blockAsRead head body) = head.opening ++ layoutAll body ++ head.closing := by
  have hprojection : ∀ (k : Keyword) (p : Projection), p.asRead.opening k = p.opening k := by
    intro k p
    rw [Projection.opening, Projection.opening, Projection.datasetLine, Projection.datasetLine,
      Projection.asRead]
    cases hg : p.graph with
    | none => rfl
    | some graph =>
      rw [Option.isSome_some, Bool.and_true]
      rfl
  cases head with
  | group graph optional =>
    cases graph with
    | none => rfl
    | some graph =>
      cases optional with
      | false => rfl
      | true =>
        -- the one case in which the tree is another: one block is read as two
        show [optionalLine] ++ (([graphLine graph] ++ layoutAll body ++ [closeLine]) ++ []) ++
          [closeLine] = [optionalLine, graphLine graph] ++ layoutAll body ++ [closeLine, closeLine]
        simp
  | select p =>
    show p.asRead.opening .select ++ layoutAll body ++ p.asRead.closing = _
    rw [hprojection]
    rfl
  | describe p =>
    show p.asRead.opening .describe ++ layoutAll body ++ p.asRead.closing = _
    rw [hprojection]
    rfl
  | pattern | construct | ask => rfl

theorem layoutAll_map {f : Statement → Statement} {ss : List Statement}
    (h : ∀ s ∈ ss, (f s).layout = s.layout) : layoutAll (ss.map f) = layoutAll ss := by
  induction ss with
  | nil => rfl
  | cons s ss ih =>
    rw [List.map_cons, layoutAll, layoutAll, h s (by simp),
      ih fun t ht => h t (List.mem_cons_of_mem _ ht)]

/-- Both statements are written on the same lines. -/
theorem layout_asRead (s : Statement) : s.asRead.layout = s.layout := by
  induction s using Statement.induct with
  | simple text => rfl
  | block head body ih =>
    rw [asRead, layout_blockAsRead, asReadAll_eq_map, layoutAll_map ih, layout]
  | update head template attached ih₁ ih₂ =>
    rw [asRead_update, layout_update, layout_update, layoutAll_map ih₁]
    cases attached with
    | none => rfl
    | some body =>
      rw [Option.map_some, attachedLines, attachedLines, layoutAll_map (ih₂ body rfl)]

theorem render_asRead (s : Statement) : s.asRead.render = s.render := by
  have h := s.asRead.cons_render
  rw [layout_asRead, ← s.cons_render] at h
  exact (List.cons_eq_cons.1 h).2

/-- The statement that is read from the text of a statement whose graphs were all replaced by the
given one, or removed. -/
def rewritten (graph : Option Text) (s : Statement) : Statement :=
  (s.mapGraph fun _ => graph).asRead

variable {graph : Option Text} {style : BodyStyle} {s : Statement} {ss : List Statement}

theorem rewritten_block (head : Head) (body : List Statement) : rewritten graph (block head body) =
    blockAsRead (head.mapGraph fun _ => graph) (body.map (rewritten graph)) := by
  rw [rewritten, mapGraph, asRead, asReadAll_eq_map, mapGraphAll_eq_map, List.map_map]
  rfl

theorem rewritten_update (head : UpdateHead) (template : List Statement)
    (attached : Option (List Statement)) : rewritten graph (update head template attached) =
      update head (template.map (rewritten graph)) (attached.map (·.map (rewritten graph))) := by
  have hcomp : rewritten graph = asRead ∘ mapGraph fun _ => graph := rfl
  cases attached <;> simp [rewritten, mapGraph, asRead_update, hcomp]

/-- Blocks do not become texts. -/
theorem rewritten_eq_simple {t : Text} (h : rewritten graph s = .simple t) : s = .simple t := by
  cases s with
  | simple text => exact h
  | block head body =>
    rw [rewritten_block, blockAsRead.eq_def] at h
    split at h <;> nomatch h
  | update head template attached =>
    rw [rewritten_update] at h
    nomatch h

theorem map_rewritten_eq_cons {t : Text} {rest : List Statement}
    (h : ss.map (rewritten graph) = .simple t :: rest) : ∃ rest', ss = .simple t :: rest' := by
  obtain ⟨s, ss', rfl, hs, -⟩ := List.map_eq_cons_iff.1 h
  rw [rewritten_eq_simple hs]
  exact ⟨ss', rfl⟩

end Statement

open Statement (rewritten blockAsRead)

variable {graph : Option Text} {style : BodyStyle} {head : Head} {body inner ss : List Statement}

/-! ## 2. Shapes -/

theorem Projection.Shaped.rewritten {p : Projection} (h : p.Shaped)
    (hg : ∀ iri ∈ graph, IsIri iri) : Projection.Shaped (Projection.asRead { p with graph }) where
  projected := h.projected
  graph := hg
  named := fun hn => ((Bool.and_eq_true _ _).mp hn).2
  modifiers := h.modifiers

theorem shaped_blockAsRead (hg : ∀ iri ∈ graph, IsIri iri) (hn : head.Nested)
    (hinner : ShapedBody head.bodyStyle inner) (hss : ShapedBody style ss) :
    ShapedBody style (blockAsRead (head.mapGraph fun _ => graph) inner :: ss) := by
  have hplain : ∀ optional, Head.Nested (.group none optional) := fun optional =>
    .group (fun _ h => nomatch h) fun h => nomatch h
  cases hn with
  | @group _ optional =>
    cases graph with
    | none => exact .block (hplain optional) hinner hss
    | some g =>
      have hgroup : Head.Nested (.group (some g) false) := .group hg fun _ => rfl
      cases optional with
      | false => exact .block hgroup hinner hss
      | true => exact .block (hplain true) (.block hgroup hinner .nil) hss
  | select hin hp hclosed => exact .block (.select hin (hp.rewritten hg) hclosed) hinner hss

theorem ShapedBody.rewritten (h : ShapedBody style body) (hg : ∀ iri ∈ graph, IsIri iri) :
    ShapedBody style (body.map (rewritten graph)) := by
  induction h with
  | nil => exact .nil
  | simple hs _ ih =>
    -- Texts stay where they are, so what is asked of the text behind one holds as before.
    obtain ⟨hfragment, hsegment, hnext⟩ := hs
    refine .simple ⟨hfragment, hsegment, fun u rest he => ?_⟩ ih
    obtain ⟨rest', he⟩ := Statement.map_rewritten_eq_cons he
    exact hnext u rest' he
  | block hs _ _ ih₁ ih₂ =>
    rw [List.map_cons, Statement.rewritten_block]
    exact shaped_blockAsRead hg hs ih₁ ih₂

/-! ## 3. Stability -/

/-- True of bodies that do not begin with the word SELECT. -/
def NotSelectFirst (body : List Statement) : Prop :=
  ∀ t rest, body = .simple t :: rest →
    ∀ w ∈ nextToken (Text.tokens t), Keyword.select.spells w = false

/-- True of statements other than a group in a graph that begins with SELECT. -/
def NoSelectInGraphAt (_style : BodyStyle) (s : Statement) (_ss : List Statement) : Prop :=
  match s with
  | .block (.group (some _) false) inner => NotSelectFirst inner
  | _ => True

/-- True of statements in which no group in a graph begins with SELECT. Without its graph such a
group is read as a sub-select. -/
def Statement.NoSelectInGraph : Statement → Prop
  | .simple _ => True
  | .block head body => EveryBody NoSelectInGraphAt head.bodyStyle body
  | .update _ template attached => EveryBody NoSelectInGraphAt .whole template ∧
    ∀ body ∈ attached, EveryBody NoSelectInGraphAt .segmented body

theorem NotSelectFirst.rewritten (h : NotSelectFirst body) :
    NotSelectFirst (body.map (rewritten graph)) := by
  intro t rest he
  obtain ⟨rest', he⟩ := Statement.map_rewritten_eq_cons he
  exact h t rest' he

theorem stable_blockAsRead (hinner : StableBody head.bodyStyle inner) (hss : StableBody style ss)
    (hselect : graph = none → ∀ x, head = .group x false → NotSelectFirst inner) :
    StableBody style (blockAsRead (head.mapGraph fun _ => graph) inner :: ss) := by
  cases head with
  | group x optional =>
    cases graph with
    | none =>
      refine .block (fun he => ?_) hinner hss
      rw [(Head.group.inj he).2] at hselect
      exact hselect rfl x rfl
    | some g =>
      cases optional with
      | false => exact .block (fun he => nomatch he) hinner hss
      | true =>
        exact .block (fun he => nomatch he) (.block (fun he => nomatch he) hinner .nil) hss
  | _ => exact .block (fun he => nomatch he) hinner hss

/-- Groups that get a graph are not taken for sub-selects, and those that lose theirs are not if
they do not begin with SELECT. -/
theorem StableBody.rewritten (h : StableBody style body)
    (hselect : graph = none → EveryBody NoSelectInGraphAt style body) :
    StableBody style (body.map (rewritten graph)) := by
  induction h with
  | nil => exact .nil
  | simple hs _ ih =>
    refine .simple hs (ih fun hn => ?_)
    cases hselect hn with
    | simple _ hss => exact hss
  | @block style head inner ss hs _ _ ih₁ ih₂ =>
    rw [List.map_cons, Statement.rewritten_block]
    refine stable_blockAsRead (ih₁ fun hn => ?_) (ih₂ fun hn => ?_) fun hn x he => ?_
    · cases hselect hn with
      | block _ hinner _ => exact hinner
    · cases hselect hn with
      | block _ _ hss => exact hss
    · subst he
      -- A group without graph is stable as it is; one that loses its graph needs the hypothesis.
      cases x with
      | none => exact NotSelectFirst.rewritten (hs rfl)
      | some x =>
        cases hselect hn with
        | block hgroup _ _ => exact NotSelectFirst.rewritten hgroup

/-! ## 4. Statements of a query -/

namespace Statement

variable {s : Statement}

theorem kind_rewritten (s : Statement) : (rewritten graph s).kind = s.kind := by
  cases s with
  | simple text => rfl
  | block head body =>
    rw [rewritten_block]
    cases head with
    | group x optional => cases graph <;> cases optional <;> rfl
    | _ => rfl
  | update head template attached => rw [rewritten_update]; rfl

theorem modifiers_rewritten (s : Statement) : (rewritten graph s).modifiers = s.modifiers := by
  cases s with
  | simple text => rfl
  | block head body =>
    rw [rewritten_block]
    cases head with
    | group x optional => cases graph <;> cases optional <;> rfl
    | _ => rfl
  | update head template attached => rw [rewritten_update]; rfl

theorem Top.rewritten (h : s.Top) (hg : ∀ iri ∈ graph, IsIri iri) : (rewritten graph s).Top := by
  cases h with
  | @block head body htop hs =>
    have hbody := hs.rewritten hg
    rw [rewritten_block]
    cases htop with
    | pattern => exact .block .pattern hbody
    | ask => exact .block .ask hbody
    | select hin hp => exact .block (.select hin (hp.rewritten hg)) hbody
    | describe hin hp => exact .block (.describe hin (hp.rewritten hg)) hbody
    | construct htemplate hm => exact .block (.construct htemplate hm) hbody
  | @update head template attached ht ha =>
    rw [rewritten_update]
    refine .update (ht.rewritten hg) fun body hb => ?_
    obtain ⟨body', hb', rfl⟩ := Option.map_eq_some_iff.1 hb
    exact (ha body' hb').rewritten hg

theorem Top.stable_rewritten (ht : s.Top) (h : s.Stable)
    (hselect : graph = none → s.NoSelectInGraph) : (Statement.rewritten graph s).Stable := by
  cases ht with
  | @block head body htop hs =>
    have hbody : StableBody head.bodyStyle (body.map (Statement.rewritten graph)) :=
      StableBody.rewritten h hselect
    rw [rewritten_block]
    cases htop <;> exact hbody
  | @update head template attached =>
    obtain ⟨htemplate, hattached⟩ := h
    rw [rewritten_update]
    refine ⟨htemplate.rewritten fun hn => (hselect hn).1, fun body hb => ?_⟩
    obtain ⟨body', hb', rfl⟩ := Option.map_eq_some_iff.1 hb
    exact (hattached body' hb').rewritten fun hn => (hselect hn).2 body' hb'

/-- Where graphs are removed no block comes to stand in another. -/
theorem blockAsRead_mapGraph_none (head : Head) :
    ∃ head', ∀ body, blockAsRead (head.mapGraph fun _ => none) body = block head' body := by
  cases head with
  | group | select | describe | pattern | construct | ask => exact ⟨_, fun _ => rfl⟩

theorem nestingAll_map {f : Statement → Statement}
    (h : ∀ s ∈ ss, (f s).nesting = s.nesting) : nestingAll (ss.map f) = nestingAll ss := by
  induction ss with
  | nil => rfl
  | cons s ss ih =>
    rw [List.map_cons, nestingAll, nestingAll, h s (by simp),
      ih fun t ht => h t (List.mem_cons_of_mem _ ht)]

theorem nesting_rewritten_none (s : Statement) :
    (Statement.rewritten none s).nesting = s.nesting := by
  induction s using Statement.induct with
  | simple text => rfl
  | block head body ih =>
    obtain ⟨head', hblock⟩ := blockAsRead_mapGraph_none head
    rw [rewritten_block, hblock, nesting, nesting, nestingAll_map ih]
  | update head template attached ih₁ ih₂ =>
    rw [rewritten_update]
    cases attached with
    | none =>
      show max (nestingAll (template.map _)) 0 + 1 = max (nestingAll template) 0 + 1
      rw [nestingAll_map ih₁]
    | some body =>
      show max (nestingAll (template.map _)) (nestingAll (body.map _)) + 1
        = max (nestingAll template) (nestingAll body) + 1
      rw [nestingAll_map ih₁, nestingAll_map (ih₂ body rfl)]

theorem depth_rewritten_none (s : Statement) : (Statement.rewritten none s).depth = s.depth := by
  have hall : ∀ ss, nestingAll (ss.map (Statement.rewritten none)) = nestingAll ss :=
    fun ss => nestingAll_map fun s _ => nesting_rewritten_none s
  cases s with
  | simple text => rfl
  | block head body =>
    obtain ⟨head', hblock⟩ := blockAsRead_mapGraph_none head
    rw [rewritten_block, hblock, depth, depth, hall]
  | update head template attached =>
    rw [rewritten_update]
    cases attached with
    | none =>
      show max (nestingAll (template.map _)) 0 = max (nestingAll template) 0
      rw [hall]
    | some body =>
      show max (nestingAll (template.map _)) (nestingAll (body.map _))
        = max (nestingAll template) (nestingAll body)
      rw [hall, hall]

/-! ## 5. Variables and graphs -/

theorem unknowns_blockAsRead (head : Head) (body : List Statement) :
    (blockAsRead (head.mapGraph fun _ => graph) body).unknowns =
      head.variableNames ∪ unknownsAll body := by
  cases head with
  | group x optional =>
    cases graph with
    | none => rfl
    | some g =>
      cases optional with
      | false => rfl
      | true =>
        ext x
        simp [blockAsRead, Head.mapGraph, unknowns, unknownsAll, Head.variableNames]
  | _ => rfl

theorem unknowns_rewritten (s : Statement) :
    (Statement.rewritten graph s).unknowns = s.unknowns := by
  induction s using Statement.induct with
  | simple text => rfl
  | block head body ih =>
    rw [rewritten_block, unknowns_blockAsRead, unknownsAll_map ih, unknowns]
  | update head template attached ih₁ ih₂ =>
    rw [rewritten_update]
    cases attached with
    | none =>
      show unknownsAll (template.map _) ∪ ∅ = unknownsAll template ∪ ∅
      rw [unknownsAll_map ih₁]
    | some body =>
      show unknownsAll (template.map _) ∪ unknownsAll (body.map _)
        = unknownsAll template ∪ unknownsAll body
      rw [unknownsAll_map ih₁, unknownsAll_map (ih₂ body rfl)]

theorem graph_of_mem_graphs_blockAsRead {x : Text} {head : Head} {body : List Statement}
    (h : x ∈ (blockAsRead (head.mapGraph fun _ => graph) body).graphs) :
    graph = some x ∨ x ∈ graphsAll body := by
  cases head with
  | group y optional =>
    cases graph with
    | none => simpa [blockAsRead, Head.mapGraph, graphs, Head.graph?] using h
    | some g =>
      cases optional <;>
        simpa [blockAsRead, Head.mapGraph, graphs, graphsAll, Head.graph?] using h
  | select | describe =>
    simpa [blockAsRead, Head.mapGraph, graphs, Head.graph?, Projection.asRead] using h
  | pattern | construct | ask =>
    exact .inr (by simpa [blockAsRead, Head.mapGraph, graphs, Head.graph?] using h)

theorem graph_of_mem_graphs_rewritten {x : Text} (h : x ∈ (Statement.rewritten graph s).graphs) :
    graph = some x := by
  have hall : ∀ ss : List Statement, (∀ s ∈ ss, x ∈ (Statement.rewritten graph s).graphs →
      graph = some x) → x ∈ graphsAll (ss.map (Statement.rewritten graph)) → graph = some x := by
    intro ss ih hx
    obtain ⟨t, ht, hx⟩ := mem_graphsAll.1 hx
    obtain ⟨u, hu, rfl⟩ := List.mem_map.1 ht
    exact ih u hu hx
  induction s using Statement.induct with
  | simple text => exact absurd h (NameSet.not_mem_empty x)
  | block head body ih =>
    rw [rewritten_block] at h
    rcases graph_of_mem_graphs_blockAsRead h with hg | hx
    · exact hg
    · exact hall body ih hx
  | update head template attached ih₁ ih₂ =>
    rw [rewritten_update] at h
    cases attached with
    | none =>
      have h : x ∈ graphsAll (template.map (Statement.rewritten graph)) ∪ ∅ := h
      rw [NameSet.mem_union] at h
      rcases h with hx | hx
      · exact hall template ih₁ hx
      · exact absurd hx (NameSet.not_mem_empty x)
    | some body =>
      have h : x ∈ graphsAll (template.map (Statement.rewritten graph)) ∪
        graphsAll (body.map (Statement.rewritten graph)) := h
      rw [NameSet.mem_union] at h
      rcases h with hx | hx
      · exact hall template ih₁ hx
      · exact hall body (ih₂ body rfl) hx

/-! ## 6. The order of statements -/

theorem rewritten_eq_update {head : UpdateHead} {template : List Statement}
    (h : Statement.rewritten graph s = .update head template none) : ∃ template',
      s = .update head template' none ∧ unknownsAll template = unknownsAll template' := by
  cases s with
  | simple text => nomatch h
  | block head' body =>
    rw [rewritten_block, blockAsRead.eq_def] at h
    split at h <;> nomatch h
  | update head' template' attached =>
    rw [rewritten_update] at h
    obtain ⟨rfl, rfl, hattached⟩ := Statement.update.inj h
    obtain rfl := Option.map_eq_none_iff.1 hattached
    exact ⟨template', rfl, unknownsAll_map fun s _ => unknowns_rewritten s⟩

theorem Apart.rewritten (h : Apart ss) : Apart (ss.map (Statement.rewritten graph)) := by
  induction ss with
  | nil => exact trivial
  | cons s ss ih =>
    cases ss with
    | nil => exact trivial
    | cons t ts =>
      refine ⟨?_, ih h.2⟩
      rintro ⟨head, template, he⟩
      obtain ⟨template', rfl, -⟩ := rewritten_eq_update he
      rw [kind_rewritten]
      exact h.1 ⟨head, template', rfl⟩

theorem Unbound.of_rewritten (h : (Statement.rewritten graph s).Unbound) : s.Unbound := by
  obtain ⟨head, template, he, hdata, hvars⟩ := h
  obtain ⟨template', rfl, hunknowns⟩ := rewritten_eq_update he
  exact ⟨head, template', rfl, hdata, hunknowns ▸ hvars⟩

theorem Bound.rewritten {next : Bool} (h : Bound next ss) :
    Bound next (ss.map (Statement.rewritten graph)) := by
  induction ss with
  | nil => exact trivial
  | cons s ss ih =>
    cases ss with
    | nil => exact fun hs => h hs.of_rewritten
    | cons t ts => exact ⟨fun hs => (kind_rewritten t).trans (h.1 hs.of_rewritten), ih h.2⟩

end Statement

theorem TopLevel.rewritten {form : QueryForm} (h : TopLevel form ss) :
    TopLevel form (ss.map (rewritten graph)) := by
  have hkind : ∀ {P : StatementKind → Prop} {ts : List Statement}, (∀ t ∈ ts, P t.kind) →
      ∀ t ∈ ts.map (Statement.rewritten graph), P t.kind := by
    intro P ts hts t ht
    obtain ⟨u, hu, rfl⟩ := List.mem_map.1 ht
    rw [Statement.kind_rewritten]
    exact hts u hu
  cases h with
  | @select before after s hb hs =>
    rw [List.map_append, List.map_cons]
    refine .select ?_ ((Statement.kind_rewritten s).trans hs)
    rw [← List.map_append]
    exact hkind (P := (· = .pattern)) hb
  | describe hb hs =>
    rw [List.map_append]
    exact .describe (hkind (P := (· = .pattern)) hb) ((Statement.kind_rewritten _).trans hs)
  | construct hb hs =>
    rw [List.map_append]
    exact .construct (hkind (P := (· = .pattern)) hb) ((Statement.kind_rewritten _).trans hs)
  | ask hb hs =>
    rw [List.map_append]
    exact .ask (hkind (P := (· = .pattern)) hb) ((Statement.kind_rewritten _).trans hs)
  | update hall hex =>
    obtain ⟨t, ht, hk⟩ := hex
    exact .update (hkind (P := fun k => k = .pattern ∨ k = .update) hall)
      ⟨_, List.mem_map_of_mem ht, (Statement.kind_rewritten t).trans hk⟩

/-! ## 7. Rewritten queries -/

namespace Query

variable {cfg : Config} {q : Query} {text g : Text}

/-- The query that is read from the text of a query whose graphs were rewritten. -/
def rewritten (graph : Option Text) (q : Query) : Query :=
  { q with graph, statements := q.statements.map (Statement.rewritten graph) }

theorem render_rewritten (q : Query) (g : Text) :
    (q.rewritten (graphNamed g)).render = (q.assignGraph g).render := by
  have hstatements : (q.statements.map (Statement.rewritten (graphNamed g))).map Statement.render
      = (q.statements.map (Statement.assignGraph g)).map Statement.render := by
    rw [List.map_map, List.map_map]
    exact List.map_congr_left fun s _ => Statement.render_asRead (s.assignGraph g)
  rw [render, render, assignGraph, mapGraph]
  show Text.lines ((q.rewritten (graphNamed g)).prologue ++
    (q.statements.map (Statement.rewritten (graphNamed g))).map Statement.render) = _
  rw [hstatements]
  rfl

theorem Shaped.rewritten (h : q.Shaped) (hg : ∀ iri ∈ graph, IsIri iri) :
    (q.rewritten graph).Shaped where
  base := h.base
  prefixes := h.prefixes
  graph := hg
  order := h.order.rewritten
  top := by
    intro s hs
    obtain ⟨t, ht, rfl⟩ := List.mem_map.1 hs
    exact (h.top t ht).rewritten hg
  closed := by
    intro s hs
    have hs : s ∈ (q.statements.map (Statement.rewritten graph)).dropLast := hs
    rw [← List.map_dropLast] at hs
    obtain ⟨t, ht, rfl⟩ := List.mem_map.1 hs
    rw [Statement.modifiers_rewritten]
    exact h.closed t ht

/-- A canonical query is canonical with its graphs rewritten if its blocks do not come to stand too
deep and if no group comes to be taken for a sub-select. -/
theorem Canonical.rewritten (h : q.Canonical cfg) (hg : ∀ iri ∈ graph, IsIri iri)
    (hdepth : graph ≠ none → ∀ s ∈ q.statements, (s.rewritten graph).depth ≤ cfg.maxDepth)
    (hselect : graph = none → ∀ s ∈ q.statements, s.NoSelectInGraph) :
    (q.rewritten graph).Canonical cfg where
  shaped := h.shaped.rewritten hg
  stable := by
    intro s hs
    obtain ⟨t, ht, rfl⟩ := List.mem_map.1 hs
    exact (h.shaped.top t ht).stable_rewritten (h.stable t ht) fun hn => hselect hn t ht
  apart := h.apart.rewritten
  depth := by
    intro s hs
    obtain ⟨t, ht, rfl⟩ := List.mem_map.1 hs
    cases graph with
    | none => exact (Statement.depth_rewritten_none t).symm ▸ h.depth t ht
    | some x => exact hdepth (by simp) t ht
  bound := fun hstrict => (h.bound hstrict).rewritten

/-- A query that was read and is read from its own text as it is is canonical. -/
theorem canonical_of_reparse (h : parse cfg text = .ok q)
    (hround : reparse cfg q = .ok { q with source := q.render }) : q.Canonical cfg := by
  have hstable : q.Stable := stable_of_roundTrips h ⟨_, hround, rfl, rfl, rfl, rfl, rfl, rfl, rfl⟩
  have hcanonical := canonical_attached h hstable
  obtain ⟨c, hwritten⟩ := hcanonical.read_written
  have hread := parse_of_read hwritten (hcanonical.shaped.query?_draft _)
  rw [render_attached (sound_of_parse h).1] at hread
  -- What is read has its WHERE bodies attached, and it is the query itself.
  have hsame := Except.ok.inj (hround.symm.trans hread)
  have hattached : Statement.attachAll q.statements = q.statements :=
    (congrArg statements hsame).symm
  rwa [attached, hattached] at hcanonical

theorem graphs_rewritten (q : Query) : (q.rewritten graph).graphs = .ofOption graph := by
  ext x
  simp only [graphs, NameSet.mem_union, NameSet.mem_ofOption]
  constructor
  · rintro (hx | hx)
    · exact hx
    · obtain ⟨s, hs, hx⟩ := Statement.mem_graphsAll.1 hx
      obtain ⟨t, -, rfl⟩ := List.mem_map.1 hs
      exact Statement.graph_of_mem_graphs_rewritten hx
  · exact .inl

/-- If a query that was read is read from its own text as it is, then it can also be read from its
text once its graphs are rewritten, and names the new graph only. This asks that the blocks of the
new text stand no deeper than may be read, an optional group in a graph being two of them, and, if
the graphs are removed, that none of the groups in them begins with SELECT. -/
theorem reparse_assignGraph (h : parse cfg text = .ok q)
    (hround : reparse cfg q = .ok { q with source := q.render }) (hg : IsIri g)
    (hdepth : g ≠ [] →
      ∀ s ∈ q.statements, (s.rewritten (graphNamed g)).depth ≤ cfg.maxDepth)
    (hselect : g = [] → ∀ s ∈ q.statements, s.NoSelectInGraph) :
    ∃ q', reparse cfg (q.assignGraph g) = .ok q' ∧ q'.form = q.form ∧ q'.prefixes = q.prefixes ∧
      q'.base = q.base ∧ q'.unknowns = q.unknowns ∧ q'.graph = graphNamed g ∧
      q'.graphs = .ofOption (graphNamed g) := by
  have hiri : ∀ iri ∈ graphNamed g, IsIri iri := by
    intro iri hmem
    rw [graphNamed] at hmem
    split at hmem
    · nomatch hmem
    · exact Option.some.inj hmem ▸ hg
  have hnamed : graphNamed g = none ↔ g = [] := by simp [graphNamed]
  -- The new text is that of a canonical query, which is read from it as it is.
  have hcanonical := (canonical_of_reparse h hround).rewritten hiri
    (fun hne => hdepth fun he => hne (hnamed.2 he)) fun hn => hselect (hnamed.1 hn)
  obtain ⟨c, hwritten⟩ := hcanonical.read_written
  have hread := parse_of_read hwritten (hcanonical.shaped.query?_draft _)
  rw [render_rewritten] at hread
  refine ⟨_, hread, rfl, rfl, rfl, ?_, rfl, graphs_rewritten q⟩
  exact Statement.unknownsAll_map fun s _ => Statement.unknowns_rewritten s

theorem reparse_assignGraph_ask :
    let text := "ASK { OPTIONAL { ?s ?p ?o } GRAPH <x> { ?o a ?t } }".toList
    let q : Query :=
      { form := .ask
        statements := [.block .ask
          [.block (.group none true) [.simple "?s ?p ?o".toList],
            .block (.group (some ['x']) false) [.simple "?o a ?t".toList]]]
        source := text }
    parse {} text = .ok q ∧ reparse {} q = .ok { q with source := q.render } ∧
      (∃ q', reparse {} (q.assignGraph ['g']) = .ok q' ∧ q'.graphs = .ofOption (some ['g'])) ∧
      ∃ q', reparse {} (q.assignGraph []) = .ok q' ∧ q'.graphs = ∅ := by
  intro text q
  have hparse : parse {} text = .ok q := eq_ok_of_toOption (by decide +kernel)
  have hround : reparse {} q = .ok { q with source := q.render } :=
    eq_ok_of_toOption (by decide +kernel)
  refine ⟨hparse, hround, ?_, ?_⟩
  · obtain ⟨q', hread, -, -, -, -, -, hgraphs⟩ := reparse_assignGraph (g := ['g']) hparse hround
      (by unfold IsIri; decide) (fun _ => by decide +kernel) fun h => nomatch h
    exact ⟨q', hread, hgraphs⟩
  · have hselect : ∀ s ∈ q.statements, s.NoSelectInGraph := by
      intro s hs
      rw [List.mem_singleton.1 hs]
      refine .block trivial (.simple trivial .nil) (.block (fun t rest he => ?_)
        (.simple trivial .nil) .nil)
      obtain rfl := Statement.simple.inj (List.cons_eq_cons.1 he).1
      decide +kernel
    obtain ⟨q', hread, -, -, -, -, -, hgraphs⟩ := reparse_assignGraph (g := []) hparse hround
      (by unfold IsIri; decide) (fun h => absurd rfl h) fun _ => hselect
    exact ⟨q', hread, hgraphs⟩

/-- An optional group that gets a graph is written as two groups, which may be one too many. -/
theorem not_reparse_assignGraph_optional :
    let cfg : Config := { maxDepth := 1 }
    let text := "ASK { OPTIONAL { ?s ?p ?o } }".toList
    let q : Query :=
      { form := .ask
        statements := [.block .ask [.block (.group none true) [.simple "?s ?p ?o".toList]]]
        source := text }
    parse cfg text = .ok q ∧ reparse cfg q = .ok { q with source := q.render } ∧ IsIri ['g'] ∧
      ¬ ∃ q', reparse cfg (q.assignGraph ['g']) = .ok q' := by
  intro cfg text q
  refine ⟨eq_ok_of_toOption (by decide +kernel), eq_ok_of_toOption (by decide +kernel),
    by unfold IsIri; decide, ?_⟩
  rintro ⟨q', hread⟩
  have hrefused : (reparse cfg (q.assignGraph ['g'])).isOk = false := by decide +kernel
  rw [hread] at hrefused
  nomatch hrefused

/-- Without its graph, a group that begins with SELECT is taken for a sub-select. -/
theorem not_reparse_assignGraph_select :
    let text := "ASK { GRAPH <x> { SELECT ?y } }".toList
    let q : Query :=
      { form := .ask
        statements := [.block .ask
          [.block (.group (some ['x']) false) [.simple "SELECT ?y".toList]]]
        source := text }
    parse {} text = .ok q ∧ reparse {} q = .ok { q with source := q.render } ∧ IsIri [] ∧
      ¬ ∃ q', reparse {} (q.assignGraph []) = .ok q' := by
  intro text q
  refine ⟨eq_ok_of_toOption (by decide +kernel), eq_ok_of_toOption (by decide +kernel),
    by unfold IsIri; decide, ?_⟩
  rintro ⟨q', hread⟩
  have hrefused : (reparse {} (q.assignGraph [])).isOk = false := by decide +kernel
  rw [hread] at hrefused
  nomatch hrefused

end Query

end SparqlTree
