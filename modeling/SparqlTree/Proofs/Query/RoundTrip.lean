import SparqlTree.Proofs.Query.Balance
import SparqlTree.Proofs.Query.Unique

/-!
# Which queries survive being written and read

A query that was read from a text is read from its own text again with the same form, declarations,
graphs and variables, and is then written in the same way, if and only if it is stable
(`Query.roundTrips_iff_stable`). The tree may change: a WHERE body behind an update that had none is
read as part of that update (`Statement.attachAll`). If the query is not stable then either its text
is not a query, or some of that text is lost.
-/

namespace SparqlTree

open Text (Closed lineTokens)

/-! ## 1. WHERE bodies behind updates -/

namespace Statement

/-- Attaches WHERE bodies to the updates without one that they stand behind. -/
def attachAll : List Statement → List Statement
  | .update head template none :: .block .pattern body :: ss =>
    .update head template (some body) :: attachAll ss
  | s :: ss => s :: attachAll ss
  | [] => []

variable {ss : List Statement}

theorem attachAll_attach (head : UpdateHead) (template body ss : List Statement) :
    attachAll (.update head template none :: .block .pattern body :: ss) =
      .update head template (some body) :: attachAll ss := rfl

theorem attachAll_keep {s : Statement} (h : ∀ head template body ts,
    s = .update head template none → ss = .block .pattern body :: ts → False) :
    attachAll (s :: ss) = s :: attachAll ss := by
  rw [attachAll]
  exact h

/-- A property of lists of statements can be shown for an update together with the WHERE body behind
it, and for other statements one by one. -/
theorem attachAll_induction {motive : List Statement → Prop} (nil : motive [])
    (merge : ∀ head template body ss, motive ss →
      motive (.update head template none :: .block .pattern body :: ss))
    (keep : ∀ s ss, attachAll (s :: ss) = s :: attachAll ss →
      ((∃ head template, s = .update head template none) → ∀ t ∈ ss.head?, t.kind ≠ .pattern) →
      motive ss → motive (s :: ss)) (hss : ∀ s ∈ ss, s.Top) : motive ss := by
  induction ss using attachAll.induct with
  | case1 head template body ss ih =>
    exact merge head template body ss (ih fun t ht => hss t (by simp [ht]))
  | case2 s ss hno ih =>
    refine keep s ss (attachAll_keep hno) ?_ (ih fun t ht => hss t (List.mem_cons_of_mem _ ht))
    · rintro ⟨head, template, rfl⟩ t ht hk
      obtain ⟨ts, rfl⟩ := List.head?_eq_some_iff.1 ht
      cases hss t (by simp) with
      | update => nomatch hk
      | @block head' body htop =>
        cases htop with
        | pattern => exact hno head template body ts rfl rfl
        | _ => nomatch hk
  | case3 => exact nil

theorem layoutAll_attachAll (h : ∀ s ∈ ss, s.Top) : layoutAll (attachAll ss) = layoutAll ss := by
  refine attachAll_induction (motive := fun ss => layoutAll (attachAll ss) = layoutAll ss) rfl
    (fun head template body ss ih => ?_) (fun s ss he _ ih => ?_) h
  · rw [attachAll_attach, layoutAll, layoutAll, layoutAll, ih, layout_update, layout_update]
    show head.opening :: layoutAll template ++
        closeLine :: (whereLine :: layoutAll body ++ [closeLine]) ++ _ =
      head.opening :: layoutAll template ++ [closeLine] ++
        ([whereLine] ++ layoutAll body ++ [closeLine] ++ _)
    simp
  · rw [he, layoutAll, layoutAll, ih]

theorem unknownsAll_attachAll (h : ∀ s ∈ ss, s.Top) :
    unknownsAll (attachAll ss) = unknownsAll ss := by
  refine attachAll_induction (motive := fun ss => unknownsAll (attachAll ss) = unknownsAll ss) rfl
    (fun head template body ss ih => ?_) (fun s ss he _ ih => ?_) h
  · rw [attachAll_attach, unknownsAll, unknownsAll, unknownsAll, ih]
    ext x
    simp [unknowns, Head.variableNames, or_assoc]
  · rw [he, unknownsAll, unknownsAll, ih]

theorem graphsAll_attachAll (h : ∀ s ∈ ss, s.Top) : graphsAll (attachAll ss) = graphsAll ss := by
  refine attachAll_induction (motive := fun ss => graphsAll (attachAll ss) = graphsAll ss) rfl
    (fun head template body ss ih => ?_) (fun s ss he _ ih => ?_) h
  · rw [attachAll_attach, graphsAll, graphsAll, graphsAll, ih]
    ext x
    simp [graphs, Head.graph?, or_assoc]
  · rw [he, graphsAll, graphsAll, ih]

/-- What holds of an update with a WHERE body if it holds of its parts holds of all statements after
attaching if it did before. -/
theorem forall_attachAll {P : Statement → Prop}
    (hP : ∀ head template body, P (.update head template (some body)) ↔
      P (.update head template none) ∧ P (.block .pattern body)) (h : ∀ s ∈ ss, s.Top) :
    (∀ s ∈ attachAll ss, P s) ↔ ∀ s ∈ ss, P s := by
  refine attachAll_induction
    (motive := fun ss => (∀ s ∈ attachAll ss, P s) ↔ ∀ s ∈ ss, P s) Iff.rfl
    (fun head template body ss ih => ?_) (fun s ss he _ ih => ?_) h
  · rw [attachAll_attach, List.forall_mem_cons, List.forall_mem_cons, List.forall_mem_cons, hP, ih,
      and_assoc]
  · rw [he, List.forall_mem_cons, List.forall_mem_cons, ih]

theorem attachAll_eq_self (h : ∀ s ∈ ss, s.kind ≠ .update) : attachAll ss = ss := by
  induction ss using attachAll.induct with
  | case1 head template body ss => exact absurd rfl (h (.update head template none) (by simp))
  | case2 s ss hno ih =>
    rw [attachAll_keep hno, ih fun t ht => h t (List.mem_cons_of_mem _ ht)]
  | case3 => rfl

/-- Attaching keeps the kind of the first statement. -/
theorem kind_head_attachAll (ss : List Statement) :
    (attachAll ss).head?.map kind = ss.head?.map kind := by
  cases ss using attachAll.induct with
  | case1 => rfl
  | case2 s ss hno =>
    rw [attachAll_keep hno]
    rfl
  | case3 => rfl

theorem apart_attachAll (h : ∀ s ∈ ss, s.Top) : Apart (attachAll ss) := by
  have hcons : ∀ s ss, ((∃ head template, s = .update head template none) →
      ∀ t ∈ ss.head?, t.kind ≠ .pattern) → Apart (attachAll ss) → Apart (s :: attachAll ss) := by
    intro s ss hs hapart
    have hkind := kind_head_attachAll ss
    cases ha : attachAll ss with
    | nil => exact trivial
    | cons t ts =>
      rw [ha] at hkind hapart
      refine ⟨fun hnone hk => ?_, hapart⟩
      obtain ⟨u, hu, hku⟩ := Option.map_eq_some_iff.1 hkind.symm
      exact hs hnone u hu (hku.trans hk)
  refine attachAll_induction (motive := fun ss => Apart (attachAll ss)) trivial
    (fun head template body ss ih => ?_) (fun s ss he hs ih => ?_) h
  · rw [attachAll_attach]
    exact hcons _ ss (fun ⟨_, _, he⟩ => nomatch he) ih
  · rw [he]
    exact hcons s ss hs ih

theorem Bound.of_cons {next : Bool} {s : Statement} (h : Bound next (s :: ss)) : Bound next ss := by
  cases ss with
  | nil => exact trivial
  | cons => exact h.2

theorem bound_attachAll {next : Bool} (h : ∀ s ∈ ss, s.Top) (hb : Bound next ss) :
    Bound next (attachAll ss) := by
  have hcons : ∀ s ss, (s.Unbound → (ss = [] ∧ next = true) ∨ ∃ t ∈ ss.head?, t.kind = .update) →
      Bound next (attachAll ss) → Bound next (s :: attachAll ss) := by
    intro s ss hs hbound
    have hkind := kind_head_attachAll ss
    cases ha : attachAll ss with
    | nil =>
      intro hunbound
      rcases hs hunbound with ⟨-, hn⟩ | ⟨t, ht, -⟩
      · exact hn
      · rw [ha, ht] at hkind
        nomatch hkind
    | cons t ts =>
      rw [ha] at hkind hbound
      refine ⟨fun hunbound => ?_, hbound⟩
      rcases hs hunbound with ⟨rfl, -⟩ | ⟨u, hu, hk⟩
      · nomatch hkind
      · rw [hu] at hkind
        exact (Option.some.inj hkind).trans hk
  refine attachAll_induction (motive := fun ss => Bound next ss → Bound next (attachAll ss)) id
    (fun head template body ss ih hb => ?_) (fun s ss he hs ih hb => ?_) h hb
  · rw [attachAll_attach]
    exact hcons _ ss (fun ⟨_, _, he, _⟩ => nomatch he) (ih hb.of_cons.of_cons)
  · rw [he]
    refine hcons s ss (fun hunbound => ?_) (ih hb.of_cons)
    cases ss with
    | nil => exact .inl ⟨rfl, hb hunbound⟩
    | cons t ts => exact .inr ⟨t, rfl, hb.1 hunbound⟩

end Statement

theorem TopLevel.attachAll {form : QueryForm} {ss : List Statement} (h : TopLevel form ss)
    (htop : ∀ s ∈ ss, s.Top) : TopLevel form (Statement.attachAll ss) := by
  by_cases hform : form = .update
  · subst hform
    cases h with
    | update hall hex =>
      refine .update ((Statement.forall_attachAll (fun _ _ _ => ?_) htop).2 hall) ?_
      · simp [Statement.kind, Head.kind]
      · obtain ⟨t, ht, hk⟩ := hex
        refine Classical.byContradiction fun hno => ?_
        have hnone : ∀ s ∈ Statement.attachAll ss, s.kind ≠ .update :=
          fun s hs hk => hno ⟨s, hs, hk⟩
        refine (Statement.forall_attachAll (fun _ _ _ => ?_) htop).1 hnone t ht hk
        simp [Statement.kind, Head.kind]
  · rwa [Statement.attachAll_eq_self (h.kind_ne_update hform)]

namespace Query

variable {cfg : Config} {q q' : Query} {text : Text}

/-- The query with WHERE bodies attached to the updates that they stand behind. -/
def attached (q : Query) : Query := { q with statements := Statement.attachAll q.statements }

theorem Shaped.modifiers_eq_nil (h : q.Shaped) (hform : q.form = .update) :
    ∀ s ∈ q.statements, s.modifiers = [] := by
  have horder := h.order
  rw [hform] at horder
  intro s hs
  cases horder with
  | update hall =>
    have hk := hall s hs
    cases h.top s hs with
    | update => rfl
    | block htop =>
      cases htop with
      | pattern => rfl
      | _ => rcases hk with hk | hk <;> nomatch hk

theorem Shaped.attached (h : q.Shaped) : q.attached.Shaped where
  base := h.base
  prefixes := h.prefixes
  graph := h.graph
  order := h.order.attachAll h.top
  top := by
    refine (Statement.forall_attachAll (fun head template body => ?_) h.top).2 h.top
    constructor
    · intro ht
      cases ht with
      | update ht ha => exact ⟨.update ht fun _ h => (nomatch h), .block .pattern (ha body rfl)⟩
    · rintro ⟨ht, hb⟩
      cases ht with
      | update ht _ =>
        cases hb with
        | block _ hb => exact .update ht fun b hb' => Option.some.inj hb' ▸ hb
  closed := by
    show ∀ s ∈ (Statement.attachAll q.statements).dropLast, _
    by_cases hform : q.form = .update
    · have hnil : ∀ s ∈ Statement.attachAll q.statements, s.modifiers = [] :=
        (Statement.forall_attachAll (fun _ _ _ => ⟨fun _ => ⟨rfl, rfl⟩, fun _ => rfl⟩) h.top).2
          (h.modifiers_eq_nil hform)
      intro s hs m hm
      rw [hnil s (List.dropLast_subset _ hs)] at hm
      nomatch hm
    · rw [Statement.attachAll_eq_self (h.order.kind_ne_update hform)]
      exact h.closed

theorem stable_attached (h : q.Shaped) : q.attached.Stable ↔ q.Stable := by
  refine Statement.forall_attachAll (fun head template body => ?_) h.top
  constructor
  · rintro ⟨ht, ha⟩
    exact ⟨⟨ht, fun _ h => nomatch h⟩, ha body rfl⟩
  · rintro ⟨⟨ht, -⟩, hb⟩
    exact ⟨ht, fun b hb' => Option.some.inj hb' ▸ hb⟩

theorem render_attached (h : q.Shaped) : q.attached.render = q.render := by
  have hlayout : q.attached.layout = q.layout := by
    show q.prologue ++ Statement.layoutAll (Statement.attachAll q.statements) = _
    rw [Statement.layoutAll_attachAll h.top]
    rfl
  have hne : q.layout ≠ [] := List.append_ne_nil_of_right_ne_nil _ h.layoutAll_ne_nil
  have hrender := cons_render (q := q.attached) (hlayout ▸ hne)
  rw [hlayout, ← cons_render hne] at hrender
  exact (List.cons_eq_cons.1 hrender).2

/-- A stable query that was read is canonical once its WHERE bodies are attached. -/
theorem canonical_attached (h : parse cfg text = .ok q) (hstable : q.Stable) :
    q.attached.Canonical cfg := by
  obtain ⟨hshaped, hdepth, hbound⟩ := sound_of_parse h
  refine ⟨hshaped.attached, (stable_attached hshaped).2 hstable,
    Statement.apart_attachAll hshaped.top, ?_, fun hstrict =>
      Statement.bound_attachAll hshaped.top (hbound hstrict)⟩
  refine (Statement.forall_attachAll (fun head template body => ?_) hshaped.top).2 hdepth
  show max _ _ ≤ _ ↔ max _ 0 ≤ _ ∧ _ ≤ _
  rw [Nat.max_zero]
  exact Nat.max_le

/-! ## 2. The round trip -/

/-- True of queries that cannot be told apart by their form, their declarations, their graphs and
variables, and their text. -/
structure Agrees (q q' : Query) : Prop where
  form : q'.form = q.form
  base : q'.base = q.base
  prefixes : q'.prefixes = q.prefixes
  graph : q'.graph = q.graph
  graphs : q'.graphs = q.graphs
  unknowns : q'.unknowns = q.unknowns
  render : q'.render = q.render

/-- True of queries that are read from their own text as a query that agrees with them. -/
def RoundTrips (cfg : Config) (q : Query) : Prop := ∃ q', reparse cfg q = .ok q' ∧ q.Agrees q'

theorem roundTrips_of_stable (h : parse cfg text = .ok q) (hstable : q.Stable) :
    q.RoundTrips cfg := by
  have hshaped := (sound_of_parse h).1
  have hrender := render_attached hshaped
  obtain ⟨c, hdraft⟩ := (canonical_attached h hstable).read_written
  have hread := parse_of_read hdraft (hshaped.attached.query?_draft _)
  rw [hrender] at hread
  refine ⟨_, hread, rfl, rfl, rfl, rfl, ?_, ?_, hrender⟩
  · show NameSet.ofOption q.graph ∪ Statement.graphsAll (Statement.attachAll q.statements) = _
    rw [Statement.graphsAll_attachAll hshaped.top]
    rfl
  · show Statement.unknownsAll (Statement.attachAll q.statements) = _
    rw [Statement.unknownsAll_attachAll hshaped.top]
    rfl

/-- Queries with the same declarations and the same text have the same lines behind the
declarations. -/
theorem Agrees.lineTokens_eq (h : q.Agrees q') (hq : q.Shaped) (hq' : q'.Shaped) :
    lineTokens (Statement.layoutAll q'.statements)
      = lineTokens (Statement.layoutAll q.statements) := by
  have hprologue : q'.prologue = q.prologue := by
    rw [prologue_eq, prologue_eq, h.base, h.prefixes, h.graph]
  have htokens := hq'.tokens_render
  rw [h.render, hq.tokens_render, layout, layout, hprologue, Text.lineTokens_append,
    Text.lineTokens_append] at htokens
  exact (List.append_cancel_left htokens).symm

theorem stable_of_roundTrips (h : parse cfg text = .ok q) (hround : q.RoundTrips cfg) :
    q.Stable := by
  obtain ⟨q', hread, hagrees⟩ := hround
  have hq := (sound_of_parse h).1
  have hq' := (sound_of_parse hread).1
  have hsame := hagrees.lineTokens_eq hq hq'
  have hstable := stable_of_parse hq hread hsame
  -- The two queries are the same but for where their WHERE bodies are attached.
  have hattached : Statement.attachAll q'.statements = Statement.attachAll q.statements := by
    refine Statement.layoutAll_injective hq'.attached.top hq.attached.top
      (Statement.apart_attachAll hq'.top) (Statement.apart_attachAll hq.top) ?_
    rw [Statement.layoutAll_attachAll hq'.top, Statement.layoutAll_attachAll hq.top, hsame]
  have hstable' := (stable_attached hq').2 hstable
  rw [← stable_attached hq]
  intro s hs
  have hs : s ∈ Statement.attachAll q.statements := hs
  rw [← hattached] at hs
  exact hstable' s hs

/-- A query that was read is read from its own text again, and agrees with what is read then, if and
only if it is stable. -/
theorem roundTrips_iff_stable (h : parse cfg text = .ok q) : q.RoundTrips cfg ↔ q.Stable :=
  ⟨stable_of_roundTrips h, roundTrips_of_stable h⟩

/-- A WHERE body behind a semicolon is read as part of the update before it when the query is read
again. The query is stable, and survives as far as it can be told. -/
theorem roundTrips_iff_stable_update :
    let text := "INSERT DATA { <s> <p> <o> } ; WHERE { ?s ?p ?o }".toList
    let update := Statement.update { operation := .insert, data := true }
      [.simple "<s> <p> <o>".toList]
    let body : List Statement := [.simple "?s ?p ?o".toList]
    let q : Query :=
      { form := .update, statements := [update none, .block .pattern body], source := text }
    parse {} text = .ok q ∧ (q.RoundTrips {} ↔ q.Stable) ∧ q.Stable ∧ q.RoundTrips {} ∧
      reparse {} q = .ok { q with statements := [update (some body)], source := q.render } := by
  intro text update body q
  have hq : parse {} text = .ok q := eq_ok_of_toOption (by decide +kernel)
  have hwords : ∀ t ∈ ["<s> <p> <o>".toList, "?s ?p ?o".toList], (∀ w ∈ Text.tokens t,
      Keyword.graph.leads w = false ∧ Keyword.optional.leads w = false) ∧ t.head? ≠ some '.' := by
    decide +kernel
  have hsimple : ∀ t ∈ ["<s> <p> <o>".toList, "?s ?p ?o".toList], ∀ style,
      StableBody style [.simple t] :=
    fun t ht style => .simple ⟨(hwords t ht).1, fun _ => (hwords t ht).2⟩ .nil
  have hstable : q.Stable := by
    intro s hs
    obtain rfl | rfl : s = update none ∨ s = .block .pattern body := by simpa [q] using hs
    · exact ⟨hsimple _ (by simp) _, fun _ h => nomatch h⟩
    · exact hsimple _ (by simp) _
  have hiff := roundTrips_iff_stable hq
  exact ⟨hq, hiff, hstable, hiff.2 hstable, eq_ok_of_toOption (by decide +kernel)⟩

/-- Once the full stop before it is dropped, SELECT begins a sub-select, and there is none. -/
theorem not_roundTrips_select :
    ∃ q, parse {} "ASK { { . SELECT ?x } }".toList = .ok q ∧ ¬ q.RoundTrips {} := by
  obtain ⟨q, hq⟩ := exists_eq_ok
    (x := parse {} "ASK { { . SELECT ?x } }".toList) (by decide +kernel)
  refine ⟨q, hq, ?_⟩
  rintro ⟨q', hread, -⟩
  have hrefused : (parse {} "ASK { { . SELECT ?x } }".toList >>= reparse {}).isOk = false := by
    decide +kernel
  have hread' : (parse {} "ASK { { . SELECT ?x } }".toList >>= reparse {}) = .ok q' :=
    bind_eq_ok.2 ⟨q, hq, hread⟩
  rw [hread'] at hrefused
  nomatch hrefused

end Query

end SparqlTree
