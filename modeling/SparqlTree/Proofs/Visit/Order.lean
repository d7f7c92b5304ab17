import SparqlTree.Visit.Trace

/-!
# The order of the calls of a visit

A visitor that leaves bodies in their order is called for the nodes of a tree in the order of the
outline, and a visit changes the nodes of the outline in place (`outline_visit`). So a visit is a
run over a list: a call that stops it is the last one, and the nodes behind it stay as they are.
-/

namespace SparqlTree

namespace Visit

variable {σ β α γ δ : Type}

theorem map_map (f : α → γ) (g : γ → δ) (visit : Visit σ β α) :
    (visit.map f).map g = visit.map (g ∘ f) := rfl

theorem map_andThen (first : Visit σ β α) (skipped : α → γ) (next : α → σ → Visit σ β γ)
    (f : γ → δ) :
    (first.andThen skipped next).map f =
      first.andThen (f ∘ skipped) fun a state => (next a state).map f := by
  obtain ⟨a, state, _ | b⟩ := first <;> rfl

theorem andThen_map (first : Visit σ β α) (f : α → γ) (skipped : γ → δ)
    (next : γ → σ → Visit σ β δ) :
    (first.map f).andThen skipped next =
      first.andThen (skipped ∘ f) fun a state => next (f a) state := rfl

theorem andThen_assoc (first : Visit σ β α) (skipped : α → γ) (next : α → σ → Visit σ β γ)
    (skipped' : γ → δ) (next' : γ → σ → Visit σ β δ) :
    (first.andThen skipped next).andThen skipped' next' =
      first.andThen (skipped' ∘ skipped) fun a state =>
        (next a state).andThen skipped' next' := by
  obtain ⟨a, state, _ | b⟩ := first <;> rfl

/-- Nothing comes after the visit. -/
theorem andThen_stay (first : Visit σ β α) (f : α → γ) :
    first.andThen f (fun a state => ⟨f a, state, none⟩) = first.map f := by
  obtain ⟨a, state, _ | b⟩ := first <;> rfl

end Visit

namespace Visitor

open Statement

variable {σ β : Type}

/-! ## Calls for the nodes of an outline -/

/-- The call for a block, without the order that is asked for. -/
def enter (v : Visitor σ β) (head : Head) (state : σ) : Visit σ β Head :=
  (v.block head state).map Prod.fst

/-- The calls for one node. An attached WHERE body is no statement of its own, and has nothing that
could be changed. -/
def call (v : Visitor σ β) : Node → σ → Visit σ β Node
  | .simple text, state =>
    (v.statement .simple state).andThen (fun _ => .simple text) fun _ state =>
      (v.simple text state).map .simple
  | .block head, state =>
    (v.statement head.kind state).andThen (fun _ => .block head) fun _ state =>
      (v.enter head state).map .block
  | .update head hasWhere, state =>
    (v.statement .update state).andThen (fun _ => .update head hasWhere) fun _ state =>
      (v.update head state).map fun head => .update head hasWhere
  | .attached, state => (v.enter .pattern state).map fun _ => .attached

/-- The calls for the nodes of an outline, one after another. -/
def callAll (v : Visitor σ β) : List OutlineEntry → σ → Visit σ β (List OutlineEntry)
  | [], state => ⟨[], state, none⟩
  | entry :: entries, state =>
    (v.call entry.node state).andThen (fun node => ⟨entry.depth, node⟩ :: entries)
      fun node state => (v.callAll entries state).map fun entries => ⟨entry.depth, node⟩ :: entries

theorem callAll_singleton (v : Visitor σ β) (entry : OutlineEntry) (state : σ) :
    v.callAll [entry] state = (v.call entry.node state).map fun node => [⟨entry.depth, node⟩] :=
  Visit.andThen_stay ..

theorem callAll_append (v : Visitor σ β) (entries others : List OutlineEntry) (state : σ) :
    v.callAll (entries ++ others) state =
      (v.callAll entries state).andThen (fun entries => entries ++ others) fun entries state =>
        (v.callAll others state).map fun others => entries ++ others := by
  induction entries generalizing state with
  | nil => rfl
  | cons entry entries ih =>
    rw [List.cons_append, callAll, callAll, Visit.andThen_assoc]
    simp only [ih, Visit.map_andThen, Visit.andThen_map]
    rfl

/-- The visitor leaves bodies in their order. -/
def KeepsOrder (v : Visitor σ β) : Prop :=
  ∀ head state, (v.block head state).value.2 = .asWritten

/-- The visits of the statements are the calls for their outlines. -/
def Calls (v : Visitor σ β) (ss : List Statement) : Prop :=
  ∀ s ∈ ss, ∀ depth state,
    (v.visit s state).map (outline depth) = v.callAll (s.outline depth) state

variable {v : Visitor σ β}

theorem KeepsOrder.block_eq (hv : v.KeepsOrder) (head : Head) (state : σ) :
    v.block head state = (v.enter head state).map fun head => (head, .asWritten) := by
  have horder := hv head state
  rw [enter]
  generalize v.block head state = visit at horder ⊢
  obtain ⟨⟨head', order⟩, state', stopped⟩ := visit
  exact horder ▸ rfl

theorem outlineAll_visitAll {ss : List Statement} (h : v.Calls ss) (depth : Nat) (state : σ) :
    (v.visitAll ss state).map (outlineAll depth) = v.callAll (outlineAll depth ss) state := by
  induction ss generalizing state with
  | nil => rfl
  | cons s ss ih =>
    rw [visitAll, outlineAll, callAll_append, ← h s (by simp), Visit.map_andThen,
      Visit.andThen_map]
    simp only [← ih fun t ht => h t (List.mem_cons_of_mem _ ht), Visit.map_map]
    rfl

/-- A visit makes the calls for the nodes of the outline, in its order, and changes the nodes in
place. -/
theorem outline_visit (hv : v.KeepsOrder) (s : Statement) (depth : Nat) (state : σ) :
    (v.visit s state).map (outline depth) = v.callAll (s.outline depth) state := by
  induction s using Statement.induct generalizing depth state with
  | simple text =>
    rw [visit, outline, callAll_singleton, call, Visit.map_andThen, Visit.map_andThen]
    rfl
  | block head body ih =>
    rw [visit, outline, callAll, call, Visit.map_andThen, Visit.andThen_assoc]
    simp only [hv.block_eq, Visit.map_andThen, Visit.map_map, Visit.andThen_map,
      ← outlineAll_visitAll ih (depth + 1)]
    rfl
  | update head template attached ih₁ ih₂ =>
    have htemplate := outlineAll_visitAll ih₁ (depth + 1)
    rw [visit, Visit.map_andThen]
    cases attached with
    | none =>
      -- The outline of no attached body is the empty list behind that of the template.
      rw [outline, List.cons_append, callAll, call, Visit.andThen_assoc]
      simp only [callAll_append, callAll, Visit.map_andThen, Visit.map_map, Visit.andThen_map,
        ← htemplate]
      rfl
    | some body =>
      have hbody := outlineAll_visitAll (ih₂ body rfl) (depth + 2)
      rw [outline, List.cons_append, callAll, call, Visit.andThen_assoc]
      simp only [hv.block_eq, callAll_append, callAll, call, Visit.map_andThen, Visit.map_map,
        Visit.andThen_map, ← htemplate, ← hbody]
      rfl

/-- The calls leave the nodes at their depths. -/
theorem depth_callAll (v : Visitor σ β) (entries : List OutlineEntry) (state : σ) :
    (v.callAll entries state).value.map OutlineEntry.depth = entries.map OutlineEntry.depth := by
  induction entries generalizing state with
  | nil => rfl
  | cons entry entries ih =>
    rw [callAll, Visit.andThen]
    split
    · rfl
    · exact congrArg (entry.depth :: ·) (ih _)

/-- A call that stops the visit is the last one. The nodes behind it stay as they are. -/
theorem callAll_of_stopped {entries : List OutlineEntry} {entry : OutlineEntry} {state : σ} {b : β}
    (hrun : (v.callAll entries state).stopped = none)
    (hstop : (v.call entry.node (v.callAll entries state).state).stopped = some b)
    (others : List OutlineEntry) :
    v.callAll (entries ++ entry :: others) state =
      ⟨(v.callAll entries state).value ++
          ⟨entry.depth, (v.call entry.node (v.callAll entries state).state).value⟩ :: others,
        (v.call entry.node (v.callAll entries state).state).state, some b⟩ := by
  rw [callAll_append, Visit.andThen, hrun, callAll]
  simp only [Visit.andThen, hstop, Visit.map]

end Visitor

/-! ## Visitors that write their calls down -/

namespace Node

/-- The call for the sort of a node. -/
def event : Node → Event
  | simple text => .simple text
  | block head => .block head
  | update head _ => .update head.operation
  | attached => .block .pattern

/-- The call for a node as a statement. An attached WHERE body is no statement of its own. -/
def statementEvent? : Node → Option Event
  | simple _ => some (.statement .simple)
  | block head => some (.statement head.kind)
  | update .. => some (.statement .update)
  | attached => none

/-- What is written down before the call for the sort of a node. -/
def announced (statements : Bool) (node : Node) : List Event :=
  if statements then node.statementEvent?.toList else []

/-- The calls for a node that are written down. -/
def events (statements : Bool) (node : Node) : List Event :=
  node.announced statements ++ [node.event]

end Node

/-- The calls for the nodes of an outline that are written down. -/
def eventsOf (statements : Bool) (entries : List OutlineEntry) : List Event :=
  entries.flatMap fun entry => entry.node.events statements

theorem eventsOf_append (statements : Bool) (entries others : List OutlineEntry) :
    eventsOf statements (entries ++ others) =
      eventsOf statements entries ++ eventsOf statements others :=
  List.flatMap_append

theorem eventsOf_singleton (statements : Bool) (entry : OutlineEntry) :
    eventsOf statements [entry] = entry.node.events statements :=
  List.append_nil _

namespace Visitor

variable {σ β : Type}

/-- The call was written down behind `before`, and it stopped the visit if `halt` says so of all
that is written down by then. -/
structure Noted {α : Type} (log : σ → List Event) (halt : List Event → Option β)
    (before : List Event) (event : Event) (visit : Visit σ β α) : Prop where
  log_eq : log visit.state = before ++ [event]
  stopped_eq : visit.stopped = halt (before ++ [event])

/-- The visitor writes down the call for every node, and the one for every statement too if
`statements` says so. It may change the nodes that it is called for, and their call may stop the
visit; bodies stay in their order. -/
structure Records (v : Visitor σ β) (statements : Bool) (log : σ → List Event)
    (halt : List Event → Option β) : Prop where
  dataset : ∀ graph state, v.dataset graph state = ⟨graph, state, none⟩
  statement : ∀ kind state,
    log (v.statement kind state).state =
      log state ++ (if statements then [.statement kind] else [])
  statement_stopped : ∀ kind state, (v.statement kind state).stopped = none
  simple : ∀ text state, Noted log halt (log state) (.simple text) (v.simple text state)
  block : ∀ head state, Noted log halt (log state) (.block head) (v.block head state)
  update : ∀ head state,
    Noted log halt (log state) (.update head.operation) (v.update head state)
  keepsOrder : v.KeepsOrder

namespace Records

variable {v : Visitor σ β} {statements : Bool} {log : σ → List Event}
  {halt : List Event → Option β}

/-- The calls for a node are written down. -/
theorem noted_call (w : v.Records statements log halt) (node : Node) (state : σ) :
    Noted log halt (log state ++ node.announced statements) node.event (v.call node state) := by
  -- Only the call for the sort of the node can stop the visit.
  have hcall {α γ : Type} (kind : StatementKind) (skipped : Unit → γ) (next : σ → Visit σ β α)
      (f : α → γ) : (v.statement kind state).andThen skipped (fun _ state => (next state).map f) =
        (next (v.statement kind state).state).map f := by
    rw [Visit.andThen, w.statement_stopped]
  cases node with
  | simple text =>
    have hnode := w.simple text (v.statement .simple state).state
    rw [w.statement] at hnode
    rw [call, hcall]
    cases statements <;> exact ⟨hnode.1, hnode.2⟩
  | block head =>
    have hnode := w.block head (v.statement head.kind state).state
    rw [w.statement] at hnode
    rw [call, hcall]
    cases statements <;> exact ⟨hnode.1, hnode.2⟩
  | update head hasWhere =>
    have hnode := w.update head (v.statement .update state).state
    rw [w.statement] at hnode
    rw [call, hcall]
    cases statements <;> exact ⟨hnode.1, hnode.2⟩
  | attached =>
    have hnode := w.block .pattern state
    have hnone : Node.attached.announced statements = [] := by cases statements <;> rfl
    rw [hnone, List.append_nil]
    exact ⟨hnode.1, hnode.2⟩

theorem log_call (w : v.Records statements log halt) (node : Node) (state : σ) :
    log (v.call node state).state = log state ++ node.events statements := by
  rw [(w.noted_call node state).log_eq, Node.events, List.append_assoc]

theorem stopped_call (w : v.Records statements log halt) (node : Node) (state : σ) :
    (v.call node state).stopped = halt (log state ++ node.events statements) := by
  rw [(w.noted_call node state).stopped_eq, Node.events, List.append_assoc]

/-- As long as no call stops the visit, the calls for all nodes are written down. -/
theorem callAll_runs (w : v.Records statements log halt) (entries : List OutlineEntry) (state : σ)
    (h : ∀ j, j ≤ entries.length → 1 ≤ j →
      halt (log state ++ eventsOf statements (entries.take j)) = none) :
    log (v.callAll entries state).state = log state ++ eventsOf statements entries ∧
      (v.callAll entries state).stopped = none := by
  induction entries generalizing state with
  | nil => exact ⟨(List.append_nil _).symm, rfl⟩
  | cons entry entries ih =>
    have hlog := w.log_call entry.node state
    have hrun : (v.call entry.node state).stopped = none := by
      rw [w.stopped_call]
      simpa [eventsOf] using h 1 (by simp) (by simp)
    rw [callAll, Visit.andThen, hrun]
    have hrest := ih (v.call entry.node state).state fun j hj _ => by
      have := h (j + 1) (by simpa using hj) (by omega)
      rwa [List.take_succ_cons, eventsOf, List.flatMap_cons, ← List.append_assoc, ← hlog] at this
    refine ⟨hrest.1.trans ?_, hrest.2⟩
    rw [hlog, eventsOf, eventsOf, List.flatMap_cons, List.append_assoc]

/-- If the call for the `k`-th node is the first to stop the visit, it is the last one that is
written down, and the nodes behind it stay as they are. -/
theorem callAll_stops (w : v.Records statements log halt) (entries : List OutlineEntry) (state : σ)
    {k : Nat} {b : β} (hk : 1 ≤ k) (hlength : k ≤ entries.length)
    (hrun : ∀ j, j < k → 1 ≤ j →
      halt (log state ++ eventsOf statements (entries.take j)) = none)
    (hstop : halt (log state ++ eventsOf statements (entries.take k)) = some b) :
    log (v.callAll entries state).state = log state ++ eventsOf statements (entries.take k) ∧
      (v.callAll entries state).stopped = some b ∧
      (v.callAll entries state).value.drop k = entries.drop k := by
  obtain ⟨i, rfl⟩ : ∃ i, k = i + 1 := ⟨k - 1, by omega⟩
  have hi : i < entries.length := hlength
  have hbefore : (entries.take i).length = i := List.length_take_of_le (Nat.le_of_lt hi)
  have htake : entries.take (i + 1) = entries.take i ++ [entries[i]] :=
    List.take_succ_eq_append_getElem hi
  have hsplit : entries = entries.take i ++ entries[i] :: entries.drop (i + 1) := by
    rw [List.getElem_cons_drop, List.take_append_drop]
  -- The calls before the one for the last of the `k` nodes all come to their end.
  obtain ⟨hlog, hnone⟩ := w.callAll_runs (entries.take i) state fun j hj hj' => by
    rw [hbefore] at hj
    rw [List.take_take, Nat.min_eq_left hj]
    exact hrun j (by omega) hj'
  generalize hfirst : v.callAll (entries.take i) state = first at hlog hnone
  have hcall : log (v.call entries[i].node first.state).state =
      log state ++ eventsOf statements (entries.take (i + 1)) := by
    rw [w.log_call, hlog, htake, eventsOf_append, List.append_assoc, eventsOf_singleton]
  have hstopped : (v.call entries[i].node first.state).stopped = some b := by
    rw [w.stopped_call, ← w.log_call, hcall, hstop]
  have hvisit := callAll_of_stopped (hfirst ▸ hnone) (hfirst ▸ hstopped) (entries.drop (i + 1))
  rw [← hsplit, hfirst] at hvisit
  have hvalue : first.value.length = i := by
    rw [← hbefore, ← hfirst]
    simpa using congrArg List.length (v.depth_callAll (entries.take i) state)
  rw [hvisit]
  refine ⟨hcall, rfl, ?_⟩
  rw [List.drop_append, List.drop_of_length_le (by omega), hvalue, Nat.add_sub_cancel_left]
  rfl

end Records

/-- A visit of a query makes the calls for the nodes of its outline. -/
theorem outline_visitQuery {v : Visitor σ β} (hv : v.KeepsOrder)
    (hdataset : ∀ graph state, v.dataset graph state = ⟨graph, state, none⟩) (q : Query)
    (state : σ) : (v.visitQuery q state).map Query.outline = v.callAll q.outline state := by
  have hcalls : v.Calls q.statements := fun s _ => outline_visit hv s
  have hall := outlineAll_visitAll hcalls 0 state
  rw [visitQuery, hdataset, Query.outline, ← hall]
  rfl

end Visitor

/-! ## Traced visits -/

namespace TraceOptions

/-- What stops a traced visit. -/
def halt (o : TraceOptions) (events : List Event) : Option Event :=
  if o.limit.any (· ≤ events.length) then events.getLast? else none

theorem noted_record {α : Type} (o : TraceOptions) (event : Event) (node changed : α)
    (events : List Event) :
    Visitor.Noted id o.halt events event (o.record event node changed events) := by
  rw [record]
  split
  · next h => exact ⟨rfl, by rw [halt, if_pos h, List.getLast?_concat]⟩
  · next h => exact ⟨rfl, by rw [halt, if_neg h]⟩

theorem statement_visitor (o : TraceOptions) (kind : StatementKind) (events : List Event) :
    o.visitor.statement kind events =
      if o.statements then o.record (.statement kind) () () events else ⟨(), events, none⟩ := rfl

/-- A traced visit that turns no bodies round writes its calls down. -/
theorem records_visitor {o : TraceOptions} (hstatements : o.statements = true → o.limit = none)
    (hwhere : .reverseWhere ∉ o.edits) (hask : .reverseAsk ∉ o.edits) :
    o.visitor.Records o.statements id o.halt where
  dataset _ _ := rfl
  statement kind events := by
    rw [statement_visitor]
    split
    · exact (o.noted_record ..).log_eq
    · exact (List.append_nil _).symm
  statement_stopped kind events := by
    rw [statement_visitor]
    split
    · next h =>
      rw [(o.noted_record ..).stopped_eq, halt, hstatements h]
      rfl
    · rfl
  simple _ _ := o.noted_record ..
  block _ _ := o.noted_record ..
  update _ _ := o.noted_record ..
  keepsOrder head events := by
    have horder : Edit.order o.edits head = .asWritten := by
      cases head <;> simp [Edit.order, hwhere, hask]
    have hblock : o.visitor.block head events = o.record (.block head) (head, .asWritten)
        (Edit.applyHead o.edits head, Edit.order o.edits head) events := rfl
    rw [hblock, horder, record]
    split <;> rfl

end TraceOptions

namespace Visitor

variable {σ β : Type}

/-- A visitor that writes its calls down, and may change the nodes that it is called for, is called
for every node of the query once, in the order of the outline. If its call for the `k`-th node is
the first to stop the visit, the calls for the first `k` nodes are all that is made, the visit ends
with what stopped it, and the nodes behind stay as they are. -/
theorem visitQuery_records {v : Visitor σ β} {statements : Bool} {log : σ → List Event}
    {halt : List Event → Option β} (w : v.Records statements log halt) (q : Query) {state : σ}
    (hlog : log state = []) :
    (v.visitQuery q state).value.outline.map OutlineEntry.depth =
        q.outline.map OutlineEntry.depth ∧
    ((∀ j, j ≤ q.outline.length → 1 ≤ j → halt (eventsOf statements (q.outline.take j)) = none) →
      log (v.visitQuery q state).state = eventsOf statements q.outline ∧
      (v.visitQuery q state).stopped = none) ∧
    ∀ k b, 1 ≤ k → k ≤ q.outline.length →
      (∀ j, j < k → 1 ≤ j → halt (eventsOf statements (q.outline.take j)) = none) →
      halt (eventsOf statements (q.outline.take k)) = some b →
      log (v.visitQuery q state).state = eventsOf statements (q.outline.take k) ∧
      (v.visitQuery q state).stopped = some b ∧
      (v.visitQuery q state).value.outline.drop k = q.outline.drop k := by
  have hvisit := outline_visitQuery w.keepsOrder w.dataset q state
  have hvalue : (v.visitQuery q state).value.outline = (v.callAll q.outline state).value :=
    congrArg Visit.value hvisit
  have hstate : (v.visitQuery q state).state = (v.callAll q.outline state).state :=
    congrArg Visit.state hvisit
  have hstopped : (v.visitQuery q state).stopped = (v.callAll q.outline state).stopped :=
    congrArg Visit.stopped hvisit
  rw [hvalue, hstate, hstopped]
  have hruns := w.callAll_runs q.outline state
  have hstops (k : Nat) (b : β) := w.callAll_stops q.outline state (k := k) (b := b)
  simp only [hlog, List.nil_append] at hruns hstops
  exact ⟨v.depth_callAll _ _, hruns, hstops⟩

/-- Under `INSERT { ?s ?p ?o } WHERE { { ?s ?p ?t } ?t a ?c }` a visit that is to stop at its third
call stops at the WHERE body, and one that is not to stop goes on with what is in it. -/
theorem visitQuery_records_insertWhere :
    let text := "?s ?p ?o".toList
    let q : Query := { form := .update, statements := [.update ⟨.insert, false⟩ [.simple text]
      (some [.block (.group none false) [.simple "?s ?p ?t".toList], .simple "?t a ?c".toList])] }
    let stops : TraceOptions := { limit := some 3, edits := [.flipData, .flipOptional] }
    let runs : TraceOptions := { edits := [.flipData, .flipOptional] }
    ((stops.visitor.visitQuery q []).state = [.update .insert, .simple text, .block .pattern] ∧
      (stops.visitor.visitQuery q []).stopped = some (.block .pattern) ∧
      (stops.visitor.visitQuery q []).value.outline.drop 3 = q.outline.drop 3) ∧
    (runs.visitor.visitQuery q []).state = [.update .insert, .simple text, .block .pattern,
      .block (.group none false), .simple "?s ?p ?t".toList, .simple "?t a ?c".toList] ∧
    (runs.visitor.visitQuery q []).stopped = none := by
  intro text q stops runs
  have wstops : stops.visitor.Records false id stops.halt :=
    TraceOptions.records_visitor (by decide) (by decide) (by decide)
  have wruns : runs.visitor.Records false id runs.halt :=
    TraceOptions.records_visitor (by decide) (by decide) (by decide)
  have hstops := (visitQuery_records wstops q rfl).2.2 3 (.block .pattern) (by decide) (by decide)
    (by decide) (by decide)
  have hruns := (visitQuery_records wruns q rfl).2.1 fun _ _ _ => rfl
  exact ⟨hstops, hruns⟩

end Visitor

end SparqlTree
