import SparqlTree.Proofs.Statement.Graphs
import SparqlTree.Visit.Collect

/-!
# What the visits of collecting and retargeting do

These visitors never stop and leave bodies in their order, so a visit is a walk over the whole tree:
a visit that changes graphs gives the tree that `mapGraph` gives, and a visit that gathers names
adds those that `graphs` or `unknowns` finds and changes nothing.
-/

namespace SparqlTree

namespace NameSet

theorem union_empty (s : NameSet) : s ∪ ∅ = s := by
  ext x; simp

theorem empty_union (s : NameSet) : ∅ ∪ s = s := by
  ext x; simp

theorem union_assoc (s t u : NameSet) : s ∪ t ∪ u = s ∪ (t ∪ u) := by
  ext x; simp [or_assoc]

end NameSet

namespace Visitor

open Statement

variable {σ β : Type}

/-- The visitor never stops and leaves bodies in their order. It changes heads by `change`, and
carries its state past a text by `pass` and into a body by `enter`. -/
structure Walks (v : Visitor σ β) (change : Head → Head) (pass : Text → σ → σ)
    (enter : Head → σ → σ) : Prop where
  statement : ∀ kind state, v.statement kind state = ⟨(), state, none⟩
  simple : ∀ text state, v.simple text state = ⟨text, pass text state, none⟩
  block : ∀ head state, v.block head state = ⟨(change head, .asWritten), enter head state, none⟩
  update : ∀ head state, v.update head state = ⟨head, state, none⟩

/-- The visits of the statements all come to their end, with these values and states. -/
def Through (v : Visitor σ β) (change : Statement → Statement) (follow : Statement → σ → σ)
    (ss : List Statement) : Prop :=
  ∀ s ∈ ss, ∀ state, v.visit s state = ⟨change s, follow s state, none⟩

/-- The state behind several statements. -/
def followAll (follow : Statement → σ → σ) (ss : List Statement) (state : σ) : σ :=
  ss.foldl (fun state s => follow s state) state

variable {v : Visitor σ β} {change : Statement → Statement} {follow : Statement → σ → σ}

theorem visitAll_eq {ss : List Statement} (h : Through v change follow ss) (state : σ) :
    v.visitAll ss state = ⟨ss.map change, followAll follow ss state, none⟩ := by
  induction ss generalizing state with
  | nil => rfl
  | cons s ss ih =>
    rw [visitAll, h s (by simp), Visit.andThen, ih fun t ht => h t (List.mem_cons_of_mem _ ht)]
    rfl

namespace Walks

variable {changeHead : Head → Head} {pass : Text → σ → σ} {enter : Head → σ → σ}

theorem visit_simple (w : Walks v changeHead pass enter) (text : Text) (state : σ) :
    v.visit (.simple text) state = ⟨.simple text, pass text state, none⟩ := by
  rw [visit, w.statement, Visit.andThen, w.simple]
  rfl

theorem visit_block (w : Walks v changeHead pass enter) {body : List Statement}
    (h : Through v change follow body) (head : Head) (state : σ) :
    v.visit (.block head body) state =
      ⟨.block (changeHead head) (body.map change), followAll follow body (enter head state),
        none⟩ := by
  rw [visit, w.statement, Visit.andThen, w.block, Visit.andThen]
  simp only [visitAll_eq h, Visit.map]

theorem visit_update (w : Walks v changeHead pass enter) {template : List Statement}
    (h : Through v change follow template) {attached : Option (List Statement)}
    (ha : ∀ body ∈ attached, Through v change follow body) (head : UpdateHead) (state : σ) :
    v.visit (.update head template attached) state =
      ⟨.update head (template.map change) (attached.map (·.map change)),
        attached.elim (followAll follow template state) fun body =>
          followAll follow body (enter .pattern (followAll follow template state)),
        none⟩ := by
  rw [visit, w.statement, Visit.andThen, w.update, Visit.andThen, visitAll_eq h, Visit.andThen]
  cases attached with
  | none => rfl
  | some body =>
    -- The attached body is visited under a head of its own.
    simp only [w.block, Visit.andThen, visitAll_eq (ha body rfl), Visit.map]
    rfl

end Walks

/-! ## Retargeting -/

theorem walks_retargeter (f : Option Text → Option Text) :
    Walks (retargeter f) (Head.mapGraph f) (fun _ state => state) (fun _ state => state) where
  statement _ _ := rfl
  simple _ _ := rfl
  block _ _ := rfl
  update _ _ := rfl

/-- A retargeting visit changes every graph of the tree. -/
theorem visit_retargeter (f : Option Text → Option Text) (s : Statement) (state : Unit) :
    (retargeter f).visit s state = ⟨s.mapGraph f, (), none⟩ := by
  induction s using Statement.induct generalizing state with
  | simple text => exact (walks_retargeter f).visit_simple text state
  | block head body ih =>
    have hbody : Through (retargeter f) (mapGraph f) (fun _ _ => ()) body := ih
    rw [(walks_retargeter f).visit_block hbody, mapGraph_block]
  | update head template attached ih₁ ih₂ =>
    have htemplate : Through (retargeter f) (mapGraph f) (fun _ _ => ()) template := ih₁
    rw [(walks_retargeter f).visit_update htemplate ih₂, mapGraph_update]

/-! ## Gathering -/

/-- The names of a tree are those of its texts, `ofText`, and of its heads, `ofHead`. A WHERE body
has none of its own. -/
structure Gathered (ofText : Text → NameSet) (ofHead : Head → NameSet)
    (names : Statement → NameSet) (namesAll : List Statement → NameSet) : Prop where
  simple : ∀ text, names (.simple text) = ofText text
  block : ∀ head body, names (.block head body) = ofHead head ∪ namesAll body
  update : ∀ head template attached,
    names (.update head template attached) = namesAll template ∪ attached.elim ∅ namesAll
  pattern : ofHead .pattern = ∅
  nil : namesAll [] = ∅
  cons : ∀ s ss, namesAll (s :: ss) = names s ∪ namesAll ss

section Gathered

variable {v : Visitor NameSet β} {ofText : Text → NameSet} {ofHead : Head → NameSet}
  {names : Statement → NameSet} {namesAll : List Statement → NameSet}

theorem followAll_names (g : Gathered ofText ofHead names namesAll) (ss : List Statement)
    (seen : NameSet) :
    followAll (fun s seen => seen ∪ names s) ss seen = seen ∪ namesAll ss := by
  induction ss generalizing seen with
  | nil => rw [g.nil, NameSet.union_empty]; rfl
  | cons s ss ih =>
    rw [g.cons, ← NameSet.union_assoc, ← ih]
    rfl

/-- A gathering visit adds the names of the tree and changes nothing. -/
theorem visit_gathers (g : Gathered ofText ofHead names namesAll)
    (w : Walks v id (fun text seen => seen ∪ ofText text) fun head seen => seen ∪ ofHead head)
    (s : Statement) (seen : NameSet) : v.visit s seen = ⟨s, seen ∪ names s, none⟩ := by
  induction s using Statement.induct generalizing seen with
  | simple text => rw [w.visit_simple, g.simple]
  | block head body ih =>
    have hbody : Through v id (fun s seen => seen ∪ names s) body := ih
    rw [w.visit_block hbody, followAll_names g, g.block, NameSet.union_assoc, List.map_id, id]
  | update head template attached ih₁ ih₂ =>
    have htemplate : Through v id (fun s seen => seen ∪ names s) template := ih₁
    rw [w.visit_update htemplate ih₂, g.update]
    cases attached with
    | none => simp [followAll_names g, NameSet.union_empty]
    | some body => simp [followAll_names g, g.pattern, NameSet.union_empty, NameSet.union_assoc]

theorem visitAll_gathers (g : Gathered ofText ofHead names namesAll)
    (w : Walks v id (fun text seen => seen ∪ ofText text) fun head seen => seen ∪ ofHead head)
    (ss : List Statement) (seen : NameSet) :
    v.visitAll ss seen = ⟨ss, seen ∪ namesAll ss, none⟩ := by
  have hss : Through v id (fun s seen => seen ∪ names s) ss := fun s _ => visit_gathers g w s
  rw [visitAll_eq hss, followAll_names g, List.map_id]

end Gathered

theorem gathered_graphs :
    Gathered (fun _ => ∅) (fun head => .ofOption head.graph?) graphs graphsAll where
  simple _ := rfl
  block _ _ := rfl
  update _ _ attached := by cases attached <;> rfl
  pattern := rfl
  nil := rfl
  cons _ _ := rfl

theorem walks_graphCollector :
    Walks graphCollector id (fun _ seen => seen ∪ ∅)
      fun head seen => seen ∪ .ofOption head.graph? where
  statement _ _ := rfl
  simple _ _ := by rw [NameSet.union_empty]; rfl
  block _ _ := rfl
  update _ _ := rfl

theorem gathered_unknowns :
    Gathered Text.variableNames Head.variableNames unknowns unknownsAll where
  simple _ := rfl
  block _ _ := rfl
  update _ _ attached := by cases attached <;> rfl
  pattern := rfl
  nil := rfl
  cons _ _ := rfl

theorem walks_variableCollector :
    Walks variableCollector id (fun text seen => seen ∪ text.variableNames)
      fun head seen => seen ∪ head.variableNames where
  statement _ _ := rfl
  simple _ _ := rfl
  block _ _ := rfl
  update _ _ := rfl

end Visitor

namespace Query

/-- A retargeting visit of a query changes its outer graph and every graph below. -/
theorem retargeted_eq (f : Option Text → Option Text) (q : Query) :
    q.retargeted f = q.mapGraph f := by
  have hss : Visitor.Through (Visitor.retargeter f) (Statement.mapGraph f) (fun _ _ => ())
      q.statements := fun s _ => Visitor.visit_retargeter f s
  have hall := Visitor.visitAll_eq hss ()
  exact congrArg (fun visit => { q with graph := f q.graph, statements := visit.value }) hall

/-- A visit that gathers graphs adds those of the query. -/
theorem collectGraphs_eq (q : Query) (seen : NameSet) :
    q.collectGraphs seen = seen ∪ q.graphs := by
  have hall := Visitor.visitAll_gathers Visitor.gathered_graphs Visitor.walks_graphCollector
    q.statements (seen ∪ .ofOption q.graph)
  rw [graphs, ← NameSet.union_assoc]
  exact congrArg Visit.state hall

/-- A visit that gathers variables adds those of the query. -/
theorem collectVariables_eq (q : Query) (seen : NameSet) :
    q.collectVariables seen = seen ∪ q.unknowns := by
  have hall := Visitor.visitAll_gathers Visitor.gathered_unknowns Visitor.walks_variableCollector
    q.statements seen
  exact congrArg Visit.state hall

end Query

end SparqlTree
