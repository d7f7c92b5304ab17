import SparqlTree.Query.Basic

/-!
# Visiting a tree

A visitor is called for every node of a tree in preorder: a node before its body, a template before
the WHERE body attached to it. It carries a state along, may change the node it is called for, and
may stop the visit; nodes that it was not called for by then stay as they are.
-/

namespace SparqlTree

/-- What a visit leaves behind. -/
structure Visit (σ β α : Type) where
  /-- What was visited, with its changes. -/
  value : α
  state : σ
  /-- What stopped the visit, if something did. -/
  stopped : Option β := none

namespace Visit

variable {σ β α γ : Type}

/-- The visit with something made of what was visited. -/
def map (f : α → γ) (visit : Visit σ β α) : Visit σ β γ :=
  ⟨f visit.value, visit.state, visit.stopped⟩

/-- The visit, and unless it stopped, the one that comes next. `skipped` is what there is when the
next one is not made. -/
def andThen (first : Visit σ β α) (skipped : α → γ) (next : α → σ → Visit σ β γ) : Visit σ β γ :=
  match first.stopped with
  | some b => ⟨skipped first.value, first.state, some b⟩
  | none => next first.value first.state

end Visit

/-- The order in which a visitor wants the body of a node. -/
inductive BodyOrder where
  | asWritten
  /-- The body is turned round before it is visited, and stays so. -/
  | reversed
deriving DecidableEq, Repr

/-- The statements of a body in the given order. -/
def BodyOrder.arrange (order : BodyOrder) (body : List Statement) : List Statement :=
  match order with
  | asWritten => body
  | reversed => body.reverse

/-- What to do at each node. A visitor does nothing where it does not say otherwise. -/
structure Visitor (σ β : Type) where
  /-- Called for the outer graph of a query, before its statements. -/
  dataset : Option Text → σ → Visit σ β (Option Text) := fun graph state => ⟨graph, state, none⟩
  /-- Called for every statement, before the call for its sort. The WHERE body attached to an
  update is no statement of its own. -/
  statement : StatementKind → σ → Visit σ β Unit := fun _ state => ⟨(), state, none⟩
  simple : Text → σ → Visit σ β Text := fun text state => ⟨text, state, none⟩
  /-- Called for every block, and for the WHERE body attached to an update; the head of that one
  cannot be changed. -/
  block : Head → σ → Visit σ β (Head × BodyOrder) :=
    fun head state => ⟨(head, .asWritten), state, none⟩
  update : UpdateHead → σ → Visit σ β UpdateHead := fun head state => ⟨head, state, none⟩

namespace Visitor

variable {σ β : Type}

mutual

/-- Visits a statement and everything below it. -/
def visit (v : Visitor σ β) : Statement → σ → Visit σ β Statement
  | .simple text, state =>
    (v.statement .simple state).andThen (fun _ => .simple text) fun _ state =>
      (v.simple text state).map .simple
  | .block head body, state =>
    (v.statement head.kind state).andThen (fun _ => .block head body) fun _ state =>
      (v.block head state).andThen
        (fun (head, order) => .block head (order.arrange body))
        fun (head, order) state =>
          (match order with
          | .asWritten => v.visitAll body state
          | .reversed => v.visitBack body state).map fun body => .block head body
  | .update head template attached, state =>
    (v.statement .update state).andThen (fun _ => .update head template attached) fun _ state =>
      (v.update head state).andThen (fun head => .update head template attached) fun head state =>
        (v.visitAll template state).andThen (fun template => .update head template attached)
          fun template state =>
            match attached with
            | none => ⟨.update head template none, state, none⟩
            | some body =>
              -- No call of `statement` here: an attached body is no statement of its own.
              (v.block .pattern state).andThen
                (fun (_, order) => .update head template (some (order.arrange body)))
                fun (_, order) state =>
                  (match order with
                  | .asWritten => v.visitAll body state
                  | .reversed => v.visitBack body state).map
                    fun body => .update head template (some body)

/-- Visits statements from the first to the last. -/
def visitAll (v : Visitor σ β) : List Statement → σ → Visit σ β (List Statement)
  | [], state => ⟨[], state, none⟩
  | s :: ss, state =>
    (v.visit s state).andThen (fun s => s :: ss) fun s state =>
      (v.visitAll ss state).map fun ss => s :: ss

/-- Visits statements from the last to the first, and leaves them in that order. -/
def visitBack (v : Visitor σ β) : List Statement → σ → Visit σ β (List Statement)
  | [], state => ⟨[], state, none⟩
  | s :: ss, state =>
    (v.visitBack ss state).andThen (fun others => others ++ [s]) fun others state =>
      (v.visit s state).map fun s => others ++ [s]

end

/-- Visits a query: its outer graph, then its statements. -/
def visitQuery (v : Visitor σ β) (q : Query) (state : σ) : Visit σ β Query :=
  (v.dataset q.graph state).andThen (fun graph => { q with graph }) fun graph state =>
    (v.visitAll q.statements state).map fun statements => { q with graph, statements }

end Visitor

end SparqlTree
