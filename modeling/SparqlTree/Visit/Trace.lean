import SparqlTree.Visit.Basic

/-!
# Traced visits

A visit that records an event for every call, stops when a given number of events is reached, and
otherwise makes the changes that are named in a list of edits. An event shows its node as it was
before the changes.
-/

namespace SparqlTree

/-- A call of a visitor. -/
inductive Event where
  | statement (kind : StatementKind)
  | simple (text : Text)
  | block (head : Head)
  | update (operation : Operation)
deriving DecidableEq

namespace Event

/-- The event of a block in words. -/
def blockMessage : Head → Text
  | .group graph optional =>
    "group ".toList ++ (if optional then "optional ".toList else []) ++ graph.getD ['-']
  | .pattern => "where".toList
  | .select p | .describe p => "projection ".toList ++ p.projected
  | .construct template _ => "construct ".toList ++ template
  | .ask => "ask".toList

/-- The event in words. -/
def message : Event → Text
  | statement kind => "statement ".toList ++ kind.name
  | simple text => "simple ".toList ++ text
  | block head => blockMessage head
  | update operation => "update ".toList ++ operation.name

end Event

/-- A change that a traced visit makes to the nodes of a sort. -/
inductive Edit where
  /-- Writes behind a simple statement, as a comment, how many variables it mentions. -/
  | annotate
  /-- Makes plain groups optional, and optional groups plain. -/
  | flipOptional
  /-- Makes updates DATA updates, and DATA updates plain. -/
  | flipData
  /-- Turns WHERE bodies round. -/
  | reverseWhere
  /-- Turns ASK bodies round. -/
  | reverseAsk
  /-- Projects everything, without a quantifier, and flips FROM and FROM NAMED. -/
  | projectAll
  /-- Turns solution modifiers round. -/
  | reverseModifiers
  /-- Empties CONSTRUCT templates. -/
  | clearTemplate
deriving DecidableEq, Repr

namespace Edit

/-- The annotated text of a simple statement. -/
def annotated (text : Text) : Text :=
  Text.trim (' ' :: text ++ " # ".toList ++ Text.ofNat text.variableNames.size ++ [' '])

/-- The changes to the text of a simple statement. -/
def applySimple (edits : List Edit) (text : Text) : Text :=
  if annotate ∈ edits then annotated text else text

/-- The changes to a projection. -/
def applyProjection (edits : List Edit) (p : Projection) : Projection :=
  let p := if projectAll ∈ edits then
      { p with quantifier := none, projected := ['*'], fromNamed := !p.fromNamed }
    else p
  if reverseModifiers ∈ edits then { p with modifiers := p.modifiers.reverse } else p

/-- The changes to a head. -/
def applyHead (edits : List Edit) : Head → Head
  | .group graph optional => .group graph (optional ^^ decide (flipOptional ∈ edits))
  | .select p => .select (applyProjection edits p)
  | .describe p => .describe (applyProjection edits p)
  | .construct template modifiers =>
    .construct (if clearTemplate ∈ edits then [] else template)
      (if reverseModifiers ∈ edits then modifiers.reverse else modifiers)
  | head => head

/-- The order in which the body under a head is visited. -/
def order (edits : List Edit) : Head → BodyOrder
  | .pattern => if reverseWhere ∈ edits then .reversed else .asWritten
  | .ask => if reverseAsk ∈ edits then .reversed else .asWritten
  | _ => .asWritten

/-- The changes to the head of an update. -/
def applyUpdate (edits : List Edit) (head : UpdateHead) : UpdateHead :=
  { head with data := head.data ^^ decide (flipData ∈ edits) }

end Edit

/-- How a traced visit is made. -/
structure TraceOptions where
  /-- Whether the call for every statement is recorded too. -/
  statements : Bool := false
  /-- The number of events at which the visit stops. -/
  limit : Option Nat := none
  edits : List Edit := []

namespace TraceOptions

/-- Records an event. If that reaches the limit, the visit stops with the event; otherwise the node
is changed. -/
def record {α : Type} (o : TraceOptions) (event : Event) (node changed : α) (events : List Event) :
    Visit (List Event) Event α :=
  let events := events ++ [event]
  if o.limit.any (· ≤ events.length) then ⟨node, events, some event⟩ else ⟨changed, events, none⟩

/-- The visitor that records events. -/
def visitor (o : TraceOptions) : Visitor (List Event) Event where
  statement := fun kind events =>
    if o.statements then o.record (.statement kind) () () events else ⟨(), events, none⟩
  simple := fun text events =>
    o.record (.simple text) text (Edit.applySimple o.edits text) events
  block := fun head events =>
    o.record (.block head) (head, .asWritten)
      (Edit.applyHead o.edits head, Edit.order o.edits head) events
  update := fun head events =>
    o.record (.update head.operation) head (Edit.applyUpdate o.edits head) events

end TraceOptions

/-- Makes a traced visit of a query. -/
def Query.trace (q : Query) (o : TraceOptions) : Visit (List Event) Event Query :=
  o.visitor.visitQuery q []

end SparqlTree
