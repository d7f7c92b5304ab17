import SparqlTree.Text.Blank

/-!
# Statements

The tree of a query. What the tree does not model, such as triple patterns and filters, is kept as
text in simple statements. Every other statement has a head, which says what it is, and a body of
statements; an update has its template as its body, and may have a WHERE body attached.
-/

namespace SparqlTree

/-- What may stand between SELECT or DESCRIBE and the projection. -/
inductive SetQuantifier where
  | distinct
  | reduced
deriving DecidableEq, Repr

/-- The keyword of a set quantifier. -/
def SetQuantifier.name : SetQuantifier → Text
  | distinct => "DISTINCT".toList
  | reduced => "REDUCED".toList

/-- What SELECT and DESCRIBE have apart from their body. -/
structure Projection where
  quantifier : Option SetQuantifier := none
  /-- The projected variables as text. -/
  projected : Text
  /-- The graph of the FROM clause. -/
  graph : Option Text := none
  /-- True if the clause was FROM NAMED. -/
  fromNamed : Bool := false
  /-- The solution modifiers in order, each as text. -/
  modifiers : List Text := []
  /-- True of a sub-select, which stands in braces of its own. -/
  inBlock : Bool := false
deriving DecidableEq

/-- What a block of statements is. -/
inductive Head where
  /-- Braces, after GRAPH with an IRI, after OPTIONAL, or after nothing. -/
  | group (graph : Option Text) (optional : Bool)
  /-- A WHERE body. -/
  | pattern
  | select (projection : Projection)
  | describe (projection : Projection)
  | construct (template : Text) (modifiers : List Text)
  | ask
deriving DecidableEq

/-- What an update does with its template. -/
inductive Operation where
  | insert
  | delete
deriving DecidableEq, Repr

/-- The keyword of an update. -/
def Operation.name : Operation → Text
  | insert => "INSERT".toList
  | delete => "DELETE".toList

/-- What an update has apart from its bodies. -/
structure UpdateHead where
  operation : Operation
  /-- True of INSERT DATA and DELETE DATA. -/
  data : Bool := false
deriving DecidableEq

/-- A node of the query tree. -/
inductive Statement where
  /-- Text that the tree does not model. -/
  | simple (text : Text)
  | block (head : Head) (body : List Statement)
  | update (head : UpdateHead) (template : List Statement) (attached : Option (List Statement))

/-- The sorts of nodes. -/
inductive StatementKind where
  | simple
  | group
  | pattern
  | update
  | select
  | describe
  | construct
  | ask
deriving DecidableEq, Repr

/-- The name by which a sort of nodes is shown. -/
def StatementKind.name : StatementKind → Text
  | simple => "simple statement".toList
  | group => "group".toList
  | pattern => "WHERE block".toList
  | update => "update block".toList
  | select => "SELECT block".toList
  | describe => "DESCRIBE block".toList
  | construct => "CONSTRUCT block".toList
  | ask => "ASK block".toList

namespace Head

/-- The sort of node that the head makes. -/
def kind : Head → StatementKind
  | group .. => .group
  | pattern => .pattern
  | select _ => .select
  | describe _ => .describe
  | construct .. => .construct
  | ask => .ask

/-- The graph that the head names. -/
def graph? : Head → Option Text
  | group graph _ => graph
  | select p | describe p => p.graph
  | _ => none

/-- The head with its graph changed, if it is of a sort that can name one. -/
def mapGraph (f : Option Text → Option Text) : Head → Head
  | group graph optional => group (f graph) optional
  | select p => select { p with graph := f p.graph }
  | describe p => describe { p with graph := f p.graph }
  | head => head

end Head

namespace Statement

/-- Text as a statement. Blanks around it are dropped. -/
def ofText (t : Text) : Statement := simple t.trim

/-- The sort of the node. -/
def kind : Statement → StatementKind
  | simple _ => .simple
  | block head _ => head.kind
  | update .. => .update

/-- The graph that the node itself names. -/
def graph? : Statement → Option Text
  | block head _ => head.graph?
  | _ => none

/-- The statements in the body of a node; of an update, those of its template. -/
def body : Statement → List Statement
  | simple _ => []
  | block _ body => body
  | update _ template _ => template

/-- The node with another body. Text has no body to replace. -/
def withBody (s : Statement) (body : List Statement) : Statement :=
  match s with
  | simple text => simple text
  | block head _ => block head body
  | update head _ attached => update head body attached

/-! ## Induction and equality -/

/-- A property of all statements holds if it passes from the statements in the bodies of a node to
the node. -/
@[elab_as_elim]
theorem induct {motive : Statement → Prop}
    (simple : ∀ text, motive (simple text))
    (block : ∀ head body, (∀ s ∈ body, motive s) → motive (block head body))
    (update : ∀ head template attached, (∀ s ∈ template, motive s) →
      (∀ body ∈ attached, ∀ s ∈ body, motive s) → motive (update head template attached))
    (s : Statement) : motive s :=
  @Statement.rec motive (fun body => ∀ s ∈ body, motive s)
    (fun attached => ∀ body ∈ attached, ∀ s ∈ body, motive s)
    simple block update
    (fun _ h => nomatch h)
    (fun _ _ hs ih t ht => (List.mem_cons.1 ht).elim (fun e => e ▸ hs) (ih t))
    (fun _ h => nomatch h)
    (fun _ ih _ hb => Option.some.inj (Option.mem_def.1 hb) ▸ ih)
    s

mutual

/-- Decides whether two statements are equal. -/
def decideEq : (s t : Statement) → Decidable (s = t)
  | .simple a, .simple b => decidable_of_iff (a = b) (by simp)
  | .block h b, .block h' b' =>
    have := decideEqAll b b'
    decidable_of_iff (h = h' ∧ b = b') (by simp)
  | .update h b a, .update h' b' a' =>
    have := decideEqAll b b'
    have : Decidable (a = a') :=
      match a, a' with
      | none, none => isTrue rfl
      | some x, some y =>
        have := decideEqAll x y
        decidable_of_iff (x = y) (by simp)
      | none, some _ => isFalse (by simp)
      | some _, none => isFalse (by simp)
    decidable_of_iff (h = h' ∧ b = b' ∧ a = a') (by simp)
  | .simple _, .block .. => isFalse (by simp)
  | .simple _, .update .. => isFalse (by simp)
  | .block .., .simple _ => isFalse (by simp)
  | .block .., .update .. => isFalse (by simp)
  | .update .., .simple _ => isFalse (by simp)
  | .update .., .block .. => isFalse (by simp)

/-- Decides whether two lists of statements are equal. -/
def decideEqAll : (ss ts : List Statement) → Decidable (ss = ts)
  | [], [] => isTrue rfl
  | s :: ss, t :: ts =>
    have := decideEq s t
    have := decideEqAll ss ts
    decidable_of_iff (s = t ∧ ss = ts) (by simp)
  | [], _ :: _ => isFalse (by simp)
  | _ :: _, [] => isFalse (by simp)

end

instance : DecidableEq Statement := decideEq

end Statement

end SparqlTree
