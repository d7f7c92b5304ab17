import SparqlTree.PrefixMap
import SparqlTree.Statement.Graphs
import SparqlTree.Statement.Outline
import SparqlTree.Statement.Render
import SparqlTree.Statement.Variables

/-!
# Queries

A query has a form, a prologue of BASE and PREFIX declarations, an outer graph, and statements. It
also remembers the text that it was read from; this is empty for a query put together by hand.
-/

namespace SparqlTree

/-- The forms of a query. -/
inductive QueryForm where
  | select
  | construct
  | ask
  | describe
  | update
deriving DecidableEq, Repr

/-- The name of a form. -/
def QueryForm.name : QueryForm → Text
  | select => "SELECT".toList
  | construct => "CONSTRUCT".toList
  | ask => "ASK".toList
  | describe => "DESCRIBE".toList
  | update => "UPDATE".toList

/-- A query as a tree. -/
structure Query where
  /-- The IRI of the BASE declaration. -/
  base : Option Text := none
  /-- The PREFIX declarations. -/
  prefixes : PrefixMap := ∅
  form : QueryForm
  /-- The outer graph, from FROM or WITH. -/
  graph : Option Text := none
  statements : List Statement := []
  /-- The text that the query was read from. -/
  source : Text := []
deriving DecidableEq

namespace Query

/-- A query of a given form without anything in it. -/
def ofForm (form : QueryForm) : Query := { form }

/-- Sets the outer graph. The empty IRI removes it. -/
def setGraph (graph : Text) (q : Query) : Query := { q with graph := graphNamed graph }

/-- Declares a prefix. -/
def declare (label iri : Text) (q : Query) : Query :=
  { q with prefixes := q.prefixes.insert label iri }

/-- Withdraws the declaration of a prefix. -/
def withdraw (label : Text) (q : Query) : Query := { q with prefixes := q.prefixes.erase label }

/-- Adds a statement after the ones that are there. -/
def push (s : Statement) (q : Query) : Query := { q with statements := q.statements ++ [s] }

/-- The variables mentioned anywhere in the query. -/
def unknowns (q : Query) : NameSet := Statement.unknownsAll q.statements

/-- The graphs named anywhere in the query. -/
def graphs (q : Query) : NameSet := .ofOption q.graph ∪ Statement.graphsAll q.statements

/-- Changes the outer graph, and the graph of every node that can name one. -/
def mapGraph (f : Option Text → Option Text) (q : Query) : Query :=
  { q with graph := f q.graph, statements := q.statements.map (Statement.mapGraph f) }

/-- Sets the outer graph and the graph of every group and projection. The empty IRI removes
them. -/
def assignGraph (new : Text) (q : Query) : Query := q.mapGraph fun _ => graphNamed new

/-- Puts a graph in the place of the graph `old`, wherever that is named. The empty IRI removes
it there. -/
def replaceGraph (old new : Text) (q : Query) : Query := q.mapGraph (retarget old (graphNamed new))

/-- The nodes of the query with their depths, in preorder. -/
def outline (q : Query) : List OutlineEntry := Statement.outlineAll 0 q.statements

/-- The lines of the prologue, in the order in which they are written. -/
def prologue (q : Query) : List Text :=
  (q.base.map fun iri => "BASE ".toList ++ Text.angled iri).toList
    ++ q.prefixes.toList.map (fun (label, iri) =>
      "PREFIX ".toList ++ label ++ ": ".toList ++ Text.angled iri)
    ++ (q.graph.map fun iri => "WITH ".toList ++ Text.angled iri).toList

/-- The text of the query: its prologue, then its statements. -/
def render (q : Query) : Text :=
  Text.lines (q.prologue ++ q.statements.map Statement.render)

instance : ToString Query := ⟨fun q => String.ofList q.render⟩

end Query

end SparqlTree
