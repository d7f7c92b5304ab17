import SparqlTree.Visit.Basic

/-!
# Collecting and retargeting by visits

Visitors that gather the variables and the graphs of a tree, and one that changes its graphs. A
collection can be carried on from one query to the next.
-/

namespace SparqlTree

namespace Visitor

/-- Gathers variables. -/
def variableCollector : Visitor NameSet Empty where
  simple := fun text seen => ⟨text, seen ∪ text.variableNames, none⟩
  block := fun head seen => ⟨(head, .asWritten), seen ∪ head.variableNames, none⟩

/-- Gathers graphs. -/
def graphCollector : Visitor NameSet Empty where
  dataset := fun graph seen => ⟨graph, seen ∪ .ofOption graph, none⟩
  block := fun head seen => ⟨(head, .asWritten), seen ∪ .ofOption head.graph?, none⟩

/-- Changes every graph. -/
def retargeter (f : Option Text → Option Text) : Visitor Unit Empty where
  dataset := fun graph _ => ⟨f graph, (), none⟩
  block := fun head _ => ⟨(head.mapGraph f, .asWritten), (), none⟩

end Visitor

namespace Query

/-- The names gathered so far, and the variables of the query. -/
def collectVariables (q : Query) (seen : NameSet) : NameSet :=
  (Visitor.variableCollector.visitQuery q seen).state

/-- The names gathered so far, and the graphs of the query. -/
def collectGraphs (q : Query) (seen : NameSet) : NameSet :=
  (Visitor.graphCollector.visitQuery q seen).state

/-- The query with every graph changed. -/
def retargeted (f : Option Text → Option Text) (q : Query) : Query :=
  ((Visitor.retargeter f).visitQuery q ()).value

end Query

end SparqlTree
