import SparqlTree.NameSet
import SparqlTree.Statement.Basic

/-!
# The graphs of a tree

Groups and projections can name a graph. `graphs` collects the graphs named anywhere in a tree;
`mapGraph` changes the graph of every node that can name one, and nothing else.
-/

namespace SparqlTree

/-- An IRI as a graph to be named. The empty IRI names none. -/
def graphNamed (iri : Text) : Option Text := if iri = [] then none else some iri

/-- Replaces a graph by another where it is `old`. -/
def retarget (old : Text) (new : Option Text) (graph : Option Text) : Option Text :=
  if graph = some old then new else graph

namespace Statement

mutual

/-- The graphs named by a node and everything below it. -/
def graphs : Statement → NameSet
  | simple _ => ∅
  | block head body => .ofOption head.graph? ∪ graphsAll body
  | update _ template attached =>
    graphsAll template ∪
      match attached with
      | some body => graphsAll body
      | none => ∅

/-- The graphs named by several nodes and everything below them. -/
def graphsAll : List Statement → NameSet
  | [] => ∅
  | s :: ss => graphs s ∪ graphsAll ss

end

mutual

/-- Changes the graph of every node of a tree that can name one. -/
def mapGraph (f : Option Text → Option Text) : Statement → Statement
  | simple text => simple text
  | block head body => block (head.mapGraph f) (mapGraphAll f body)
  | update head template attached =>
    update head (mapGraphAll f template)
      (match attached with
      | some body => some (mapGraphAll f body)
      | none => none)

/-- Changes the graph of every node of several trees that can name one. -/
def mapGraphAll (f : Option Text → Option Text) : List Statement → List Statement
  | [] => []
  | s :: ss => mapGraph f s :: mapGraphAll f ss

end

@[simp] theorem mapGraphAll_eq_map (f : Option Text → Option Text) (ss : List Statement) :
    mapGraphAll f ss = ss.map (mapGraph f) := by
  induction ss with
  | nil => rfl
  | cons s ss ih => simp [mapGraphAll, ih]

theorem mem_graphsAll {x : Text} {ss : List Statement} :
    x ∈ graphsAll ss ↔ ∃ s ∈ ss, x ∈ s.graphs := by
  induction ss with
  | nil => simp [graphsAll]
  | cons s ss ih => simp [graphsAll, ih]

theorem graphsAll_map {f : Statement → Statement} {ss : List Statement}
    (h : ∀ s ∈ ss, (f s).graphs = s.graphs) : graphsAll (ss.map f) = graphsAll ss := by
  induction ss with
  | nil => rfl
  | cons s ss ih =>
    rw [List.map_cons, graphsAll, graphsAll, h s (by simp),
      ih fun t ht => h t (List.mem_cons_of_mem _ ht)]

/-- Sets the graph of every group and projection of a tree. The empty IRI removes them. -/
def assignGraph (new : Text) (s : Statement) : Statement := s.mapGraph fun _ => graphNamed new

/-- Sets the graph of every group and projection of a tree that names the graph `old`. The empty
IRI removes it there. -/
def replaceGraph (old new : Text) (s : Statement) : Statement :=
  s.mapGraph (retarget old (graphNamed new))

end Statement

end SparqlTree
