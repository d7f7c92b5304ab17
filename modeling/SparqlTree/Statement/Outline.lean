import SparqlTree.Statement.Graphs
import SparqlTree.Statement.Variables

/-!
# Outlines

The nodes of a tree in preorder: a node before its body, a template before the WHERE body attached
to it. An attached WHERE body has a node of its own in the outline, one level below its update.
-/

namespace SparqlTree

/-- A node without what stands below it. -/
inductive Node where
  | simple (text : Text)
  | block (head : Head)
  | update (head : UpdateHead) (hasWhere : Bool)
  /-- The WHERE body attached to an update. -/
  | attached
deriving DecidableEq

namespace Node

/-- The variables that the node itself mentions. -/
def variableNames : Node → NameSet
  | simple text => text.variableNames
  | block head => head.variableNames
  | update .. | attached => ∅

/-- The graph that the node itself names. -/
def graph? : Node → Option Text
  | block head => head.graph?
  | _ => none

end Node

/-- A node of a tree and how deep it stands. -/
structure OutlineEntry where
  depth : Nat
  node : Node
deriving DecidableEq

namespace Statement

mutual

/-- The outline of a statement that stands at a given depth. -/
def outline (depth : Nat) : Statement → List OutlineEntry
  | simple text => [⟨depth, .simple text⟩]
  | block head body => ⟨depth, .block head⟩ :: outlineAll (depth + 1) body
  | update head template attached =>
    ⟨depth, .update head attached.isSome⟩ :: outlineAll (depth + 1) template ++
      match attached with
      | some body => ⟨depth + 1, .attached⟩ :: outlineAll (depth + 2) body
      | none => []

/-- The outline of several statements that stand at a given depth. -/
def outlineAll (depth : Nat) : List Statement → List OutlineEntry
  | [] => []
  | s :: ss => outline depth s ++ outlineAll depth ss

end

/-- The nodes of a tree in preorder. -/
def nodes (s : Statement) : List Node := (s.outline 0).map OutlineEntry.node

end Statement

end SparqlTree
