import SparqlTree.Statement.Basic

/-!
# Paths

A path names a node of a list of statements: its first index is a position in the list, every
further one a position in the body of the node before. The WHERE body attached to an update lies
on no path.
-/

namespace SparqlTree.Statement

/-- Changes the list of statements that a path leads into. Text has no body to lead into. -/
def editList? (edit : List Statement → Option (List Statement)) :
    List Nat → List Statement → Option (List Statement)
  | [], ss => edit ss
  | i :: path, ss =>
    match ss[i]? with
    | none | some (.simple _) => none
    | some s => (editList? edit path s.body).map fun body => ss.set i (s.withBody body)

/-- The node at the end of a path. -/
def at? : List Nat → List Statement → Option Statement
  | [], _ => none
  | [i], ss => ss[i]?
  | i :: path, ss => do
    let s ← ss[i]?
    at? path s.body

/-- Changes the node at the end of a path. -/
def modifyAt? (path : List Nat) (f : Statement → Statement) (ss : List Statement) :
    Option (List Statement) := do
  let i ← path.getLast?
  editList? (fun ss => if i < ss.length then some (ss.modify i f) else none) path.dropLast ss

/-- Puts a statement before the node at the end of a path. The position after the last node is
good too. -/
def insertAt? (path : List Nat) (new : Statement) (ss : List Statement) :
    Option (List Statement) := do
  let i ← path.getLast?
  editList? (fun ss => if i ≤ ss.length then some (ss.insertIdx i new) else none) path.dropLast ss

/-- Removes the node at the end of a path. -/
def removeAt? (path : List Nat) (ss : List Statement) : Option (List Statement) := do
  let i ← path.getLast?
  editList? (fun ss => if i < ss.length then some (ss.eraseIdx i) else none) path.dropLast ss

end SparqlTree.Statement
