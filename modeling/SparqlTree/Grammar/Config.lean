/-!
# Reading configuration
-/

namespace SparqlTree

/-- What can be set for the reading of a query. -/
structure Config where
  /-- The number of consumed tokens that errors quote. -/
  contextTokens : Nat := 5
  /-- Whether an update template with variables needs a WHERE body. -/
  strictUpdateWhere : Bool := true
  /-- The deepest nesting of groups and sub-selects in a body. -/
  maxDepth : Nat := 128
deriving DecidableEq, Repr

end SparqlTree
