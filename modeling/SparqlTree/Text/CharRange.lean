/-!
# Ranges of code points

A character class is written as a table of ranges in ascending order.
-/

namespace SparqlTree

/-- The code points from `first` to `last`, both included. -/
structure CharRange where
  first : Nat
  last : Nat

namespace CharRange

/-- True of the characters that lie in one of the ranges of an ascending table. -/
def covers (ranges : List CharRange) (c : Char) : Bool :=
  match ranges with
  | [] => false
  | r :: rest => if c.toNat < r.first then false else c.toNat ≤ r.last || covers rest c

end CharRange

end SparqlTree
