import SparqlTree.Text.Alphabetic
import SparqlTree.Text.Numeric

/-!
# Name characters

The characters that a variable name is made of: letters and numbers of any script, and the
underscore.
-/

namespace SparqlTree

/-- True of letters and numbers: property Alphabetic, or general category Nd, Nl or No. -/
def isAlphanumeric (c : Char) : Bool :=
  CharRange.covers alphabeticRanges c || CharRange.covers numericRanges c

/-- True of the characters that a variable name may contain. -/
def isNameChar (c : Char) : Bool := isAlphanumeric c || c == '_'

end SparqlTree
