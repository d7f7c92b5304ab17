import SparqlTree.NameSet
import SparqlTree.Text.Blank
import SparqlTree.Text.NameChar

/-!
# Variables

A word of a text mentions a variable if, after any opening parentheses and exclamation marks, it
begins with a question mark and a name. Names are longest runs of name characters and are reported
without the question mark.
-/

namespace SparqlTree

namespace Text

/-- True of the characters that may stand before the question mark of a variable. -/
def opensVariable (c : Char) : Bool := c == '(' || c == '!'

/-- The variable that a word mentions. -/
def mentioned? (word : Text) : Option Text :=
  match word.dropWhile opensVariable with
  | '?' :: rest =>
    let name := rest.takeWhile isNameChar
    if name = [] then none else some name
  | _ => none

/-- The variables that a text mentions. -/
def variableNames (t : Text) : NameSet := .ofList (t.words.filterMap mentioned?)

end Text

end SparqlTree
