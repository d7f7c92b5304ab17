import SparqlTree.Lexeme
import SparqlTree.Text.Blank

/-!
# From text to tokens

The lexemes of a text that are not gaps become its tokens, each with the place where it stands.
-/

namespace SparqlTree

namespace Lexeme

/-- The text of the token that a lexeme becomes. A string or IRI reference that was left open
loses the blanks at its end; one that was closed has none there. -/
def kept (l : Lexeme) : Text :=
  match l.kind with
  | some .string | some .iri => Text.trimEnd l.text
  | _ => l.text

/-- Gives the lexemes that are not gaps their places, the first lexeme being at `start`. -/
def place (start : Nat) : List Lexeme → List Token
  | [] => []
  | l :: rest =>
    let next := place (start + Text.byteLength l.text) rest
    match l.kind with
    | none => next
    | some kind => ⟨kind, l.kept, ⟨start, start + Text.byteLength l.kept⟩⟩ :: next

end Lexeme

/-- Divides a text into tokens. -/
def tokenize (t : Text) : List Token := Lexeme.place 0 (Lexeme.ofText t)

end SparqlTree
