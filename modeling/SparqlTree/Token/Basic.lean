import SparqlTree.Text.Basic
import SparqlTree.Span

/-!
# Tokens

A token is a piece of query text together with its place. Only the pieces that matter to the
structure of a query have a kind of their own: braces, line breaks, strings and IRI references.
Every other run of characters is a word.
-/

namespace SparqlTree

/-- What a token is to the structure of a query. -/
inductive TokenKind where
  | openBrace
  | closeBrace
  | newline
  | carriageReturn
  | string
  | iri
  | word
deriving DecidableEq, Repr, Inhabited

namespace TokenKind

/-- The name by which a kind is shown. -/
def name : TokenKind → Text
  | openBrace => "'\x7b'".toList
  | closeBrace => "'\x7d'".toList
  | newline => "newline".toList
  | carriageReturn => "carriage return".toList
  | string => "string literal".toList
  | iri => "IRI reference".toList
  | word => "word".toList

/-- Line feeds and carriage returns. -/
def isLineBreak : TokenKind → Bool
  | newline | carriageReturn => true
  | _ => false

/-- The kind of a piece of a token that has been cut in two. -/
def classify : Text → TokenKind
  | ['\x7b'] => openBrace
  | ['\x7d'] => closeBrace
  | ['\n'] => newline
  | ['\r'] => carriageReturn
  | '"' :: _ => string
  | '<' :: _ => iri
  | _ => word

end TokenKind

/-- A piece of query text with its kind and place. -/
structure Token where
  kind : TokenKind
  text : Text
  span : Span
deriving DecidableEq, Inhabited

namespace Token

/-- True of line feeds and carriage returns. -/
def isLineBreak (t : Token) : Bool := t.kind.isLineBreak

/-- The token as an error message shows it: line breaks are escaped. -/
def display (t : Token) : Text :=
  match t.kind with
  | .newline => ['\\', 'n']
  | .carriageReturn => ['\\', 'r']
  | _ => t.text

/-- The text between the angle brackets of a complete IRI reference. -/
def iri? (t : Token) : Option Text :=
  match t.text with
  | '<' :: rest => if rest.getLast? = some '>' then some rest.dropLast else none
  | _ => none

/-- True of complete IRI references. -/
def isIri (t : Token) : Bool := t.iri?.isSome

/-- Cuts a token into two pieces with the given texts. The cut lies after the first piece, but
not beyond the end of the token. -/
def cut (t : Token) (head tail : Text) : Token × Token :=
  let mid := min (t.span.first + Text.byteLength head) t.span.last
  (⟨.classify head, head, ⟨t.span.first, mid⟩⟩, ⟨.classify tail, tail, ⟨mid, t.span.last⟩⟩)

/-- Cuts a token after `n` bytes, if that falls between two of its characters. -/
def splitAt? (t : Token) (n : Nat) : Option (Token × Token) :=
  match Text.splitBytes? n t.text with
  | some (head, tail) => if head = [] ∨ tail = [] then none else some (t.cut head tail)
  | none => none

end Token

end SparqlTree
