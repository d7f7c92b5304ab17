import SparqlTree.Keyword
import SparqlTree.ParseError
import SparqlTree.Token.Basic

/-!
# Cursors

A cursor is a place in a list of tokens. The tokens before it have been consumed, the ones after
it are upcoming. Line breaks stay in the list as tokens of their own: most operations step over
them, and those named `…Any` do not.

A cursor may also cut the token it consumed last, so that a keyword glued to its successor can be
read as two tokens; the second piece then is upcoming again.
-/

namespace SparqlTree

/-- A place in a list of tokens. -/
structure Cursor where
  /-- The tokens before the cursor, the last one first. -/
  consumed : List Token := []
  /-- The tokens after the cursor. -/
  upcoming : List Token
  /-- The current line, counted from 1. It grows by one with each line feed consumed. -/
  line : Nat := 1
  /-- The byte length of the text, where errors are placed once the tokens are used up. -/
  stop : Nat
  /-- The number of consumed tokens that errors quote. -/
  window : Nat := 5

namespace Cursor

/-- The cursor before all tokens of a text of `stop` bytes. -/
def start (tokens : List Token) (stop : Nat) : Cursor := { upcoming := tokens, stop }

/-- Sets how many consumed tokens errors quote. -/
def withWindow (c : Cursor) (window : Nat) : Cursor := { c with window }

/-! ## Moving -/

/-- Consumes the next `n` tokens, line breaks included, or all if there are fewer. -/
def advance (c : Cursor) (n : Nat) : Cursor :=
  let passed := c.upcoming.take n
  { c with
    consumed := passed.reverse ++ c.consumed
    upcoming := c.upcoming.drop n
    line := c.line + passed.countP (·.kind == .newline) }

/-- Consumes the line breaks that come next. -/
def skipBreaks (c : Cursor) : Cursor :=
  c.advance (c.upcoming.takeWhile Token.isLineBreak).length

/-- Consumes the next token other than a line break, and the line breaks before it. -/
def pass (c : Cursor) : Cursor := c.skipBreaks.advance 1

/-- Consumes everything. -/
def drain (c : Cursor) : Cursor := c.advance c.upcoming.length

/-- The next token other than a line break, and the cursor behind it. -/
def next (c : Cursor) : Option Token × Cursor := (c.skipBreaks.upcoming.head?, c.pass)

/-- The next token, line breaks included, and the cursor behind it. -/
def nextAny (c : Cursor) : Option Token × Cursor := (c.upcoming.head?, c.advance 1)

/-! ## Looking around -/

/-- The token after `n` others in a list, not counting line breaks. -/
def nthToken : List Token → Nat → Option Token
  | [], _ => none
  | t :: ts, n =>
    if t.isLineBreak then nthToken ts n
    else
      match n with
      | 0 => some t
      | n + 1 => nthToken ts n

/-- The upcoming token after `n` others, not counting line breaks. -/
def peekNth (c : Cursor) (n : Nat) : Option Token := nthToken c.upcoming n

/-- The next token other than a line break. -/
def peek (c : Cursor) : Option Token := c.peekNth 0

/-- The next token, line breaks included. -/
def peekAny (c : Cursor) : Option Token := c.upcoming.head?

/-- True if a token other than a line break remains. -/
def hasNext (c : Cursor) : Bool := c.upcoming.any (!·.isLineBreak)

/-- True if a token remains. -/
def hasNextAny (c : Cursor) : Bool := !c.upcoming.isEmpty

/-- The last `n` consumed tokens other than line breaks, with spaces between them. -/
def previous (c : Cursor) (n : Nat) : Text :=
  Text.spaced (((c.consumed.filter (!·.isLineBreak)).take n).reverse.map Token.text)

/-! ## Changing the tokens -/

/-- Puts other tokens in the place of the one consumed last. The first of them counts as consumed,
the others come next. -/
def replaceCurrent (c : Cursor) (tokens : List Token) : Cursor :=
  match c.consumed, tokens with
  | _ :: before, first :: rest =>
    { c with consumed := first :: before, upcoming := rest ++ c.upcoming }
  | _, _ => c

/-- Cuts the token consumed last behind `head`, if it begins with `head` in some letter case and
goes on after it. -/
def breakOff? (c : Cursor) (head : Text) : Option Cursor :=
  match c.consumed with
  | [] => none
  | t :: _ =>
    if head ≠ [] ∧ head.length < t.text.length ∧ Text.sameLetters (t.text.take head.length) head
    then
      -- Letter case does not change lengths, so the cut lies as far in as `head` is long.
      let (front, back) := t.cut (t.text.take head.length) (t.text.drop head.length)
      some (c.replaceCurrent [front, back])
    else none

/-- Cuts the token consumed last behind `head` where that is possible. -/
def breakOff (c : Cursor) (head : Text) : Cursor := (c.breakOff? head).getD c

/-! ## Errors -/

/-- The error for a token that stands where something else was due. -/
def errorAt (c : Cursor) (token : Token) (expected : Expectation) : ParseError where
  line := c.line
  expected := expected
  found := token.display
  near := c.previous c.window
  span := token.span

/-- The error for a text that ends where something was due. -/
def errorAtEnd (c : Cursor) (expected : Expectation) : ParseError where
  line := c.line
  expected := expected
  found := ParseError.endOfInput
  near := c.previous c.window
  span := ⟨c.stop, c.stop⟩

/-- The error for whatever comes next. -/
def errorFound (c : Cursor) (expected : Expectation) : ParseError :=
  match c.peek with
  | some token => c.errorAt token expected
  | none => c.errorAtEnd expected

/-! ## Reading what is due -/

/-- Consumes the next token other than a line break. At the end of the text this is an error. -/
def expect (c : Cursor) (expected : Expectation) : Except ParseError (Token × Cursor) :=
  match c.next with
  | (some token, rest) => .ok (token, rest)
  | (none, rest) => .error (rest.errorAtEnd expected)

/-- Consumes the next token other than a line break, which has to pass a test. -/
def require (c : Cursor) (expected : Expectation) (accept : Token → Bool) :
    Except ParseError (Token × Cursor) := do
  let (token, rest) ← c.expect expected
  if accept token then pure (token, rest) else throw (rest.errorAt token expected)

/-- Consumes a token of one kind. -/
def requireKind (c : Cursor) (expected : Expectation) (kind : TokenKind) :
    Except ParseError Cursor := do
  let (_, rest) ← c.require expected (·.kind == kind)
  pure rest

/-- Consumes an IRI reference and gives the text between its brackets. -/
def requireIri (c : Cursor) : Except ParseError (Text × Cursor) := do
  let (token, rest) ← c.expect .iri
  match token.iri? with
  | some iri => pure (iri, rest)
  | none => throw ((rest.errorAt token .iri).withHelp ParseError.fullIriHelp)

/-- True if a token of one kind comes next. -/
def atKind (c : Cursor) (kind : TokenKind) : Bool := c.peek.any (·.kind == kind)

/-- True if a keyword comes next as a token of its own. -/
def atKeyword (c : Cursor) (k : Keyword) : Bool := c.peek.any fun t => k.spells t.text

/-- True if a keyword comes next, alone or glued to what follows it. -/
def atGlued (c : Cursor) (k : Keyword) : Bool := c.peek.any fun t => k.leads t.text

/-- Consumes a keyword if it comes next as a token of its own. -/
def eat? (c : Cursor) (k : Keyword) : Option Cursor :=
  if c.atKeyword k then some c.pass else none

/-- Consumes a keyword if it comes next, alone or glued to what follows it. The rest of the token
is upcoming again. -/
def eatGlued? (c : Cursor) (k : Keyword) : Option Cursor :=
  if c.atGlued k then some (c.pass.breakOff k.name) else none

/-- Steps over a keyword if it comes next as a token of its own. -/
def skip (c : Cursor) (k : Keyword) : Cursor := (c.eat? k).getD c

/-- Steps over a keyword if it comes next, alone or glued to what follows it. -/
def skipGlued (c : Cursor) (k : Keyword) : Cursor := (c.eatGlued? k).getD c

end Cursor

end SparqlTree
