import SparqlTree.Token.Basic

/-!
# Lexemes

A text is divided into lexemes, each directly behind the one before. What separates tokens is a
lexeme too, called a gap. The first character of a lexeme decides what it is and where it ends:

* spaces and tabs are gaps;
* a `#` begins a comment, a gap that runs up to the next line break;
* braces and line breaks stand alone;
* a string runs to the next quotation mark, an IRI reference to the next `>`, or to the end of
  the text if there is none;
* any other character begins a word, which runs up to the next character that ends words.

The lexemes of a text concatenate to the text (`flatMap_text_ofText`), so nothing of it is lost or
read twice. No text is refused.
-/

namespace SparqlTree

/-- A piece of text as it was divided; a piece without a kind is a gap between tokens. -/
structure Lexeme where
  kind : Option TokenKind
  text : Text
deriving DecidableEq

namespace Text

/-- True of the characters at which a line ends. -/
def endsLine (c : Char) : Bool := c == '\n' || c == '\r'

/-- True of the characters that may follow in a word. -/
def continuesWord (c : Char) : Bool :=
  !(c == ' ' || c == '\t' || endsLine c || c == '\x7b' || c == '\x7d' || c == '"' || c == '<'
    || c == '#')

/-- Divides a text after the first occurrence of a character, or at its end if there is none. -/
def throughChar (close : Char) : Text → Text × Text
  | [] => ([], [])
  | c :: t =>
    if c = close then ([c], t) else (c :: (throughChar close t).1, (throughChar close t).2)

theorem throughChar_append (close : Char) (t : Text) :
    (throughChar close t).1 ++ (throughChar close t).2 = t := by
  induction t with
  | nil => rfl
  | cons c t ih => unfold throughChar; split <;> simp [ih]

end Text

namespace Lexeme

/-- The lexeme that begins with the character `c`, and the text after it. -/
def first (c : Char) (t : Text) : Lexeme × Text :=
  if c = ' ' ∨ c = '\t' then (⟨none, [c]⟩, t)
  else if c = '#' then (⟨none, c :: t.takeWhile (!Text.endsLine ·)⟩, t.dropWhile (!Text.endsLine ·))
  else if c = '\x7b' then (⟨some .openBrace, [c]⟩, t)
  else if c = '\x7d' then (⟨some .closeBrace, [c]⟩, t)
  else if c = '\n' then (⟨some .newline, [c]⟩, t)
  else if c = '\r' then (⟨some .carriageReturn, [c]⟩, t)
  else if c = '"' then (⟨some .string, c :: (Text.throughChar '"' t).1⟩, (Text.throughChar '"' t).2)
  else if c = '<' then (⟨some .iri, c :: (Text.throughChar '>' t).1⟩, (Text.throughChar '>' t).2)
  else (⟨some .word, c :: t.takeWhile Text.continuesWord⟩, t.dropWhile Text.continuesWord)

/-- The first lexeme and the text after it make up the text. -/
theorem first_append (c : Char) (t : Text) : (first c t).1.text ++ (first c t).2 = c :: t := by
  unfold first
  repeat' split
  all_goals simp [Text.throughChar_append]

theorem length_first_le (c : Char) (t : Text) : (first c t).2.length ≤ t.length := by
  have hpos : 1 ≤ (first c t).1.text.length := by
    unfold first
    repeat' split
    all_goals simp
  have := congrArg List.length (first_append c t)
  simp only [List.length_append, List.length_cons] at this
  omega

/-- Divides a text into lexemes. -/
def ofText : Text → List Lexeme
  | [] => []
  | c :: t => (first c t).1 :: ofText (first c t).2
termination_by t => t.length
decreasing_by
  have := length_first_le c t
  simp; omega

/-- The lexemes of a text concatenate to the text. -/
theorem flatMap_text_ofText (t : Text) : (ofText t).flatMap Lexeme.text = t := by
  induction t using ofText.induct with
  | case1 => simp [ofText]
  | case2 c t ih => rw [ofText, List.flatMap_cons, ih, first_append]

end Lexeme

end SparqlTree
