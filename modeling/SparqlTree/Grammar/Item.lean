import SparqlTree.Statement.Basic

/-!
# Items of a body

Between its braces a body is a sequence of items: words of text, stops that separate statements,
and nested blocks. `Statement.ofItems` joins the words between stops and blocks into simple
statements.
-/

namespace SparqlTree

/-- How a body treats a full stop. -/
inductive BodyStyle where
  /-- A full stop ends a statement. -/
  | segmented
  /-- A full stop is text like any other. -/
  | whole
deriving DecidableEq, Repr

/-- A part of a body. -/
inductive Item where
  /-- A token of text, and the line breaks before it. -/
  | word (breaks : Text) (text : Text)
  /-- A full stop that ends a statement. -/
  | stop
  /-- A block within the body. -/
  | nested (s : Statement)
deriving DecidableEq

namespace Item

/-- The text of the words at the head of a list of items. Each is written with the line breaks
before it and one space. -/
def leadingText : List Item → Text
  | .word breaks text :: items => breaks ++ ' ' :: text ++ leadingText items
  | _ => []

/-- True if a full stop follows the words at the head of a list of items. -/
def leadStops : List Item → Bool
  | .word _ _ :: items => leadStops items
  | .stop :: _ => true
  | _ => false

end Item

namespace Statement

/-- The statement that the words at the head of a list of items make up, unless they are blank. A
full stop behind them belongs to it. -/
def ofLead (items : List Item) : List Statement :=
  let text := Item.leadingText items
  if text.trim = [] then []
  else [ofText (if Item.leadStops items then text ++ [' ', '.'] else text)]

/-- The statements behind the words at the head of a list of items. -/
def afterLead : List Item → List Statement
  | [] => []
  | .word _ _ :: items => afterLead items
  | .stop :: items => ofLead items ++ afterLead items
  | .nested s :: items => s :: (ofLead items ++ afterLead items)

/-- The statements that the items of a body make up. -/
def ofItems (items : List Item) : List Statement := ofLead items ++ afterLead items

end Statement

end SparqlTree
