import SparqlTree.Statement.Basic

/-!
# Writing statements

The text of a statement. A body is written in braces with one line for each of its statements;
heads stand before their body, solution modifiers after it.
-/

namespace SparqlTree

namespace Text

/-- Each text on a new line, the first one too. -/
def onNewLines (ts : List Text) : Text := ts.flatMap ('\n' :: ·)

/-- Texts in braces, each on a line of its own. -/
def braced (ts : List Text) : Text := '\x7b' :: onNewLines ts ++ ['\n', '\x7d']

/-- An IRI in angle brackets. -/
def angled (iri : Text) : Text := '<' :: iri ++ ['>']

end Text

/-- A projection around the text of its body. -/
def Projection.render (keyword : Text) (p : Projection) (body : Text) : Text :=
  let quantifier := match p.quantifier with
    | some q => ' ' :: q.name
    | none => []
  let projected := if p.projected = [] then [] else ' ' :: p.projected
  let dataset := match p.graph with
    | some graph =>
      "\nFROM ".toList ++ (if p.fromNamed then "NAMED ".toList else []) ++ Text.angled graph
    | none => []
  let form := keyword ++ quantifier ++ projected ++ dataset ++ "\nWHERE ".toList ++ body
    ++ Text.onNewLines p.modifiers
  if p.inBlock then "\x7b\n".toList ++ form ++ "\n\x7d".toList else form

/-- A head around the text of its body. -/
def Head.render (head : Head) (body : Text) : Text :=
  match head with
  | group none false => body
  | group none true => "OPTIONAL ".toList ++ body
  | group (some graph) false => "GRAPH ".toList ++ Text.angled graph ++ ' ' :: body
  | group (some graph) true =>
    "OPTIONAL \x7b\nGRAPH ".toList ++ Text.angled graph ++ ' ' :: body ++ "\n\x7d".toList
  | pattern => "WHERE ".toList ++ body
  | select p => p.render "SELECT".toList body
  | describe p => p.render "DESCRIBE".toList body
  | construct template modifiers =>
    let template := template.trim
    "CONSTRUCT \x7b".toList ++ (if template = [] then [] else '\n' :: template)
      ++ "\n\x7d\nWHERE ".toList ++ body ++ Text.onNewLines modifiers
  | ask => "ASK ".toList ++ body

/-- The head of an update before the text of its template. -/
def UpdateHead.render (head : UpdateHead) (template : Text) : Text :=
  head.operation.name ++ (if head.data then " DATA ".toList else [' ']) ++ template

namespace Statement

mutual

/-- The text of a statement. -/
def render : Statement → Text
  | simple text => text
  | block head body => head.render (Text.braced (renderAll body))
  | update head template attached =>
    head.render (Text.braced (renderAll template)) ++
      match attached with
      | some body => '\n' :: Head.pattern.render (Text.braced (renderAll body))
      | none => []

/-- The texts of several statements. -/
def renderAll : List Statement → List Text
  | [] => []
  | s :: ss => render s :: renderAll ss

end

@[simp] theorem renderAll_eq_map (ss : List Statement) : renderAll ss = ss.map render := by
  induction ss with
  | nil => rfl
  | cons s ss ih => simp [renderAll, ih]

instance : ToString Statement := ⟨fun s => String.ofList s.render⟩

end Statement

end SparqlTree
