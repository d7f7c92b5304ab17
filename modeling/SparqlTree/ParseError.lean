import SparqlTree.Diagnostic

/-!
# Parse errors

A query that cannot be read is refused with one error: what was expected, what stood there
instead, on which line, and which tokens came before. The wording of every expectation is in
`Expectation.message`.
-/

namespace SparqlTree

/-- What a query should have had at some point. -/
inductive Expectation where
  | queryKeyword
  | prologueFirst
  | singleForm
  | noUpdateAfterForm
  | queryForm
  | prefixLabel
  | colon
  | iri
  | openBrace
  | closeBrace
  | projection
  | whereClause
  | whereOrFrom
  | endOfSubSelect
  | valueAfter (keyword : Text)
  | groupBy
  | groupingVariable
  | orderBy
  | orderingKey
  | nestingAtMost (limit : Nat)
  | whereAfterTemplate (operation : Text)
  /-- An expectation that a caller puts into words. -/
  | described (message : Text)
deriving DecidableEq

/-- The wording of an expectation. -/
def Expectation.message : Expectation → Text
  | queryKeyword => "expected a query keyword".toList
  | prologueFirst => "expected PREFIX and BASE before the query form".toList
  | singleForm => "expected a single query form".toList
  | noUpdateAfterForm => "expected no update operation after a query form".toList
  | queryForm => "expected SELECT, CONSTRUCT, DESCRIBE, ASK, INSERT or DELETE".toList
  | prefixLabel => "expected a prefix label".toList
  | colon => "expected ':'".toList
  | iri => "expected '<iri>'".toList
  | openBrace => "expected '\x7b'".toList
  | closeBrace => "expected '\x7d'".toList
  | projection => "expected projection variables or '*'".toList
  | whereClause => "expected 'WHERE'".toList
  | whereOrFrom => "expected 'WHERE' or 'FROM'".toList
  | endOfSubSelect => "expected '\x7d' after sub-select".toList
  | valueAfter keyword => "expected a value after ".toList ++ keyword
  | groupBy => "expected 'BY'".toList
  | groupingVariable => "expected a grouping variable".toList
  | orderBy => "expected 'order by'".toList
  | orderingKey => "expected an ordering key".toList
  | nestingAtMost limit => "expected at most ".toList ++ Text.ofNat limit ++ " nested groups".toList
  | whereAfterTemplate operation =>
    "expected WHERE clause after the ".toList ++ operation ++ " template".toList
  | described message => message

/-- The class of a refusal. -/
inductive ErrorKind where
  | invalidQuery
deriving DecidableEq, Repr

/-- The name by which a class of refusals is shown. -/
def ErrorKind.name : ErrorKind → Text
  | invalidQuery => "invalid query".toList

/-- Why a query was refused. -/
structure ParseError where
  /-- The line of the failure, counted from 1. -/
  line : Nat
  expected : Expectation
  /-- The token that stood there, as it is shown. -/
  found : Text
  /-- The tokens read last, with spaces between them. -/
  near : Text
  span : Span
  help : Option Text := none
deriving DecidableEq

namespace ParseError

/-- What is reported as found when the text is used up. -/
def endOfInput : Text := "end of input".toList

/-- The hint that goes with a missing IRI. -/
def fullIriHelp : Text := "graph and prefix IRIs must be written in full as <...>".toList

/-- The hint that goes with the nesting limit. -/
def nestingHelp : Text := "raise `ParserConfig::max_depth` to accept deeper nesting".toList

/-- The hint that goes with a template whose variables nothing binds. -/
def unboundHelp : Text := "templates that use variables need a WHERE clause to bind them".toList

/-- The code under which every refusal is reported. -/
def code : Text := "sparql::invalid_query".toList

/-- The error with a hint, in place of an earlier one. -/
def withHelp (e : ParseError) (help : Text) : ParseError := { e with help := some help }

/-- The class of the error. There is only one. -/
def kind (_ : ParseError) : ErrorKind := .invalidQuery

/-- The error in one line. -/
def message (e : ParseError) : Text :=
  "Invalid SPARQL on line ".toList ++ Text.ofNat e.line ++ ": ".toList ++ e.expected.message
    ++ ", found ".toList ++ e.found ++ " (near: ".toList ++ e.near ++ ")".toList

/-- The error as a diagnostic: one label at the token found, and a note with the tokens before it,
unless there were none. -/
def diagnostic (e : ParseError) : Diagnostic where
  message := e.expected.message ++ ", found ".toList ++ e.found
  labels := [⟨e.span, "line ".toList ++ Text.ofNat e.line⟩]
  help := e.help
  notes := if e.near = [] then [] else ["near: ".toList ++ e.near]
  code := some code

/-- The error set against a source. -/
def report (e : ParseError) (source : Source) : Report := e.diagnostic.report source

/-- The error as it stands, without a source: its one label keeps the place of its span. -/
def summary (e : ParseError) : Report where
  message := e.message
  severity := none
  code := some code
  help := e.help
  labels := [⟨e.expected.message, e.span.first, e.span.length⟩]
  related := []

end ParseError

end SparqlTree
