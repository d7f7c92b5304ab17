import SparqlTree.Grammar.Item
import SparqlTree.Grammar.Modifier

/-!
# Heads

Each block is read in three parts: its head up to the opening brace, its body, and what closes it,
which are the solution modifiers of a query form and the second brace of a sub-select. This module
reads the first and the last part.
-/

namespace SparqlTree

/-- How the body under a head treats full stops. -/
def Head.bodyStyle : Head → BodyStyle
  | group .. | pattern | ask => .segmented
  | select _ | describe _ | construct .. => .whole

/-- Reads the opening brace of a body. -/
def readOpenBrace (c : Cursor) : Except ParseError Cursor := c.requireKind .openBrace .openBrace

/-- Reads FROM, or FROM NAMED, with its graph if it comes next. -/
def readDataset? (c : Cursor) : Except ParseError (Option (Text × Bool) × Cursor) :=
  match c.eat? .fromClause with
  | none => pure (none, c)
  | some c => do
    let isNamed := c.atKeyword .named
    let (graph, c) ← (c.skip .named).requireIri
    pure (some (graph, isNamed), c)

namespace Projection

/-- True of the tokens that a projection is made of: it ends at a brace, FROM or WHERE. -/
def isProjected (t : Token) : Bool :=
  !(t.kind == .openBrace || t.kind == .closeBrace || Keyword.fromClause.spells t.text
    || Keyword.whereClause.leads t.text)

/-- Reads DISTINCT or REDUCED if it comes next. -/
def readQuantifier? (c : Cursor) : Option SetQuantifier × Cursor :=
  match c.eat? .distinct with
  | some c => (some .distinct, c)
  | none =>
    match c.eat? .reduced with
    | some c => (some .reduced, c)
    | none => (none, c)

/-- Reads WHERE, which may be left out before an opening brace, and the opening brace. -/
def readWhere (hasGraph : Bool) (c : Cursor) : Except ParseError Cursor :=
  match c.eatGlued? .whereClause with
  | some c => readOpenBrace c
  | none =>
    if c.atKind .openBrace then readOpenBrace c
    else throw (c.errorFound (if hasGraph then .whereClause else .whereOrFrom))

/-- Reads what stands between SELECT or DESCRIBE and the body. -/
def read (inBlock : Bool) (c : Cursor) : Except ParseError (Projection × Cursor) := do
  let (quantifier, c) := readQuantifier? c
  let (tokens, c) := c.takeRun isProjected
  if tokens.isEmpty then throw (c.errorFound .projection)
  let (dataset, c) ← readDataset? c
  let c ← readWhere dataset.isSome c
  pure ({ quantifier
          projected := Text.spaced (tokens.map Token.text)
          graph := dataset.map Prod.fst
          fromNamed := dataset.any Prod.snd
          inBlock }, c)

end Projection

namespace Head

/-- Reads WHERE, which may be left out, and the opening brace. -/
def readOptionalWhere (c : Cursor) : Except ParseError Cursor :=
  readOpenBrace (c.skipGlued .whereClause)

/-- True if a token begins a nested block. -/
def begins (t : Token) : Bool :=
  t.kind == .openBrace || Keyword.graph.leads t.text || Keyword.optional.leads t.text

/-- True if a sub-select comes next. -/
def atSubSelect (c : Cursor) : Bool :=
  c.atKind .openBrace && (c.peekNth 1).any fun t => Keyword.select.spells t.text

/-- Reads the head of a group. -/
def readGroup (c : Cursor) : Except ParseError (Head × Cursor) := do
  match c.eatGlued? .optional with
  | some c =>
    let c ← readOpenBrace c
    pure (.group none true, c)
  | none =>
    match c.eatGlued? .graph with
    | some c =>
      let (graph, c) ← c.requireIri
      let c ← readOpenBrace c
      pure (.group (some graph) false, c)
    | none =>
      let c ← readOpenBrace c
      pure (.group none false, c)

/-- Reads the head of a nested block. -/
def readNested (c : Cursor) : Except ParseError (Head × Cursor) := do
  if atSubSelect c then
    -- The brace and SELECT were seen ahead.
    let (projection, c) ← Projection.read true c.pass.pass
    pure (.select projection, c)
  else readGroup c

/-- Reads the template of a CONSTRUCT form, from brace to brace. Line breaks are kept as they are,
and every other token follows one space. -/
def readTemplate (c : Cursor) : Except ParseError (Text × Cursor) := do
  let c ← readOpenBrace c
  -- Templates do not nest: a brace that opens here is text.
  let inside := c.upcoming.takeWhile (·.kind != .closeBrace)
  if inside.length < c.upcoming.length then
    let written := inside.flatMap fun t => if t.isLineBreak then t.text else ' ' :: t.text
    pure (Text.trim written, c.advance (inside.length + 1))
  else throw (c.drain.errorAtEnd .closeBrace)

/-- Reads the head of a CONSTRUCT form. -/
def readConstruct (c : Cursor) : Except ParseError (Head × Cursor) := do
  let (template, c) ← readTemplate c
  let c ← readOptionalWhere c
  pure (.construct template [], c)

/-- Reads what closes a SELECT or DESCRIBE form. -/
def closeProjection (p : Projection) (c : Cursor) : Except ParseError (Projection × Cursor) := do
  let (modifiers, c) ← Modifier.readAll c
  if p.inBlock then
    let c ← c.requireKind .endOfSubSelect .closeBrace
    pure ({ p with modifiers }, c)
  else pure ({ p with modifiers }, c)

/-- Reads what closes a block behind its body. -/
def close (head : Head) (c : Cursor) : Except ParseError (Head × Cursor) := do
  match head with
  | select p =>
    let (p, c) ← closeProjection p c
    pure (select p, c)
  | describe p =>
    let (p, c) ← closeProjection p c
    pure (describe p, c)
  | construct template _ =>
    let (modifiers, c) ← Modifier.readAll c
    pure (construct template modifiers, c)
  | group .. | pattern | ask => pure (head, c)

end Head

end SparqlTree
