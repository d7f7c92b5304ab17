import SparqlTree.Grammar.Draft
import SparqlTree.Token.Scan

/-!
# Reading queries

A text is divided into tokens, the clauses are read into a draft, and a draft that has found its
form becomes the query. A text without a query form is refused, whatever else it holds.
-/

namespace SparqlTree

/-- The query that a draft has become, if its form was found. -/
def Draft.query? (d : Draft) (source : Text) : Option Query :=
  d.form.map fun form =>
    { base := d.base, prefixes := d.prefixes, form, graph := d.graph,
      statements := d.statements, source }

namespace Query

/-- The cursor at the start of a text. -/
def cursor (cfg : Config) (text : Text) : Cursor :=
  (Cursor.start (tokenize text) (Text.byteLength text)).withWindow cfg.contextTokens

/-- Reads a text as a query. -/
def parse (cfg : Config) (text : Text) : Except ParseError Query := do
  let (draft, c) ← Draft.read cfg (cursor cfg text)
  match draft.query? text with
  | some q => pure q
  | none => throw (c.errorFound .queryForm)

theorem parse_of_read {cfg : Config} {text : Text} {d : Draft} {c : Cursor} {q : Query}
    (h : Draft.read cfg (cursor cfg text) = .ok (d, c)) (hq : d.query? text = some q) :
    parse cfg text = .ok q := by
  rw [parse, h]
  dsimp only [bind, Except.bind]
  rw [hq]
  rfl

/-- A query was a draft before. -/
theorem exists_draft_of_parse {cfg : Config} {text : Text} {q : Query}
    (h : parse cfg text = .ok q) :
    ∃ d c, Draft.read cfg (cursor cfg text) = .ok (d, c) ∧ d.query? text = some q := by
  obtain ⟨⟨d, c⟩, hread, h⟩ := bind_eq_ok.1 h
  dsimp only at h
  split at h
  · next hq =>
    obtain rfl := Except.ok.inj h
    exact ⟨d, c, hread, hq⟩
  · nomatch h

/-- Reads a query again from its own text. -/
def reparse (cfg : Config) (q : Query) : Except ParseError Query := parse cfg q.render

end Query

end SparqlTree
