import SparqlTree.Text.Caseless

/-!
# Keywords

The words that give a query its structure. They are recognised in any letter case, either as a
whole token or at the head of a token that goes on with `<`, an opening brace or a parenthesis.
-/

namespace SparqlTree

/-- The reserved words. -/
inductive Keyword where
  | base
  | prefixDecl
  | select
  | construct
  | describe
  | ask
  | insert
  | delete
  | data
  | whereClause
  | fromClause
  | named
  | withGraph
  | graph
  | optional
  | distinct
  | reduced
  | limit
  | offset
  | order
  | group
  | by_
deriving DecidableEq, Repr, Inhabited

namespace Keyword

/-- The spelling in capitals. -/
def name : Keyword → Text
  | base => "BASE".toList
  | prefixDecl => "PREFIX".toList
  | select => "SELECT".toList
  | construct => "CONSTRUCT".toList
  | describe => "DESCRIBE".toList
  | ask => "ASK".toList
  | insert => "INSERT".toList
  | delete => "DELETE".toList
  | data => "DATA".toList
  | whereClause => "WHERE".toList
  | fromClause => "FROM".toList
  | named => "NAMED".toList
  | withGraph => "WITH".toList
  | graph => "GRAPH".toList
  | optional => "OPTIONAL".toList
  | distinct => "DISTINCT".toList
  | reduced => "REDUCED".toList
  | limit => "LIMIT".toList
  | offset => "OFFSET".toList
  | order => "ORDER".toList
  | group => "GROUP".toList
  | by_ => "BY".toList

/-- All keywords. -/
def all : List Keyword :=
  [base, prefixDecl, select, construct, describe, ask, insert, delete, data, whereClause,
   fromClause, named, withGraph, graph, optional, distinct, reduced, limit, offset, order, group,
   by_]

theorem mem_all (k : Keyword) : k ∈ all := by cases k <;> decide

/-- True if the text is this keyword in some letter case. -/
def spells (k : Keyword) (t : Text) : Bool := Text.sameLetters t k.name

/-- True of the characters that may directly follow a keyword in one token. -/
def isGlue (c : Char) : Bool := c == '<' || c == '\x7b' || c == '('

/-- True if the text is this keyword, alone or followed by one of the characters that may be
glued to it. -/
def leads (k : Keyword) (t : Text) : Bool :=
  Text.sameLetters (t.take k.name.length) k.name && (t.drop k.name.length).head?.all isGlue

/-- The keyword that a text spells. -/
def ofText? (t : Text) : Option Keyword := all.find? fun k => k.name == Text.upper t

end Keyword

end SparqlTree
