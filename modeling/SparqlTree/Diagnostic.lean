import SparqlTree.Text.Basic
import SparqlTree.Span

/-!
# Diagnostics

A diagnostic says what is wrong with a text and where. Set against a source it becomes a report,
whose labels lie inside the source whatever the diagnostic claimed.
-/

namespace SparqlTree

/-- A stretch of text and what is said about it. -/
structure Label where
  span : Span
  message : Text
deriving DecidableEq

/-- What is wrong, where, and what might help. -/
structure Diagnostic where
  message : Text
  labels : List Label := []
  help : Option Text := none
  notes : List Text := []
  code : Option Text := none
deriving DecidableEq

namespace Diagnostic

/-- A diagnostic that has nothing but a message. -/
def error (message : Text) : Diagnostic := { message }

/-- Adds a label after the ones that are there. -/
def withLabel (d : Diagnostic) (span : Span) (message : Text) : Diagnostic :=
  { d with labels := d.labels ++ [⟨span, message⟩] }

/-- Sets the help text, in place of an earlier one. -/
def withHelp (d : Diagnostic) (help : Text) : Diagnostic := { d with help := some help }

/-- Adds a note after the ones that are there. -/
def withNote (d : Diagnostic) (note : Text) : Diagnostic := { d with notes := d.notes ++ [note] }

/-- Sets the code, in place of an earlier one. -/
def withCode (d : Diagnostic) (code : Text) : Diagnostic := { d with code := some code }

end Diagnostic

/-- The text that a diagnostic is about, and the name under which it is shown. -/
structure Source where
  content : Text
  name : Option Text := none
deriving DecidableEq

/-- Moves a span into the source. -/
def Source.clamp (s : Source) (span : Span) : Span := span.clamp (Text.byteLength s.content)

/-- How grave a report is. -/
inductive Severity where
  | error
  | advice
deriving DecidableEq, Repr

/-- The name by which a severity is shown. -/
def Severity.name : Severity → Text
  | error => "Error".toList
  | advice => "Advice".toList

/-- A label at its place in the source, given by byte offset and length. -/
structure PlacedLabel where
  message : Text
  offset : Nat
  length : Nat
deriving DecidableEq

/-- A side remark of a report. -/
structure Remark where
  severity : Severity
  message : Text
deriving DecidableEq

/-- What is handed over for display. -/
structure Report where
  message : Text
  severity : Option Severity
  code : Option Text
  help : Option Text
  labels : List PlacedLabel
  related : List Remark
deriving DecidableEq

namespace Report

/-- What is handed over of a list: nothing at all if the list is empty. -/
def handedOver {α : Type} : List α → Option (List α)
  | [] => none
  | xs => some xs

/-- The labels that are handed over. -/
def labels? (r : Report) : Option (List PlacedLabel) := handedOver r.labels

/-- The side remarks that are handed over. -/
def related? (r : Report) : Option (List Remark) := handedOver r.related

end Report

/-- Sets a label against a source. -/
def Source.placed (s : Source) (label : Label) : PlacedLabel :=
  let span := s.clamp label.span
  ⟨label.message, span.first, span.last - span.first⟩

/-- Sets a diagnostic against a source: its labels are moved into the source, and its notes become
advice beside the error. -/
def Diagnostic.report (d : Diagnostic) (source : Source) : Report where
  message := d.message
  severity := some .error
  code := d.code
  help := d.help
  labels := d.labels.map source.placed
  related := d.notes.map fun note => ⟨.advice, note⟩

end SparqlTree
