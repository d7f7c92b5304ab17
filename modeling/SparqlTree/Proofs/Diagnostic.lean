import Mathlib.Data.List.Forall2
import SparqlTree.Diagnostic

/-!
# Reports

Whatever the labels of a diagnostic claim, their ends out of order or beyond the text, those of its
report lie in the source (`Diagnostic.report_within`). A label that lay there before is not moved.
-/

namespace SparqlTree

/-- A label of a diagnostic, and what the report of a source has in its place. -/
structure Source.Places (source : Source) (label : Label) (placed : PlacedLabel) : Prop where
  /-- It says the same. -/
  message : placed.message = label.message
  /-- It lies in the source. -/
  within : placed.offset + placed.length ≤ Text.byteLength source.content
  /-- It is at the span that was moved into the source. The ends of that are in order, so that its
  length is what the one is short of the other. -/
  ordered : (source.clamp label.span).first ≤ (source.clamp label.span).last
  offset : placed.offset = (source.clamp label.span).first
  stop : placed.offset + placed.length = (source.clamp label.span).last
  /-- It is handed over as it is if it lies in the source already. -/
  kept : label.span.first ≤ label.span.last →
    label.span.last ≤ Text.byteLength source.content →
    placed = ⟨label.message, label.span.first, label.span.length⟩

theorem Source.places_placed (source : Source) (label : Label) :
    source.Places label (source.placed label) := by
  have hordered := label.span.first_clamp_le_last (Text.byteLength source.content)
  have hstop : (source.placed label).offset + (source.placed label).length =
      (source.clamp label.span).last := Nat.add_sub_cancel' hordered
  constructor
  case message => rfl
  case within =>
    rw [hstop]
    exact label.span.last_clamp_le _
  case ordered => exact hordered
  case offset => rfl
  case stop => exact hstop
  case kept =>
    intro hfirst hlast
    rw [Source.placed, Source.clamp, Span.clamp_of_le hfirst hlast]
    rfl

namespace Report

variable {α : Type}

theorem getD_handedOver (xs : List α) : (handedOver xs).getD [] = xs := by
  cases xs with
  | nil => rfl
  | cons x xs => rfl

/-- Nothing is handed over of an empty list, and all of any other one. -/
theorem handedOver_eq_some {xs ys : List α} : handedOver xs = some ys ↔ xs ≠ [] ∧ xs = ys := by
  cases xs with
  | nil => simp [handedOver]
  | cons x xs => simp [handedOver]

theorem handedOver_eq_none {xs : List α} : handedOver xs = none ↔ xs = [] := by
  cases xs with
  | nil => simp [handedOver]
  | cons x xs => simp [handedOver]

end Report

/-- The labels of a report are those of the diagnostic, one by one, each moved into the source;
moving a span once more does not change it, and spans that are further on stay further on. The notes
are handed over as advice in their order, and not at all if there are none. -/
theorem Diagnostic.report_within (d : Diagnostic) (source : Source) :
    List.Forall₂ source.Places d.labels ((d.report source).labels?.getD []) ∧
      (∀ span, source.clamp (source.clamp span) = source.clamp span) ∧
      (∀ s t : Span, s.first ≤ t.first → s.last ≤ t.last →
        (source.clamp s).first ≤ (source.clamp t).first ∧
          (source.clamp s).last ≤ (source.clamp t).last) ∧
      ((d.report source).related? = none ↔ d.notes = []) ∧
      ∀ remarks, (d.report source).related? = some remarks ↔
        d.notes ≠ [] ∧ remarks = d.notes.map fun note => ⟨.advice, note⟩ := by
  refine ⟨?_, fun span => span.clamp_clamp _, fun s t hfirst hlast => ?_, ?_, fun remarks => ?_⟩
  · rw [Report.labels?, Report.getD_handedOver, Diagnostic.report, List.forall₂_map_right_iff,
      List.forall₂_same]
    exact fun label _ => source.places_placed label
  · exact ⟨Span.first_clamp_mono hfirst, Span.last_clamp_mono hfirst hlast⟩
  · rw [Report.related?, Report.handedOver_eq_none, Diagnostic.report, List.map_eq_nil_iff]
  · rw [Report.related?, Report.handedOver_eq_some, Diagnostic.report, ne_eq, List.map_eq_nil_iff,
      @eq_comm _ remarks]

/-- A label whose ends are out of order and one beyond the text become empty labels in it. -/
theorem Diagnostic.report_within_outside :
    let source : Source := { content := "ASK \x7b".toList }
    let d := (((Diagnostic.error []).withLabel ⟨3, 2⟩ ['a']).withLabel ⟨8, 9⟩ ['b']).withNote ['n']
    List.Forall₂ source.Places d.labels ((d.report source).labels?.getD []) ∧
      (d.report source).labels? = some [⟨['a'], 3, 0⟩, ⟨['b'], 5, 0⟩] ∧
      (source.clamp ⟨3, 2⟩).last ≤ (source.clamp ⟨8, 9⟩).last ∧
      (d.report source).related? = some [⟨.advice, ['n']⟩] := by
  intro source d
  obtain ⟨hplaced, -, hmono, -, hrelated⟩ := report_within d source
  refine ⟨hplaced, by decide, ?_, ?_⟩
  · exact (hmono ⟨3, 2⟩ ⟨8, 9⟩ (by decide) (by decide)).2
  · exact (hrelated _).2 ⟨by decide, rfl⟩

end SparqlTree
