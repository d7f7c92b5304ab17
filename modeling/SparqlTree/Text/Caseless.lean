import SparqlTree.Text.Basic

/-!
# Letter case

Comparison of texts up to the case of the letters A to Z. All other characters count as written.
-/

namespace SparqlTree.Text

/-- The text with the letters a to z capitalised. -/
def upper (t : Text) : Text := t.map Char.toUpper

/-- True if the texts differ at most in the case of the letters A to Z. -/
def sameLetters (s t : Text) : Bool := upper s == upper t

@[simp] theorem upper_length (t : Text) : (upper t).length = t.length := by simp [upper]

theorem sameLetters_iff {s t : Text} : sameLetters s t = true ↔ upper s = upper t := by
  simp [sameLetters]

theorem length_eq_of_sameLetters {s t : Text} (h : sameLetters s t = true) :
    s.length = t.length := by
  rw [← upper_length s, sameLetters_iff.1 h, upper_length]

end SparqlTree.Text
