import SparqlTree.Text.Basic
import SparqlTree.Text.CharRange

/-!
# Blanks

The characters of the Unicode property White_Space, and the two operations that look for them:
trimming a text at its ends and dividing it into words.
-/

namespace SparqlTree

/-- The code points of the property White_Space. -/
def blankRanges : List CharRange :=
  [⟨0x9, 0xD⟩, ⟨0x20, 0x20⟩, ⟨0x85, 0x85⟩, ⟨0xA0, 0xA0⟩, ⟨0x1680, 0x1680⟩, ⟨0x2000, 0x200A⟩,
   ⟨0x2028, 0x2029⟩, ⟨0x202F, 0x202F⟩, ⟨0x205F, 0x205F⟩, ⟨0x3000, 0x3000⟩]

/-- True of white space characters. -/
def isBlank (c : Char) : Bool := CharRange.covers blankRanges c

namespace Text

/-- Drops the blanks at the start. -/
def trimStart (t : Text) : Text := t.dropWhile isBlank

/-- Drops the blanks at the end. -/
def trimEnd (t : Text) : Text := (t.reverse.dropWhile isBlank).reverse

/-- Drops the blanks at both ends. -/
def trim (t : Text) : Text := trimEnd (trimStart t)

/-- The maximal runs of characters that are not blank, in order. -/
def words : Text → List Text
  | [] => []
  | c :: t =>
    if isBlank c then words t
    else (c :: t.takeWhile (!isBlank ·)) :: words (t.dropWhile (!isBlank ·))
termination_by t => t.length
decreasing_by
  · simp
  · have := (List.dropWhile_sublist (!isBlank ·) (l := t)).length_le
    simp; omega

end Text

end SparqlTree
