import CodeLift.Text.Extending
import CodeLift.Text.Glyphless

/-!
# Characters that a quoted text need not escape

A character stands for itself in a quoted text if it shows there as a character of its own: it has a glyph, and it does not
merge with the character before it.
-/

namespace CodeLift.Text

/-- Whether a code point lies in one of the ranges. -/
def inRanges (ranges : List (Nat × Nat)) (code : Nat) : Bool :=
  ranges.any fun (first, last) => first ≤ code && code ≤ last

/-- Whether a character stands for itself in a quoted text. -/
def isPlain (c : Char) : Bool :=
  !inRanges glyphless c.toNat && !inRanges extending c.toNat

end CodeLift.Text
