import Highlight.Text.Ranges

/-!
# Blank characters

The characters with the Unicode property White_Space. A text is blank if all its characters are.
-/

namespace Highlight

/-- The code points of the characters with the property White_Space. -/
def blanks : List (Nat × Nat) := [
  (0x09, 0x0d), (0x20, 0x20), (0x85, 0x85), (0xa0, 0xa0), (0x1680, 0x1680), (0x2000, 0x200a),
  (0x2028, 0x2029), (0x202f, 0x202f), (0x205f, 0x205f), (0x3000, 0x3000)]

def isBlank (c : Char) : Bool :=
  inRanges c.toNat blanks

/-- A text of blank characters only, such as the empty one. -/
def isBlankText (cs : List Char) : Bool :=
  cs.all isBlank

end Highlight
