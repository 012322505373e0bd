/-!
# Ranges of code points

A property of characters is given by the inclusive ranges of the code points that have it, in increasing order.
-/

namespace Highlight

/-- One of the ranges holds the code point; ranges that begin beyond it are not looked at. -/
def inRanges (n : Nat) : List (Nat × Nat) → Bool
  | [] => false
  | (first, last) :: more => first ≤ n && (n ≤ last || inRanges n more)

/-- The ranges are not empty, and each begins beyond the one before it. -/
def rangesOrdered (ranges : List (Nat × Nat)) : Bool :=
  ranges.all (fun r => r.1 ≤ r.2) && (ranges.zip ranges.tail).all (fun p => p.1.2 < p.2.1)

end Highlight
