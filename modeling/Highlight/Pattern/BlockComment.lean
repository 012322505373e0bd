import Highlight.Text.Cursor

/-!
# Block comments

A block comment is `#= … =#`. One level of blocks may stand inside it; a block inside an inner block makes it no
comment at all. The openings and closings have to match, which no regular expression can tell, so this form is
recognised by hand.
-/

namespace Highlight

/-- Bytes up to the end of a block whose opening has been read. `inner` tells that a second block is open. -/
def blockRest? (inner : Bool) : List Char → Option Nat
  | [] => none
  | '=' :: '#' :: cs => if inner then (blockRest? false cs).map (2 + ·) else some 2
  | '#' :: '=' :: cs => if inner then none else (blockRest? true cs).map (2 + ·)
  | c :: cs => (blockRest? inner cs).map (c.utf8Size + ·)

/-- Bytes of the block that the text begins with. -/
def block? : List Char → Option Nat
  | '#' :: '=' :: cs => (blockRest? false cs).map (2 + ·)
  | _ => none

/-- Where the block ends that begins at a position. -/
def Cursor.blockEnd? (c : Cursor) : Option Nat :=
  (block? c.rest).map (c.offset + ·)

end Highlight
