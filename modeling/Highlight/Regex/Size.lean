import Highlight.Regex.Basic

/-!
# The size of an expression

Counted repetitions make short texts stand for huge expressions. `Regex.size` is the number of bytes that an
expression takes as an automaton, with all repetitions written out: each state takes 32 bytes, and a state with several
ways on takes 4 more for each way, or 8 where a range of characters belongs to it. An expression is in use only
if it `fits` into ten mebibytes.
-/

namespace Highlight

namespace CharSet

/-- The ASCII characters of the set. -/
def asciiMembers (a : CharSet) : List Char :=
  ((List.range 128).map Char.ofNat).filter a.mem

/-- The number of ranges that the ASCII characters of the set form. -/
def asciiRanges (a : CharSet) : Nat :=
  (a.asciiMembers.filter fun c => c = '\x00' || !a.mem (Char.ofNat (c.toNat - 1))).length

/-- No character of the set lies beyond ASCII. -/
def staysInAscii (a : CharSet) : Bool :=
  a.isAscii && !a.mem '\u017f' && !a.mem '\u212a'

/-- The number of ranges beyond ASCII that the set is built from. -/
def wideRanges : CharSet → Nat
  | range _ last => if last.toNat < 0x80 then 0 else 1
  | union a b | inter a b | diff a b => a.wideRanges + b.wideRanges
  | compl a => a.wideRanges + 1
  | fold a => a.wideRanges

/-- A single character takes a state for each of its bytes. A set that goes beyond ASCII takes about thirty
states, for characters of each length, and two more for each further range. -/
def size (a : CharSet) : Nat :=
  let several := if a.staysInAscii then
    if a.asciiMembers.length = 1 then 32 else 64 + 8 * a.asciiRanges
  else 1000 + 64 * (a.wideRanges - 1)
  match a with
  | range c d => if c = d then 32 * c.utf8Size else several
  | _ => several

end CharSet

namespace Regex

/-- The bytes of the two states at the ends of a choice, which a choice inside a choice does not have, and of
the way on to it. -/
def sharedEnds : Regex → Nat
  | alt _ _ => 68
  | _ => 0

def size : Regex → Nat
  | empty => 32
  | set a => a.size
  | look _ => 32
  | cat r s => r.size + s.size
  | alt r s => 72 + r.size + s.size - (r.sharedEnds + s.sharedEnds)
  | star r _ => 40 + r.size
  | plus r _ => 40 + r.size
  | times r n => n * r.size
  | upTo r n _ => (if n = 1 then 32 else 64) + n * (40 + r.size)
  | group _ r => 64 + r.size

/-- The largest number of bytes, of which 208 are taken by what surrounds the expression. -/
def sizeLimit : Nat :=
  10 * (1 <<< 20)

/-- The expression is small enough to be used. -/
def fits (r : Regex) : Bool :=
  208 + r.size ≤ sizeLimit

end Regex

end Highlight
