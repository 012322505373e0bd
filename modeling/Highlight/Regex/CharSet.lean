/-!
# Sets of characters

What a single step of a regular expression may read: ranges and what is built from them. `fold` closes a set
under the case of the ASCII letters; two letters beyond ASCII are case variants of ASCII ones, the Kelvin
sign and the long s. A set without such letters is closed as it is.
-/

namespace Highlight

/-- The other characters that differ from an ASCII letter, or one of its variants, in case only. -/
def caseVariants (c : Char) : List Char :=
  if c = 'k' then ['K', '\u212a']
  else if c = 'K' then ['k', '\u212a']
  else if c = '\u212a' then ['k', 'K']
  else if c = 's' then ['S', '\u017f']
  else if c = 'S' then ['s', '\u017f']
  else if c = '\u017f' then ['s', 'S']
  else if c.isLower then [c.toUpper]
  else if c.isUpper then [c.toLower]
  else []

inductive CharSet
  | range (first last : Char)
  | union (a b : CharSet)
  | inter (a b : CharSet)
  | diff (a b : CharSet)
  | compl (a : CharSet)
  /-- The characters of a set and their case variants. -/
  | fold (a : CharSet)
  deriving DecidableEq, Repr

namespace CharSet

def mem : CharSet → Char → Bool
  | range first last, c => first ≤ c && c ≤ last
  | union a b, c => a.mem c || b.mem c
  | inter a b, c => a.mem c && b.mem c
  | diff a b, c => a.mem c && !b.mem c
  | compl a, c => !a.mem c
  | fold a, c => a.mem c || (caseVariants c).any a.mem

def single (c : Char) : CharSet :=
  range c c

/-- All characters. -/
def any : CharSet :=
  range '\x00' (Char.ofNat 0x10ffff)

/-- The union of a nonempty list of sets. -/
def unionAll (a : CharSet) (more : List CharSet) : CharSet :=
  more.foldl union a

/-- The characters whose code points lie in one of the ranges, which end with characters. -/
def ofRanges (ranges : List (Nat × Nat)) : CharSet :=
  match ranges.map fun r => range (Char.ofNat r.1) (Char.ofNat r.2) with
  | [] => compl any
  | a :: more => unionAll a more

/-- The ASCII letters and their variants. -/
def cased : List Char :=
  (List.range 26).flatMap (fun n => [Char.ofNat ('A'.toNat + n), Char.ofNat ('a'.toNat + n)]) ++
    ['\u017f', '\u212a']

/-- The set, closed under case where case is ignored. -/
def caseClosed (ignoreCase : Bool) (a : CharSet) : CharSet :=
  if ignoreCase && cased.any a.mem then fold a else a

/-- Both sets without what they share. -/
def symmDiff (a b : CharSet) : CharSet :=
  diff (union a b) (inter a b)

/-- The ASCII characters. -/
def ascii : CharSet :=
  range '\x00' '\x7f'

/-- Every character that the set is built from without the case of its letters is ASCII. -/
def isAscii : CharSet → Bool
  | range _ last => last.toNat < 0x80
  | union a b => a.isAscii && b.isAscii
  | inter a b => a.isAscii || b.isAscii
  | diff a _ => a.isAscii
  | compl _ => false
  | fold a => a.isAscii

/-- The ASCII letters, the ASCII digits and the underscore. -/
def word : CharSet :=
  unionAll (range '0' '9') [range 'A' 'Z', range 'a' 'z', single '_']

end CharSet

/-- An ASCII letter, a digit or the underscore. -/
def isWord (c : Char) : Bool :=
  CharSet.word.mem c

end Highlight
