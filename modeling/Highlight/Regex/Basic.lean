import Highlight.Regex.CharSet

/-!
# Regular expressions

The expressions that patterns are made of. They are read with preferences: `alt` prefers its left side, and a
greedy repetition prefers to go on. Where several ways of matching begin at one place, the most preferred
one is the match, whatever its length.

Loops come in two forms over one body. `star r` is met behind a pass of `r`: leave, or make another pass. `plus r`
is met from outside, where the first pass is still to come. For an `r` that always reads, `star r` is all of `r*`. For a
nullable `r` it is not, since a first pass that reads nothing is a way on and a later one is none; there
`r*` is a `plus r` that may be left out. `repeated` chooses the form.
-/

namespace Highlight

/-- What may be demanded of a position without reading. -/
inductive Assertion
  | textStart
  | textEnd
  /-- The text begins there, or a newline stands before. -/
  | lineStart
  /-- The text ends there, or a newline stands behind. -/
  | lineEnd
  /-- Exactly one of the two neighbours is a character of words. -/
  | wordBoundary (word : CharSet)
  | notWordBoundary (word : CharSet)
  deriving DecidableEq, Repr

inductive Regex
  | empty
  | set (chars : CharSet)
  | look (a : Assertion)
  | cat (r s : Regex)
  | alt (r s : Regex)
  | star (r : Regex) (greedy : Bool)
  | plus (r : Regex) (greedy : Bool)
  /-- Exactly `n` passes. -/
  | times (r : Regex) (n : Nat)
  /-- At most `n` passes. -/
  | upTo (r : Regex) (n : Nat) (greedy : Bool)
  /-- A capture group; groups are numbered from one by their opening. -/
  | group (index : Nat) (r : Regex)
  deriving DecidableEq, Repr

namespace Regex

/-- The expression can match without reading a character. -/
def nullable : Regex → Bool
  | empty => true
  | set _ => false
  | look _ => true
  | cat r s => r.nullable && s.nullable
  | alt r s => r.nullable || s.nullable
  | star _ _ => true
  | plus r _ => r.nullable
  | times r n => n == 0 || r.nullable
  | upTo _ _ _ => true
  | group _ r => r.nullable

/-- The expression never reads a character. -/
def readsNothing : Regex → Bool
  | empty => true
  | set _ => false
  | look _ => true
  | cat r s => r.readsNothing && s.readsNothing
  | alt r s => r.readsNothing && s.readsNothing
  | star r _ => r.readsNothing
  | plus r _ => r.readsNothing
  | times r n => n == 0 || r.readsNothing
  | upTo r n _ => n == 0 || r.readsNothing
  | group _ r => r.readsNothing

/-- The expression has a capture group. -/
def hasGroup : Regex → Bool
  | empty => false
  | set _ => false
  | look _ => false
  | cat r s => r.hasGroup || s.hasGroup
  | alt r s => r.hasGroup || s.hasGroup
  | star r _ => r.hasGroup
  | plus r _ => r.hasGroup
  | times r _ => r.hasGroup
  | upTo r _ _ => r.hasGroup
  | group _ _ => true

def char (c : Char) : Regex :=
  set (CharSet.single c)

/-- The expressions one after another. -/
def seq : List Regex → Regex
  | [] => empty
  | [r] => r
  | r :: rs => cat r (seq rs)

/-- The given characters, one after another. -/
def literal (text : String) : Regex :=
  seq (text.toList.map char)

/-- The first of the expressions that leads to a match; at least one is given. -/
def oneOf (r : Regex) : List Regex → Regex
  | [] => r
  | s :: more => alt r (oneOf s more)

/-- Exactly `n` passes, where one is no repetition. -/
def exactly (r : Regex) (n : Nat) : Regex :=
  if n = 1 then r else times r n

/-- At least `m` passes. -/
def atLeast (r : Regex) (m : Nat) (greedy : Bool) : Regex :=
  match m with
  | 0 => if r.nullable then upTo (plus r greedy) 1 greedy else star r greedy
  | 1 => plus r greedy
  | m + 2 => cat (exactly r (m + 1)) (plus r greedy)

/-- At least `m` and at most `n` passes. -/
def between (r : Regex) (m n : Nat) (greedy : Bool) : Regex :=
  if n = 0 then empty
  else if n ≤ m then exactly r m
  else if m = 0 then upTo r n greedy
  else cat (exactly r m) (upTo r (n - m) greedy)

/-- From `m` passes to `n`, or without an upper bound. What reads nothing is passed once at most. -/
def repeated (r : Regex) (m : Nat) (n : Option Nat) (greedy : Bool) : Regex :=
  if r.readsNothing then between r (min m 1) (min (n.getD 1) 1) greedy
  else match n with
    | none => atLeast r m greedy
    | some n => between r m n greedy

/-- `r*` -/
def zeroOrMore (r : Regex) (greedy : Bool) : Regex :=
  repeated r 0 none greedy

/-- `r+` -/
def oneOrMore (r : Regex) (greedy : Bool) : Regex :=
  repeated r 1 none greedy

/-- `r?` -/
def optional (r : Regex) (greedy : Bool) : Regex :=
  repeated r 0 (some 1) greedy

end Regex

end Highlight
