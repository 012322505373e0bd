import Highlight.Pattern.BlockComment
import Highlight.Regex.Match

/-!
# Patterns

A pattern finds the texts of one kind of token. It is a regular expression or the form of block comments. The match
of a look-behind pattern begins with context, which belongs to what stands before the token: in an expression
it ends with the first capture group, in a block comment it is one character that is no backslash. The text of a
greedy pattern is divided again.

A regular expression may find its match anywhere behind the position where the search begins, a block comment only
at that position. `find?` searches from a character boundary and `findFrom` from any byte.
-/

namespace Highlight

/-- A match: context from `start` to `contextEnd`, and the token from there to `stop`. -/
structure Match where
  start : Nat
  contextEnd : Nat
  stop : Nat
  deriving DecidableEq, Repr

inductive Matcher
  | regex (r : Regex)
  | blockComment
  deriving DecidableEq, Repr

structure Pattern where
  matcher : Matcher
  lookbehind : Bool := false
  greedy : Bool := false
  deriving DecidableEq, Repr

/-- The block comment whose context begins at a position. The start of the text is context enough. -/
def blockComment? (c : Cursor) : Option Match :=
  let atStart := if c.offset = 0 then c.blockEnd?.map (⟨c.offset, c.offset, ·⟩) else none
  atStart.or <|
    match c.next? with
    | none => none
    | some (a, d) => if a = '\\' then none else d.blockEnd?.map (⟨c.offset, d.offset, ·⟩)

namespace Pattern

/-- Searches for the pattern from a boundary on. -/
def find? (p : Pattern) (c : Cursor) : Option Match :=
  match p.matcher with
  | .regex r =>
    (r.search c).map fun (d, hit) =>
      ⟨d.offset, if p.lookbehind then hit.mark.getD d.offset else d.offset, hit.stop⟩
  | .blockComment => blockComment? c

/-- The match of the pattern may lie behind the position where the search begins. -/
def looksAhead (p : Pattern) : Bool :=
  match p.matcher with
  | .regex _ => true
  | .blockComment => false

end Pattern

/-- What a search from a byte position comes to. -/
inductive SearchResult
  /-- The position is too far beyond the text to search from. -/
  | refused
  | nothing
  | found (m : Match)
  deriving DecidableEq

namespace SearchResult

def ofOption : Option Match → SearchResult
  | none => nothing
  | some m => found m

end SearchResult

/-- Searches for the pattern from a byte position on. An expression is searched from the first boundary at or after
the position. One byte beyond the text nothing can be found, and no search begins farther off. A block
comment is found at a boundary of the text only. -/
def Pattern.findFrom (p : Pattern) (text : List Char) (position : Nat) : SearchResult :=
  match p.matcher with
  | .regex _ =>
    if position ≤ byteLength text then .ofOption (p.find? ((Cursor.ofText text).seek position))
    else if position = byteLength text + 1 then .nothing
    else .refused
  | .blockComment => .ofOption ((Cursor.at? text position).bind p.find?)

end Highlight
