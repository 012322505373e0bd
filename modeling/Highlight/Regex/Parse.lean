import Highlight.Regex.Bracket
import Highlight.Regex.Size
import Highlight.Text.Blank

/-!
# Reading expressions

`Regex.parse?` reads the written form of an expression. It goes through the text once, with the groups that are
open so far; a character adds to the present branch, begins a new branch, or opens or closes a group. A text
that is no expression has no value: an unclosed or unopened group or class, a repetition of nothing, bounds in
the wrong order, an unknown escape or flag, and whatever would need to look around or back. Nor has an expression that is
nested too deeply or takes too much space. Classes by Unicode property, special word boundaries and the flags for
blanks, greed and carriage returns are not read.
-/

namespace Highlight.Regex

/-- A part of a branch: an expression, which can be repeated, or a change of flags, which cannot. With an expression
comes how deeply its written form is nested. -/
inductive Item
  | atom (r : Regex) (depth : Nat)
  | directive

namespace Item

def regex? : Item → Option Regex
  | atom r _ => some r
  | directive => none

def depth : Item → Nat
  | atom _ depth => depth
  | directive => 0

end Item

/-- One of the alternatives of a group, as it has been read. -/
structure Branch where
  regex : Regex
  depth : Nat

/-- A group whose end has not been read. Branches and items are kept newest first. -/
structure Open where
  /-- The number of a capture group. -/
  index : Option Nat
  flags : Flags
  branches : List Branch := []
  items : List Item := []

namespace Open

def add (o : Open) (r : Regex) (depth : Nat) : Open :=
  { o with items := .atom r depth :: o.items }

/-- The branch that is being read. Several items are nested in it. -/
def branch (o : Open) : Branch where
  regex := seq (o.items.reverse.filterMap Item.regex?)
  depth := o.items.foldl (fun d item => max d item.depth) 0 + if o.items.length < 2 then 0 else 1

/-- Begins the next branch. -/
def nextBranch (o : Open) : Open :=
  { o with branches := o.branch :: o.branches, items := [] }

/-- The alternatives that have been read. -/
def body (o : Open) : Regex :=
  match (o.branch :: o.branches).reverse with
  | [] => empty
  | b :: more => oneOf b.regex (more.map Branch.regex)

/-- How deeply the alternatives are nested. -/
def depth (o : Open) : Nat :=
  (o.branch :: o.branches).foldl (fun d b => max d b.depth) 0 + if o.branches.isEmpty then 0 else 1

def regex (o : Open) : Regex :=
  match o.index with
  | some index => group index o.body
  | none => o.body

end Open

/-- What has been read so far. -/
structure Progress where
  /-- The innermost open group; the whole expression counts as one. -/
  inner : Open
  enclosing : List Open := []
  /-- The number of capture groups. -/
  groups : Nat := 0
  names : List (List Char) := []

namespace Progress

def add (p : Progress) (r : Regex) (depth : Nat) : Progress :=
  { p with inner := p.inner.add r depth }

def openGroup (p : Progress) (index : Option Nat) (flags : Flags) : Progress :=
  { p with inner := { index, flags }, enclosing := p.inner :: p.enclosing }

def openCapture (p : Progress) : Progress :=
  { p.openGroup (some (p.groups + 1)) p.inner.flags with groups := p.groups + 1 }

def closeGroup? (p : Progress) : Option Progress :=
  match p.enclosing with
  | [] => none
  | outer :: more =>
    some { p with inner := outer.add p.inner.regex (p.inner.depth + 1), enclosing := more }

/-- Repeats what has been read last; a question mark behind a repetition makes it lazy. -/
def repeat? (p : Progress) (m : Nat) (n : Option Nat) (rest : List Char) :
    Option (Progress × List Char) :=
  match p.inner.items with
  | .atom r depth :: items =>
    let (greedy, rest) := match rest with
      | '?' :: rest => (false, rest)
      | _ => (true, rest)
    let item := .atom (r.repeated m n greedy) (depth + 1)
    some ({ p with inner := { p.inner with items := item :: items } }, rest)
  | _ => none

end Progress

/-- A decimal number, which blanks may surround. -/
def count? (cs : List Char) : Option (Nat × List Char) :=
  let cs := cs.dropWhile isBlank
  let digits := cs.takeWhile Char.isDigit
  let n := digits.foldl (fun n c => 10 * n + (c.toNat - '0'.toNat)) 0
  if digits.isEmpty || UInt32.size ≤ n then none
  else some (n, (cs.dropWhile Char.isDigit).dropWhile isBlank)

/-- The bounds of a repetition behind its opening brace; there may be no upper one. -/
def bounds? (cs : List Char) : Option ((Nat × Option Nat) × List Char) := do
  let (m, rest) ← count? cs
  match rest with
  | '}' :: rest => return ((m, some m), rest)
  | ',' :: rest =>
    match rest.dropWhile isBlank with
    | '}' :: rest => return ((m, none), rest)
    | rest =>
      match ← count? rest with
      | (n, '}' :: rest) => if m ≤ n then return ((m, some n), rest) else none
      | _ => none
  | _ => none

/-- The flags that are switched on and off, up to a colon or a closing parenthesis; a flag is named once at most. -/
def flags? (old : Flags) (seen : List Char) : List Char → Option (Flags × Bool × List Char)
  | [] => none
  | c :: rest =>
    if c = ':' ∨ c = ')' then
      if seen.head? = some '-' ∨ (c = ')' ∧ seen = []) then none else some (old, c = ')', rest)
    else if c ∈ seen then none
    else
      let on := '-' ∉ seen
      match c with
      | '-' => flags? old (c :: seen) rest
      | 'i' => flags? { old with ignoreCase := on } (c :: seen) rest
      | 's' => flags? { old with dotAll := on } (c :: seen) rest
      | 'm' => flags? { old with multiLine := on } (c :: seen) rest
      | 'u' => flags? { old with unicode := on } (c :: seen) rest
      | _ => none

/-- A name begins with a letter or an underscore; digits, points and brackets may follow. Characters beyond ASCII
count as letters. -/
def isGroupName (name : List Char) : Bool :=
  let letter (c : Char) := c.isAlpha || c = '_' || 0x80 ≤ c.toNat
  match name with
  | [] => false
  | c :: cs => letter c && cs.all fun d => letter d || d.isDigit || d = '.' || d = '[' || d = ']'

/-- The name of a capture group, up to its closing angle bracket. -/
def groupName? (p : Progress) (cs : List Char) : Option (Progress × List Char) :=
  let name := cs.takeWhile (· ≠ '>')
  match cs.dropWhile (· ≠ '>') with
  | [] => none
  | _ :: rest =>
    if isGroupName name && !p.names.contains name then
      some ({ p.openCapture with names := name :: p.names }, rest)
    else none

/-- Reads on behind an opening parenthesis. -/
def opening? (p : Progress) : List Char → Option (Progress × List Char)
  | '?' :: '<' :: '=' :: _ => none
  | '?' :: '<' :: '!' :: _ => none
  | '?' :: 'P' :: '<' :: rest => groupName? p rest
  | '?' :: '<' :: rest => groupName? p rest
  | '?' :: rest => do
    let (flags, directive, rest) ← flags? p.inner.flags [] rest
    if directive then
      return ({ p with inner := { p.inner with flags, items := .directive :: p.inner.items } }, rest)
    return (p.openGroup none flags, rest)
  | rest => some (p.openCapture, rest)

/-- The expression of one character. -/
def charIn (flags : Flags) (c : Char) : Regex :=
  let a := (CharSet.single c).caseClosed flags.ignoreCase
  set (if flags.ignoreCase && !flags.unicode then .inter a .ascii else a)

/-- The expression of a class. Without Unicode rules it may hold ASCII characters only. -/
def charsIn? (flags : Flags) (a : CharSet) : Option Regex :=
  if flags.unicode then some (set a)
  else if a.isAscii then some (set (.inter a .ascii))
  else none

/-- Reads one element of an expression, which begins with the character `c`. -/
def element? (p : Progress) (c : Char) (rest : List Char) : Option (Progress × List Char) :=
  let flags := p.inner.flags
  match c with
  | '|' => some ({ p with inner := p.inner.nextBranch }, rest)
  | '(' => opening? p rest
  | ')' => p.closeGroup?.map (·, rest)
  | '[' => (bracket? flags rest).bind fun (a, rest) => (charsIn? flags a).map fun r => (p.add r 1, rest)
  | '.' =>
    if flags.unicode then
      some (p.add (set (if flags.dotAll then .any else .compl (.single '\n'))) 0, rest)
    else none
  | '^' => some (p.add (look (if flags.multiLine then .lineStart else .textStart)) 0, rest)
  | '$' => some (p.add (look (if flags.multiLine then .lineEnd else .textEnd)) 0, rest)
  | '\\' => (escape? flags.unicode rest).bind fun
    | (.char d, rest) => some (p.add (charIn flags d) 0, rest)
    | (.look a, rest) => some (p.add (look a) 0, rest)
    | (.chars a, rest) => (charsIn? flags a).map fun r => (p.add r 0, rest)
  | '*' => p.repeat? 0 none rest
  | '+' => p.repeat? 1 none rest
  | '?' => p.repeat? 0 (some 1) rest
  | '{' => (bounds? rest).bind fun ((m, n), rest) => p.repeat? m n rest
  | _ => some (p.add (charIn flags c) 0, rest)

/-- How deeply an expression may be nested. Groups, repetitions, classes, sequences and alternatives count. -/
def depthLimit : Nat := 250

/-- Reads the rest of an expression. Each element takes at least the character it begins with. -/
def parseRest? (p : Progress) : List Char → Option Regex
  | [] =>
    if p.enclosing.isEmpty && p.inner.depth ≤ depthLimit && p.inner.regex.fits then some p.inner.regex
    else none
  | c :: rest =>
    match element? p c rest with
    | none => none
    | some (q, left) => if left.length ≤ rest.length then parseRest? q left else none
termination_by cs => cs.length

/-- Reads the written form of an expression. -/
def parse? (text : String) : Option Regex :=
  parseRest? { inner := { index := none, flags := {} } } text.toList

end Highlight.Regex
