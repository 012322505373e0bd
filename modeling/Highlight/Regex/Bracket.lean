import Highlight.Regex.Escape

/-!
# Character classes

The written form of a set in brackets: single characters, ranges, classes that have names, nested classes, and the
operators `&&` (both), `--` (the first without the second) and `~~` (one but not both), which bind weaker than
juxtaposition and group to the left. A closing bracket that comes first is an ordinary character, and so are hyphens
that come first or last.
-/

namespace Highlight.Regex

/-- What letters, the point and the anchors mean. -/
structure Flags where
  ignoreCase : Bool := false
  /-- The point reads a newline too. -/
  dotAll : Bool := false
  /-- The anchors stand for the ends of lines. -/
  multiLine : Bool := false
  unicode : Bool := true

inductive SetOperator
  | inter
  | diff
  | symmDiff

def SetOperator.apply (a b : CharSet) : SetOperator → CharSet
  | inter => .inter a b
  | diff => .diff a b
  | symmDiff => .symmDiff a b

/-- A class that is being read. -/
structure Bracket where
  negated : Bool
  /-- The operand on the left of the operator that has been read last. -/
  left : Option (SetOperator × CharSet) := none
  /-- What the present operand consists of so far. -/
  items : List CharSet

namespace Bracket

/-- No character at all, the value of an operand without items. -/
def nothing : CharSet :=
  .compl .any

/-- The value of what has been read, the present operand included. -/
def value (ignoreCase : Bool) (b : Bracket) : CharSet :=
  let operand := match b.items.reverse with
    | [] => nothing
    | a :: more => .unionAll a more
  match b.left with
  | none => operand
  | some (op, a) => op.apply (a.caseClosed ignoreCase) (operand.caseClosed ignoreCase)

/-- The set that a finished class stands for. Case is closed before the complement is taken. -/
def close (ignoreCase : Bool) (b : Bracket) : CharSet :=
  let a := (b.value ignoreCase).caseClosed ignoreCase
  if b.negated then .compl a else a

def add (b : Bracket) (a : CharSet) : Bracket :=
  { b with items := a :: b.items }

/-- Goes on behind an operator. -/
def operator (ignoreCase : Bool) (op : SetOperator) (b : Bracket) : Bracket :=
  { b with left := some (op, b.value ignoreCase), items := [] }

/-- Begins a class behind its opening bracket. -/
def begin (cs : List Char) : Bracket × List Char :=
  let (negated, cs) := match cs with
    | '^' :: rest => (true, rest)
    | _ => (false, cs)
  let hyphens := cs.takeWhile (· = '-')
  let items := hyphens.map CharSet.single
  match hyphens, cs.dropWhile (· = '-') with
  | [], ']' :: rest => ({ negated, items := [.single ']'] }, rest)
  | _, rest => ({ negated, items }, rest)

/-- One character of a class, or a class that a letter names. -/
def item? (unicode : Bool) : List Char → Option (Escaped × List Char)
  | [] => none
  | '\\' :: rest => escape? unicode rest
  | c :: rest => some (.char c, rest)

/-- A character, a range of characters, or a class that a letter names, which is no end of a range. -/
def range? (unicode : Bool) (cs : List Char) : Option (CharSet × List Char) := do
  let (first, rest) ← item? unicode cs
  let alone ← match first with
    | .char c => some (.single c)
    | .chars a => some a
    | .look _ => none
  match rest with
  | [] => none
  | ['-'] => none
  | '-' :: d :: _ =>
    if d = ']' ∨ d = '-' then some (alone, rest)
    else
      match first, ← item? unicode rest.tail with
      | .char c, (.char d, rest) => if c ≤ d then some (.range c d, rest) else none
      | _, _ => none
  | _ => some (alone, rest)

/-- Reads the name of a class, such as `:alpha:]`, behind its opening bracket. With a circumflex before the name it
stands for the other characters. -/
def named? (ignoreCase : Bool) : List Char → Option (CharSet × List Char)
  | ':' :: cs =>
    let (negated, cs) := match cs with
      | '^' :: rest => (true, rest)
      | _ => (false, cs)
    match cs.dropWhile (· ≠ ':') with
    | ':' :: ']' :: rest =>
      (CharSet.named.lookup (String.ofList (cs.takeWhile (· ≠ ':')))).map fun a =>
        let a := a.caseClosed ignoreCase
        (if negated then .compl a else a, rest)
    | _ => none
  | _ => none

end Bracket

/-- Reads the rest of a class; `enclosing` are the classes around it, the nearest first. -/
def bracketRest? (flags : Flags) (b : Bracket) (enclosing : List Bracket) (cs : List Char) :
    Option (CharSet × List Char) :=
  match cs with
  | [] => none
  | '[' :: rest =>
    match Bracket.named? flags.ignoreCase rest with
    | some (a, left) =>
      if left.length ≤ rest.length then bracketRest? flags (b.add a) enclosing left else none
    | none =>
      let (inner, left) := Bracket.begin rest
      if left.length ≤ rest.length then bracketRest? flags inner (b :: enclosing) left else none
  | ']' :: rest =>
    match enclosing with
    | [] => some (b.close flags.ignoreCase, rest)
    | outer :: more => bracketRest? flags (outer.add (b.close flags.ignoreCase)) more rest
  | '&' :: '&' :: rest => bracketRest? flags (b.operator flags.ignoreCase .inter) enclosing rest
  | '-' :: '-' :: rest => bracketRest? flags (b.operator flags.ignoreCase .diff) enclosing rest
  | '~' :: '~' :: rest => bracketRest? flags (b.operator flags.ignoreCase .symmDiff) enclosing rest
  | c :: rest =>
    match Bracket.range? flags.unicode (c :: rest) with
    | none => none
    | some (a, left) =>
      if left.length ≤ rest.length then bracketRest? flags (b.add a) enclosing left else none
termination_by cs.length

/-- Reads a class behind its opening bracket. -/
def bracket? (flags : Flags) (cs : List Char) : Option (CharSet × List Char) :=
  let (b, left) := Bracket.begin cs
  bracketRest? flags b [] left

end Highlight.Regex
