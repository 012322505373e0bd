import Highlight.Regex.Basic
import Highlight.Regex.Classes

/-!
# Escapes

What a backslash in the written form of an expression stands for. Signs stand for themselves, a few letters for
control characters, and a character can be given by its code point in hexadecimal digits. `\A` and `\z` are the
ends of the text, `\b` and `\B` the edges of words and all other positions, and some letters name a class. What a
word is and which characters belong to a class is told by Unicode rules, unless they have been switched off.
-/

namespace Highlight.Regex

/-- What an escape stands for. -/
inductive Escaped
  | char (c : Char)
  | look (a : Assertion)
  | chars (a : CharSet)

/-- Value of a hexadecimal digit. -/
def hexDigit? (c : Char) : Option Nat :=
  if '0' ≤ c ∧ c ≤ '9' then some (c.toNat - '0'.toNat)
  else if 'a' ≤ c ∧ c ≤ 'f' then some (c.toNat - 'a'.toNat + 10)
  else if 'A' ≤ c ∧ c ≤ 'F' then some (c.toNat - 'A'.toNat + 10)
  else none

/-- Value of hexadecimal digits, of which there is at least one. -/
def hexNumber? (digits : List Char) : Option Nat :=
  if digits.isEmpty then none
  else digits.foldlM (fun n c => (hexDigit? c).map (16 * n + ·)) 0

/-- The character with a code point. -/
def charAt? (n : Nat) : Option Char :=
  if h : n.isValidChar then some (Char.ofNatAux n h) else none

/-- A code point in braces, or else in exactly `count` digits. -/
def codePoint? (count : Nat) : List Char → Option (Char × List Char)
  | '{' :: cs =>
    match cs.dropWhile (· ≠ '}') with
    | '}' :: rest => do
      let c ← charAt? (← hexNumber? (cs.takeWhile (· ≠ '}')))
      return (c, rest)
    | _ => none
  | cs =>
    if (cs.take count).length = count then do
      let c ← charAt? (← hexNumber? (cs.take count))
      return (c, cs.drop count)
    else none

/-- An ASCII character that is neither a letter nor a digit stands for itself behind a backslash. The angle
brackets have no such form. -/
def isEscapable (c : Char) : Bool :=
  c.toNat < 0x80 && !c.isAlphanum && c ≠ '<' && c ≠ '>'

/-- Reads what follows a backslash. -/
def escape? (unicode : Bool) : List Char → Option (Escaped × List Char)
  | [] => none
  | c :: rest =>
    match c with
    | 'a' => some (.char '\x07', rest)
    | 't' => some (.char '\t', rest)
    | 'n' => some (.char '\n', rest)
    | 'v' => some (.char '\x0b', rest)
    | 'f' => some (.char '\x0c', rest)
    | 'r' => some (.char '\r', rest)
    | 'x' => (codePoint? 2 rest).map fun (d, rest) => (.char d, rest)
    | 'u' => (codePoint? 4 rest).map fun (d, rest) => (.char d, rest)
    | 'U' => (codePoint? 8 rest).map fun (d, rest) => (.char d, rest)
    | 'A' => some (.look .textStart, rest)
    | 'z' => some (.look .textEnd, rest)
    | 'b' => some (.look (.wordBoundary (.words unicode)), rest)
    | 'B' => some (.look (.notWordBoundary (.words unicode)), rest)
    | _ =>
      if isEscapable c then some (.char c, rest)
      else (CharSet.ofLetter? unicode c).map fun a => (.chars a, rest)

end Highlight.Regex
