import Highlight.Token.Basic

/-!
# JSON

The values that tokens are written as, and their text: two spaces for each level of nesting, one member or element on a
line, and empty arrays and objects in brackets with nothing between. In a string only quotes, backslashes and the
controls below the space are escaped.
-/

namespace Highlight

inductive Json
  | number (n : Nat)
  | string (text : String)
  | array (elements : List Json)
  /-- The members in the order in which they are written. -/
  | object (members : List (String × Json))

namespace Json

/-- The digit of a number below sixteen. -/
def hexDigit (n : Nat) : Char :=
  Nat.digitChar n

/-- How a character stands in a string. -/
def stringChar (c : Char) : List Char :=
  if c = '"' then ['\\', '"']
  else if c = '\\' then ['\\', '\\']
  else if c = '\n' then ['\\', 'n']
  else if c = '\r' then ['\\', 'r']
  else if c = '\t' then ['\\', 't']
  else if c = '\x08' then ['\\', 'b']
  else if c = '\x0c' then ['\\', 'f']
  else if c.toNat < 0x20 then
    ['\\', 'u', '0', '0', hexDigit (c.toNat / 16), hexDigit (c.toNat % 16)]
  else [c]

def stringText (text : String) : List Char :=
  '"' :: (text.toList.flatMap stringChar ++ ['"'])

/-- A line break before an item at a depth of nesting. -/
def newLine (depth : Nat) : List Char :=
  '\n' :: List.replicate (2 * depth) ' '

/-- Items, each on a line of its own, between a pair of brackets. -/
def block (opening closing : Char) (depth : Nat) (items : List (List Char)) : List Char :=
  match items with
  | [] => [opening, closing]
  | item :: more =>
    opening :: (newLine (depth + 1) ++ item
      ++ more.flatMap (fun item => ',' :: (newLine (depth + 1) ++ item))
      ++ newLine depth ++ [closing])

mutual

/-- The text of a value at a depth of nesting. -/
def write (depth : Nat) : Json → List Char
  | number n => Nat.toDigits 10 n
  | string text => stringText text
  | array elements => block '[' ']' depth (writeElements (depth + 1) elements)
  | object members => block '\x7b' '\x7d' depth (writeMembers (depth + 1) members)

def writeElements (depth : Nat) : List Json → List (List Char)
  | [] => []
  | v :: vs => write depth v :: writeElements depth vs

def writeMembers (depth : Nat) : List (String × Json) → List (List Char)
  | [] => []
  | (name, v) :: more =>
    (stringText name ++ ':' :: ' ' :: write depth v) :: writeMembers depth more

end

/-- The text of a value. -/
def text (v : Json) : String :=
  String.ofList (write 0 v)

end Json

namespace Span

def toJson (s : Span) : Json :=
  .object [("start", .number s.start), ("end", .number s.stop)]

end Span

namespace Token

mutual

/-- A token as an object. It has a member for the label only if there is one, and for the children if there are
any. -/
def toJson : Token → Json
  | ⟨kind, label, value, span, children⟩ =>
    .object
      ([("kind", .string kind.name)] ++ (label.map fun text => ("alias", Json.string text)).toList
        ++ [("value", .string value), ("span", span.toJson)]
        ++ if children.isEmpty then [] else [("children", .array (toJsonList children))])

def toJsonList : List Token → List Json
  | [] => []
  | t :: ts => toJson t :: toJsonList ts

end

end Token

end Highlight
