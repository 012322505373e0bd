import Highlight.Text.GraphemeExtend
import Highlight.Text.Unprintable

/-!
# Quoted text

A text in double quotes, in which every character can be told from its surroundings. A quote, a backslash and four
controls have escapes of their own; what cannot be printed, or would be drawn onto the character before it, is given by
its code point in hexadecimal digits; all else stands for itself.
-/

namespace Highlight

/-- The code point of a character in hexadecimal digits, as few as possible. -/
def codePointEscape (c : Char) : List Char :=
  '\\' :: 'u' :: '{' :: (Nat.toDigits 16 c.toNat ++ ['}'])

/-- How a character stands in quoted text. -/
def quotedChar (c : Char) : List Char :=
  if c = '"' then ['\\', '"']
  else if c = '\\' then ['\\', '\\']
  else if c = '\n' then ['\\', 'n']
  else if c = '\r' then ['\\', 'r']
  else if c = '\t' then ['\\', 't']
  else if c = '\x00' then ['\\', '0']
  else if extendsGrapheme c || isUnprintable c then codePointEscape c
  else [c]

def quotedChars (cs : List Char) : List Char :=
  '"' :: (cs.flatMap quotedChar ++ ['"'])

def quoted (text : String) : String :=
  String.ofList (quotedChars text.toList)

end Highlight
