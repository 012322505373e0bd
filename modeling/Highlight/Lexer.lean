import Highlight.Token.Basic

/-!
# Lexers

A text with a position in it and the tokens read so far, for whoever reads tokens by hand. The position is a number of
bytes and may come to lie outside the text or within a character, where nothing can be read; it can be moved on
from there.
-/

namespace Highlight

structure Lexer where
  source : List Char
  position : Nat
  /-- The tokens so far, newest first. -/
  tokens : List Token

namespace Lexer

/-- The start of a text. -/
def ofText (source : String) : Lexer :=
  ⟨source.toList, 0, []⟩

def advance (l : Lexer) (bytes : Nat) : Lexer :=
  { l with position := l.position + bytes }

/-- Adds a token; plain text that continues plain text is joined to it. -/
def push (l : Lexer) (t : Token) : Lexer :=
  { l with tokens := Token.push l.tokens t }

/-- The text behind the position, if the position is a boundary of the text. -/
def remainder? (l : Lexer) : Option (List Char) :=
  (Cursor.at? l.source l.position).map Cursor.rest

/-- The tokens in their order. -/
def finish (l : Lexer) : List Token :=
  l.tokens.reverse

end Lexer

end Highlight
