import Highlight.Pattern.Basic
import Highlight.Regex.Classes

/-!
# The patterns of moonli

Moonli is a Lisp with the literals of Julia. Comments, strings, characters and numbers are Julia's; the keywords are the
defining and controlling forms of Common Lisp.

Words are ASCII words throughout: a letter such as é parts two words as punctuation does. Each expression
below stands with its written form.
-/

namespace Highlight.Moonli

open Regex

/-- One of the given characters. -/
def among (c : Char) (more : List Char) : CharSet :=
  .unionAll (.single c) (more.map .single)

def digit : CharSet := .range '0' '9'

/-- What may stand in a comment: all but the four line terminators. -/
def inLine : CharSet :=
  .compl (among '\n' ['\r', '\u2028', '\u2029'])

def wordEdge : Regex := look (.wordBoundary .word)

/-- A hash sign that no backslash precedes, to the end of the line: `(^|[^\\])#[^\n\r\u2028\u2029]*` -/
def lineComment : Regex :=
  seq [group 1 (alt (look .textStart) (set (.compl (.single '\\')))), char '#',
    zeroOrMore (set inLine) true]

/-- A backslash with the character behind it: `\\[^\n\r\u2028\u2029]` -/
def escaped : Regex :=
  seq [char '\\', set inLine]

/-- What stands between double quotes, and the quote that ends it: `(?:\\[^\n\r\u2028\u2029]|[^"\\\r\n])*"` -/
def quotedRest : List Regex :=
  [zeroOrMore (alt escaped (set (.compl (among '"' ['\\', '\r', '\n'])))) true, char '"']

/-- A quoted text behind the letter r, with flags: `r"…"[imsx]{0,4}` -/
def regexLiteral : Regex :=
  seq ([char 'r', char '"'] ++ quotedRest ++ [between (set (among 'i' ['m', 's', 'x'])) 0 4 true])

/-- A character, blank or not: `[\s\S]` -/
def anything : CharSet := .union (.blank true) (.compl (.blank true))

/-- Three quotes, something, and the next three quotes: `"""[\s\S]+?"""` -/
def tripleQuoted : Regex :=
  seq [char '"', char '"', char '"', oneOrMore (set anything) false, char '"', char '"', char '"']

/-- A quoted text, perhaps directly behind a word: `(?:\b[0-9A-Za-z_]+)?"…"` -/
def prefixedString : Regex :=
  seq ([optional (seq [wordEdge, oneOrMore (set .word) true]) true, char '"'] ++ quotedRest)

/-- A text between backquotes, with escapes as between double quotes. -/
def commandString : Regex :=
  seq [char '\x60', zeroOrMore (alt (set (.compl (among '\\' ['\x60', '\r', '\n']))) escaped) true,
    char '\x60']

/-- One character between single quotes, or an escape of any length:
`(^|[^0-9A-Za-z_'])'(?:\\[^\r\n][^'\r\n]*|[^\\\r\n])'` -/
def charLiteral : Regex :=
  seq [group 1 (alt (look .textStart) (set (.compl (.union .word (.single '\''))))), char '\'',
    alt
      (seq [char '\\', set (.compl (among '\r' ['\n'])),
        zeroOrMore (set (.compl (among '\'' ['\r', '\n']))) true])
      (set (.compl (among '\\' ['\r', '\n']))),
    char '\'']

/-- The words that a keyword can be, in the order in which they are tried. -/
def keywords : List String :=
  ["defvar", "defun", "let", "let+", "defconstant", "loop", "do", "else", "elif", "declare", "type",
    "declaim", "optimize", "ifelse", "end", "in-package", "finally", "for", "if", "locally",
    "defmacro", "print", "format", "quote", "return", "defstruct", "lambda", "lm", "inline",
    "&values", "&optional", "&rest", "&key"]

/-- A whole word, or one behind a colon: `(\b|:)(?:defparameter|…)\b` -/
def keyword : Regex :=
  seq [group 1 (alt wordEdge (char ':')), oneOf (literal "defparameter") (keywords.map literal),
    wordEdge]

/-- A whole word: `\b(?:nil|t)\b` -/
def boolean : Regex :=
  seq [wordEdge, alt (literal "nil") (literal "t"), wordEdge]

/-- A letter in either case. -/
def eitherCase (a : CharSet) : Regex :=
  set (.fold a)

/-- Groups of digits, joined by single underscores: `d+(?:_d+)*` -/
def digitGroups (d : Regex) : List Regex :=
  [oneOrMore d true, zeroOrMore (seq [char '_', oneOrMore d true]) true]

/-- A point, and decimal digits if there are any. -/
def fraction : Regex :=
  optional (seq [char '.', optional (seq (digitGroups (set digit))) true]) true

def hexDigit : Regex :=
  eitherCase (.unionAll digit [.range 'a' 'f'])

/-- A number with a digit in front: digits of any base up to sixteen behind `0b`, `0o` or `0x`, and behind a decimal
digit without it. -/
def wholeNumber : Regex :=
  seq [wordEdge,
    alt
      (seq [char '0', eitherCase (among 'b' ['o', 'x']),
        alt (seq (digitGroups hexDigit ++ [fraction])) (seq (char '.' :: digitGroups (set digit)))])
      (seq [set digit, zeroOrMore hexDigit true,
        zeroOrMore (seq [char '_', oneOrMore hexDigit true]) true, fraction])]

/-- A number that begins with its point: `\B\.[0-9]+(?:_[0-9]+)*` -/
def fractionalNumber : Regex :=
  seq ([look (.notWordBoundary .word), char '.'] ++ digitGroups (set digit))

/-- A number, perhaps with an exponent, perhaps imaginary: `(?:…)(?:[efp][+-]?[0-9]+(?:_[0-9]+)*)?j?` -/
def number : Regex :=
  seq [alt wholeNumber fractionalNumber,
    optional (seq ([eitherCase (among 'e' ['f', 'p']), optional (set (among '+' ['-'])) true]
      ++ digitGroups (set digit))) true,
    optional (eitherCase (.single 'j')) true]

/-- A sign at the edge of a word: `\b[-+*/^&|<>]|==\b` -/
def operator : Regex :=
  alt (seq [wordEdge, set (among '-' ['+', '*', '/', '^', '&', '|', '<', '>'])])
    (seq [char '=', char '=', wordEdge])

/-- One of the brackets, or a colon, a semicolon or a comma. -/
def punctuation : Regex :=
  set (among '{' ['}', '[', ']', '(', ')', ':', ';', ','])

/-- A named number: `\b(?:(?:Inf|NaN)(?:16|32|64)?|im|pi)\b|[πℯ]` -/
def constant : Regex :=
  alt
    (seq [wordEdge,
      oneOf
        (seq [alt (literal "Inf") (literal "NaN"),
          optional (oneOf (literal "16") [literal "32", literal "64"]) true])
        [literal "im", literal "pi"],
      wordEdge])
    (set (among 'π' ['ℯ']))

end Highlight.Moonli
