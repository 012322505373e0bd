import Highlight.Regex.CharSet
import Highlight.Text.Blank
import Highlight.Text.Word

/-!
# Classes that have names

A letter behind a backslash names the digits, the blank characters or the characters of words, by Unicode rules or within
ASCII. Within brackets a name between colons stands for a class of ASCII characters.
-/

namespace Highlight.CharSet

def digits (unicode : Bool) : CharSet :=
  if unicode then .ofRanges decimalDigits else .range '0' '9'

def blank (unicode : Bool) : CharSet :=
  if unicode then .ofRanges blanks else .union (.range '\t' '\r') (.single ' ')

def words (unicode : Bool) : CharSet :=
  if unicode then .ofRanges wordCharacters else .word

/-- The class of a letter. A capital letter stands for the characters that the small one does not stand for. -/
def ofLetter? (unicode : Bool) : Char → Option CharSet
  | 'd' => some (digits unicode)
  | 'D' => some (.compl (digits unicode))
  | 's' => some (blank unicode)
  | 'S' => some (.compl (blank unicode))
  | 'w' => some (words unicode)
  | 'W' => some (.compl (words unicode))
  | _ => none

/-- The classes of ASCII characters with their names. -/
def named : List (String × CharSet) :=
  let lower := range 'a' 'z'
  let upper := range 'A' 'Z'
  let digit := range '0' '9'
  [("alnum", .unionAll digit [upper, lower]), ("alpha", .union upper lower), ("ascii", .ascii),
    ("blank", .union (.single '\t') (.single ' ')), ("cntrl", .union (.range '\x00' '\x1f') (.single '\x7f')),
    ("digit", digit), ("graph", .range '!' '~'), ("lower", lower), ("print", .range ' ' '~'),
    ("punct", .unionAll (.range '!' '/') [.range ':' '@', .range '[' '\x60', .range '{' '~']),
    ("space", blank false), ("upper", upper), ("word", .word),
    ("xdigit", .unionAll digit [.range 'A' 'F', .range 'a' 'f'])]

end Highlight.CharSet
