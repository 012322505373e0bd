import Highlight.Text.Blank
import Highlight.Text.Line
import Highlight.Text.Quoted
import Highlight.Token.Basic

/-!
# Listings

A line for each token: where it begins, its kind, the name of its alternative, and its text in quotes. Blank plain text
is left out; of the tokens within a token only those that are not plain are listed, below it and two spaces further
in.
-/

namespace Highlight

namespace Token

/-- The kind, the name and the quoted text. -/
def display (t : Token) : String :=
  t.kind.name ++ (t.label.map ("/" ++ ·)).getD "" ++ " " ++ quoted t.value

/-- Plain text that shows nothing. -/
def isBlank (t : Token) : Bool :=
  t.isPlain && isBlankText t.value.toList

end Token

/-- Line and column of a byte, both counted from one; for a byte beyond the text they are zero and one. -/
def location (source : List Char) (position : Nat) : String :=
  match place? source position with
  | some place => toString place.line ++ ":" ++ toString (place.column + 1)
  | none => "0:1"

/-- The line of a token at a depth of nesting. -/
def listingLine (source : List Char) (depth : Nat) (t : Token) : String :=
  String.ofList (List.replicate (2 * depth) ' ') ++ location source t.span.start ++ " " ++ t.display

mutual

/-- The lines of a token and of the tokens within it. -/
def listingLines (source : List Char) (depth : Nat) : Token → List String
  | ⟨kind, label, value, span, children⟩ =>
    listingLine source depth ⟨kind, label, value, span, children⟩
      :: listingLinesWithin source (depth + 1) children

/-- The lines of those tokens of a list that are not plain. -/
def listingLinesWithin (source : List Char) (depth : Nat) : List Token → List String
  | [] => []
  | t :: ts =>
    if t.isPlain then listingLinesWithin source depth ts
    else listingLines source depth t ++ listingLinesWithin source depth ts

end

/-- The listing of the tokens of a text. -/
def listing (source : String) (tokens : List Token) : String :=
  "\n".intercalate
    ((tokens.filter fun t => !t.isBlank).flatMap (listingLines source.toList 0))

end Highlight
