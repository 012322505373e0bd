import Highlight.Failure
import Highlight.Output.Json
import Highlight.Output.Listing

/-!
# Output formats

Tokens can be shown as a listing for readers and as JSON for programs.
-/

namespace Highlight

inductive Format
  | listing
  | json
  deriving DecidableEq, Repr

namespace Format

/-- The format of a name. -/
def ofName (name : String) : Except Failure Format :=
  if name = "listing" then .ok listing
  else if name = "json" then .ok json
  else .error (.unknownFormat name)

/-- The tokens of a text in a format. -/
def render (source : String) (tokens : List Token) : Format → String
  | listing => Highlight.listing source tokens
  | json => (Json.array (Token.toJsonList tokens)).text

end Format

end Highlight
