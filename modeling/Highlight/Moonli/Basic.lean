import Highlight.Moonli.Patterns
import Highlight.Tokenize

/-!
# The table of moonli

Comments come first, then the literals whose text is divided again, then words, numbers and signs.
-/

namespace Highlight.Moonli

def comment : Rule :=
  .composite
    [("block", { matcher := .blockComment, lookbehind := true }),
      ("line", { matcher := .regex lineComment, lookbehind := true })]

def string : Rule :=
  .composite
    [("triple-quoted", { matcher := .regex tripleQuoted, greedy := true }),
      ("prefixed", { matcher := .regex prefixedString, greedy := true }),
      ("command", { matcher := .regex commandString, greedy := true })]

def rules : List (Kind × Rule) :=
  [(.comment, comment),
    (.regex, .simple { matcher := .regex regexLiteral, greedy := true }),
    (.string, string),
    (.char, .simple { matcher := .regex charLiteral, lookbehind := true, greedy := true }),
    (.keyword, .simple { matcher := .regex keyword }),
    (.boolean, .simple { matcher := .regex boolean }),
    (.number, .simple { matcher := .regex number }),
    (.operator, .simple { matcher := .regex operator }),
    (.punctuation, .simple { matcher := .regex punctuation }),
    (.constant, .simple { matcher := .regex constant })]

/-- The table of the language moonli. -/
def grammar : Grammar where
  language := "moonli"
  rules := rules
  nodup := by decide
  wellFormed := by decide

end Highlight.Moonli
