import Highlight.Piece.Memory
import Highlight.Token.Basic

/-!
# Dividing a text into tokens

A piece that an entry claims is a token of the entry's kind and name, and one that nothing claims is plain. The text
of a greedy pattern is divided again, by the table without the rules of that kind, and what comes of it are the
children of the token. As each such step takes a rule from the table, it ends.

`Grammar.tokenize` divides a text with a memory of the searches, `Grammar.tokenizeAfresh` without one.
-/

namespace Highlight

/-- The entries of other kinds. -/
def without (entries : List Entry) (kind : Kind) : List Entry :=
  entries.filter fun e => e.kind ≠ kind

theorem length_without_lt {entries : List Entry} {e : Entry} (h : e ∈ entries) :
    (without entries e.kind).length < entries.length :=
  List.length_filter_lt_length_iff_exists.2 ⟨e, h, by simp⟩

/-- A way to cut a text into pieces with the entries of a table. -/
abbrev Cutter :=
  List Entry → List Char → List Piece

/-- The token of a piece of a text that begins at `base`. -/
def Piece.token (base : Nat) (children : Entry → List Token) (p : Piece) : Token where
  kind := (p.claim.map Entry.kind).getD .plain
  label := p.claim.bind Entry.label
  value := String.ofList p.chars
  span := ⟨base + p.start, base + p.stop⟩
  children := (p.claim.map children).getD []

/-- The tokens of a text that begins at `base`. With `rescan` the texts of greedy patterns are divided again. -/
def tokensBy (cut : Cutter) (rescan : Bool) (entries : List Entry) (base : Nat) (text : List Char) :
    List Token :=
  Token.join ((cut entries text).map fun p => p.token base fun e =>
    if _ : (without entries e.kind).length < entries.length then
      if rescan && e.pattern.greedy then
        tokensBy cut rescan (without entries e.kind) (base + p.start) p.chars
      else []
    else [])
termination_by entries.length

/-- Cuts a text and remembers the searches. -/
def cutRemembering : Cutter := fun entries text =>
  piecesRemembering (entries.map Slot.fresh) (.ofText text)

/-- Cuts a text and searches at each position afresh. -/
def cutAfresh : Cutter := fun entries text =>
  pieces entries (.ofText text)

namespace Grammar

/-- The tokens of a text. -/
def tokenize (g : Grammar) (source : String) (rescan : Bool) : List Token :=
  tokensBy cutRemembering rescan g.entries 0 source.toList

/-- The tokens of a text, found without a memory of the searches. -/
def tokenizeAfresh (g : Grammar) (source : String) (rescan : Bool) : List Token :=
  tokensBy cutAfresh rescan g.entries 0 source.toList

end Grammar

end Highlight
