/-!
# Kinds of tokens

What a token is. `Kind.plain` is the kind of text that no rule of a table claims. The kinds are ordered, plain
text first.
-/

namespace Highlight

inductive Kind
  | plain
  | comment
  | regex
  | string
  | char
  | keyword
  | boolean
  | number
  | operator
  | punctuation
  | constant
  deriving DecidableEq, Repr

namespace Kind

def name : Kind → String
  | plain => "plain"
  | comment => "comment"
  | regex => "regex"
  | string => "string"
  | char => "char"
  | keyword => "keyword"
  | boolean => "boolean"
  | number => "number"
  | operator => "operator"
  | punctuation => "punctuation"
  | constant => "constant"

/-- The kinds in their order. -/
def all : List Kind :=
  [plain, comment, regex, string, char, keyword, boolean, number, operator, punctuation, constant]

theorem mem_all (k : Kind) : k ∈ all := by
  cases k <;> decide

/-- The kind that has a name. -/
def ofName? (text : String) : Option Kind :=
  all.find? fun k => k.name = text

theorem ofName?_name (k : Kind) : ofName? k.name = some k := by
  cases k <;> decide

/-- The place of a kind in the order. -/
def rank (k : Kind) : Nat :=
  all.idxOf k

instance : LE Kind := ⟨fun a b => a.rank ≤ b.rank⟩

instance (a b : Kind) : Decidable (a ≤ b) :=
  inferInstanceAs (Decidable (a.rank ≤ b.rank))

/-- The kinds of a list in their order. -/
def sort (ks : List Kind) : List Kind :=
  ks.mergeSort fun a b => a ≤ b

end Kind

end Highlight
