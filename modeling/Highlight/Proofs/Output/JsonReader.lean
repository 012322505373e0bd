import Highlight.Regex.Escape

/-!
# A reader for JSON

Texts in the JSON format are read in two steps. The characters are divided into lexemes: brackets, commas and
colons, strings, numbers and the three words; blanks may stand between them. From the lexemes a machine with a stack
builds the value: on the stack are the arrays and objects that are open, each with what has been read of it.

The reader takes all that the format allows, also what no token is written with: signs, fractions and exponents,
escapes of any kind, and code points beyond the first plane as a pair of surrogates. What the format does not allow
is not read.
-/

namespace Highlight

/-- A decimal number: its digits times a power of ten. -/
structure Decimal where
  digits : Int
  exponent : Int
  deriving DecidableEq, Repr

inductive JsonValue
  | null
  | bool (b : Bool)
  | number (n : Decimal)
  | string (text : String)
  | array (elements : List JsonValue)
  /-- The members in the order in which they stand. -/
  | object (members : List (String × JsonValue))

namespace JsonValue

inductive Lexeme
  | openArray
  | closeArray
  | openObject
  | closeObject
  | comma
  | colon
  | null
  | bool (b : Bool)
  | number (n : Decimal)
  | string (text : String)
  deriving DecidableEq, Repr

/-! ## Strings -/

/-- What a letter or sign behind a backslash stands for. -/
def shortEscape? (c : Char) : Option Char :=
  if c = '"' ∨ c = '\\' ∨ c = '/' then some c
  else if c = 'b' then some '\x08'
  else if c = 'f' then some '\x0c'
  else if c = 'n' then some '\n'
  else if c = 'r' then some '\r'
  else if c = 't' then some '\t'
  else none

/-- The code points of a string up to its closing quote, and what stands behind it. A code point that is given in digits
may be one half of a pair of surrogates. Controls below the space do not stand for themselves. -/
def codePoints? : List Char → Option (List Nat × List Char)
  | [] => none
  | '"' :: cs => some ([], cs)
  | '\\' :: 'u' :: a :: b :: c :: d :: cs =>
    (Regex.hexNumber? [a, b, c, d]).bind fun n =>
      (codePoints? cs).map fun (ns, rest) => (n :: ns, rest)
  | '\\' :: e :: cs =>
    (shortEscape? e).bind fun c => (codePoints? cs).map fun (ns, rest) => (c.toNat :: ns, rest)
  | c :: cs =>
    if c = '\\' ∨ c.toNat < 0x20 then none
    else (codePoints? cs).map fun (ns, rest) => (c.toNat :: ns, rest)

/-- The characters with given code points. A high surrogate needs a low one behind it, and makes one character with it. -/
def characters? : List Nat → Option (List Char)
  | [] => some []
  | high :: ns =>
    if 0xD800 ≤ high ∧ high < 0xDC00 then
      match ns with
      | [] => none
      | low :: ns =>
        if 0xDC00 ≤ low ∧ low < 0xE000 then
          (Regex.charAt? (0x10000 + (high - 0xD800) * 0x400 + (low - 0xDC00))).bind fun c =>
            (characters? ns).map (c :: ·)
        else none
    else (Regex.charAt? high).bind fun c => (characters? ns).map (c :: ·)

/-- The text of a string behind its opening quote, and what stands behind the closing one. -/
def string? (cs : List Char) : Option (String × List Char) :=
  (codePoints? cs).bind fun (ns, rest) => (characters? ns).map fun text => (String.ofList text, rest)

/-! ## Numbers and words -/

/-- Digits, of which there is at least one. -/
def isDigits (ds : List Char) : Bool :=
  !ds.isEmpty && ds.all Char.isDigit

/-- The digits of a fraction, if there is one, and what stands behind it. -/
def fraction? : List Char → Option (List Char × List Char)
  | '.' :: cs =>
    if isDigits (cs.takeWhile Char.isDigit) then
      some (cs.takeWhile Char.isDigit, cs.dropWhile Char.isDigit)
    else none
  | cs => some ([], cs)

/-- An exponent with or without sign. -/
def signed? : List Char → Option Int
  | '-' :: ds => if isDigits ds then some (-Nat.ofDigitChars 10 ds 0) else none
  | '+' :: ds => if isDigits ds then some (Nat.ofDigitChars 10 ds 0) else none
  | ds => if isDigits ds then some (Nat.ofDigitChars 10 ds 0) else none

/-- The exponent at the end of a number, if there is one. -/
def exponent? : List Char → Option Int
  | [] => some 0
  | e :: cs => if e = 'e' ∨ e = 'E' then signed? cs else none

/-- A number without sign. Its whole part has no leading zero. -/
def magnitude? (cs : List Char) : Option Decimal :=
  let whole := cs.takeWhile Char.isDigit
  if isDigits whole ∧ (whole.head? = some '0' → whole.length = 1) then
    (fraction? (cs.dropWhile Char.isDigit)).bind fun (fraction, rest) =>
      (exponent? rest).map fun e =>
        ⟨Nat.ofDigitChars 10 (whole ++ fraction) 0, e - fraction.length⟩
  else none

def decimal? : List Char → Option Decimal
  | '-' :: cs => (magnitude? cs).map fun n => ⟨-n.digits, n.exponent⟩
  | cs => magnitude? cs

/-- Characters that words and numbers are made of. -/
def isWordPart (c : Char) : Bool :=
  c.isAlphanum || c = '+' || c = '-' || c = '.'

def word? (cs : List Char) : Option Lexeme :=
  if cs = "null".toList then some .null
  else if cs = "true".toList then some (.bool true)
  else if cs = "false".toList then some (.bool false)
  else (decimal? cs).map .number

/-! ## Lexemes -/

def isSpace (c : Char) : Bool :=
  c = ' ' || c = '\t' || c = '\n' || c = '\r'

def mark? (c : Char) : Option Lexeme :=
  if c = '[' then some .openArray
  else if c = ']' then some .closeArray
  else if c = '\x7b' then some .openObject
  else if c = '\x7d' then some .closeObject
  else if c = ',' then some .comma
  else if c = ':' then some .colon
  else none

theorem exists_of_map_cons {n : Nat} {read : Option (List Nat × List Char)} {ns : List Nat}
    {rest : List Char} (h : (read.map fun (ns, rest) => (n :: ns, rest)) = some (ns, rest)) :
    ∃ ms, read = some (ms, rest) := by
  obtain ⟨⟨ms, left⟩, hread, hpair⟩ := Option.map_eq_some_iff.1 h
  obtain ⟨-, rfl⟩ := Prod.mk.inj hpair
  exact ⟨ms, hread⟩

theorem length_codePoints? {cs rest : List Char} {ns : List Nat}
    (h : codePoints? cs = some (ns, rest)) : rest.length < cs.length := by
  fun_induction codePoints? cs generalizing ns with
  | case1 => cases h
  | case2 cs =>
    obtain ⟨-, rfl⟩ := Prod.mk.inj (Option.some.inj h)
    exact Nat.lt_succ_self _
  | case3 a b c d cs ih =>
    obtain ⟨n, -, hn⟩ := Option.bind_eq_some_iff.1 h
    obtain ⟨ms, hms⟩ := exists_of_map_cons hn
    have := ih hms
    simp only [List.length_cons]
    omega
  | case4 e cs _ ih =>
    obtain ⟨c, -, hc⟩ := Option.bind_eq_some_iff.1 h
    obtain ⟨ms, hms⟩ := exists_of_map_cons hc
    exact Nat.lt_succ_of_lt (Nat.lt_succ_of_lt (ih hms))
  | case5 => cases h
  | case6 c cs _ _ _ _ ih =>
    obtain ⟨ms, hms⟩ := exists_of_map_cons h
    exact Nat.lt_succ_of_lt (ih hms)

theorem length_string? {cs rest : List Char} {text : String} (h : string? cs = some (text, rest)) :
    rest.length < cs.length := by
  obtain ⟨⟨ns, left⟩, hns, htext⟩ := Option.bind_eq_some_iff.1 h
  obtain ⟨chars, -, hpair⟩ := Option.map_eq_some_iff.1 htext
  obtain ⟨-, rfl⟩ := Prod.mk.inj hpair
  exact length_codePoints? hns

/-- The lexemes of a text. -/
def lexemes? : List Char → Option (List Lexeme)
  | [] => some []
  | c :: cs =>
    if isSpace c then lexemes? cs
    else if c = '"' then
      match _ : string? cs with
      | none => none
      | some (text, rest) => (lexemes? rest).map (.string text :: ·)
    else
      match mark? c with
      | some mark => (lexemes? cs).map (mark :: ·)
      | none =>
        (word? (c :: cs.takeWhile isWordPart)).bind fun word =>
          (lexemes? (cs.dropWhile isWordPart)).map (word :: ·)
termination_by cs => cs.length
decreasing_by
  · exact Nat.lt_succ_self _
  · exact Nat.lt_succ_of_lt (length_string? ‹_›)
  · exact Nat.lt_succ_self _
  · exact Nat.lt_succ_of_le (List.dropWhile_sublist _).length_le

/-! ## Values -/

/-- An array or object that is open, with what is complete of it, newest first, and in an object the name whose value is
due. -/
inductive Frame
  | array (elements : List JsonValue)
  | object (members : List (String × JsonValue)) (name : String)

inductive State
  /-- A value is due. -/
  | value (frames : List Frame)
  /-- The name of a member is due. -/
  | member (members : List (String × JsonValue)) (frames : List Frame)
  | colon (members : List (String × JsonValue)) (name : String) (frames : List Frame)
  /-- A value is complete. -/
  | done (v : JsonValue) (frames : List Frame)

/-- Takes the next lexeme. An array or object ends behind its last value, or at once. -/
def State.next? : State → Lexeme → Option State
  | .value fs, .null => some (.done .null fs)
  | .value fs, .bool b => some (.done (.bool b) fs)
  | .value fs, .number n => some (.done (.number n) fs)
  | .value fs, .string text => some (.done (.string text) fs)
  | .value fs, .openArray => some (.value (.array [] :: fs))
  | .value fs, .openObject => some (.member [] fs)
  | .value (.array [] :: fs), .closeArray => some (.done (.array []) fs)
  | .member members fs, .string name => some (.colon members name fs)
  | .member [] fs, .closeObject => some (.done (.object []) fs)
  | .colon members name fs, .colon => some (.value (.object members name :: fs))
  | .done v (.array elements :: fs), .comma => some (.value (.array (v :: elements) :: fs))
  | .done v (.array elements :: fs), .closeArray =>
    some (.done (.array (v :: elements).reverse) fs)
  | .done v (.object members name :: fs), .comma => some (.member ((name, v) :: members) fs)
  | .done v (.object members name :: fs), .closeObject =>
    some (.done (.object ((name, v) :: members).reverse) fs)
  | _, _ => none

/-- The value of a whole text. -/
def State.result? : State → Option JsonValue
  | .done v [] => some v
  | _ => none

/-- **The value that a text in the JSON format stands for.** -/
def read? (text : String) : Option JsonValue :=
  (lexemes? text.toList).bind fun ls =>
    (ls.foldlM State.next? (.value [])).bind State.result?

end JsonValue

end Highlight
