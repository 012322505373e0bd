import Highlight.Text.Cursor

/-!
# Lines

A line of a text keeps its newline, and only the last line may lack one. `lines` divides a text into its
lines and loses nothing (`flatten_lines`). `place? text position` is the line that a byte lies in,
counted from one, with the column of the byte counted from zero; beyond the text there is none
(`place?_eq_none_iff`).
-/

namespace Highlight

/-- The first line with its newline, and what follows it. -/
def splitLine : List Char → List Char × List Char
  | [] => ([], [])
  | c :: cs =>
    if c = '\n' then (['\n'], cs)
    else
      let (line, left) := splitLine cs
      (c :: line, left)

theorem splitLine_append (cs : List Char) : (splitLine cs).1 ++ (splitLine cs).2 = cs := by
  induction cs with
  | nil => rfl
  | cons c cs ih =>
    by_cases h : c = '\n'
    · simp [splitLine, h]
    · simp [splitLine, h, ih]

theorem length_splitLine_cons (c : Char) (cs : List Char) :
    (splitLine (c :: cs)).2.length < (c :: cs).length := by
  by_cases h : c = '\n'
  · simp [splitLine, h]
  · have := congrArg List.length (splitLine_append cs)
    rw [List.length_append] at this
    simp only [splitLine, h, if_false, List.length_cons]
    omega

/-- The lines of a text, each with its newline. -/
def lines : List Char → List (List Char)
  | [] => []
  | c :: cs => (splitLine (c :: cs)).1 :: lines (splitLine (c :: cs)).2
termination_by cs => cs.length
decreasing_by exact length_splitLine_cons c cs

@[simp] theorem lines_nil : lines [] = [] := by
  rw [lines]

theorem lines_cons (c : Char) (cs : List Char) :
    lines (c :: cs) = (splitLine (c :: cs)).1 :: lines (splitLine (c :: cs)).2 := by
  rw [lines]

theorem flatten_lines (cs : List Char) : (lines cs).flatten = cs := by
  fun_induction lines cs with
  | case1 => rfl
  | case2 c cs ih => rw [List.flatten_cons, ih, splitLine_append]

/-- Where a byte of a text lies. -/
structure Place where
  /-- The number of the line, counted from one. -/
  line : Nat
  /-- The text of the line, with its newline. -/
  text : List Char
  /-- The bytes of the line before the place. -/
  column : Nat
  deriving DecidableEq, Repr

/-- The place of byte `position` in a list of lines that are numbered from `number` on. -/
def placeIn? (number : Nat) : List (List Char) → Nat → Option Place
  | [], _ => none
  | line :: more, position =>
    if position < byteLength line then some ⟨number, line, position⟩
    else placeIn? (number + 1) more (position - byteLength line)

/-- The place of byte `position` in a text. -/
def place? (text : List Char) (position : Nat) : Option Place :=
  placeIn? 1 (lines text) position

theorem placeIn?_eq_none_iff (number : Nat) (ls : List (List Char)) (position : Nat) :
    placeIn? number ls position = none ↔ byteLength ls.flatten ≤ position := by
  induction ls generalizing number position with
  | nil => simp [placeIn?]
  | cons line more ih =>
    by_cases h : position < byteLength line
    · simp [placeIn?, h]
      omega
    · simp [placeIn?, h, ih]
      omega

theorem place?_eq_none_iff (text : List Char) (position : Nat) :
    place? text position = none ↔ byteLength text ≤ position := by
  rw [place?, placeIn?_eq_none_iff, flatten_lines]

end Highlight
