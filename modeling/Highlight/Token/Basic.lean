import Highlight.Text.Cursor
import Highlight.Token.Kind

/-!
# Tokens

A token is a stretch of text with its kind. Tokens form trees: the children of a token divide its text again, and
`flatten` reads off the leaves.

A list of tokens is built by `push`, newest first. Plain text that continues plain text is no token of its own
but extends the one before it; whether it continues it is told by the spans alone.
-/

namespace Highlight

/-- A range of bytes. -/
structure Span where
  start : Nat
  stop : Nat
  deriving DecidableEq, Repr

namespace Span

def length (s : Span) : Nat :=
  s.stop - s.start

def isEmpty (s : Span) : Bool :=
  s.start = s.stop

end Span

structure Token where
  kind : Kind
  /-- The name of the alternative, in a rule of several patterns. -/
  label : Option String
  value : String
  span : Span
  children : List Token

namespace Token

def isPlain (t : Token) : Bool :=
  t.kind = .plain

mutual

/-- The innermost tokens under a token, in order; a token without children is one itself. -/
def leaves : Token → List Token
  | ⟨kind, label, value, span, []⟩ => [⟨kind, label, value, span, []⟩]
  | ⟨_, _, _, _, child :: more⟩ => leavesOf (child :: more)

/-- The innermost tokens under each of a list of tokens. -/
def leavesOf : List Token → List Token
  | [] => []
  | t :: ts => leaves t ++ leavesOf ts

end

/-- The innermost tokens of a list of tokens. -/
def flatten (ts : List Token) : List Token :=
  ts.flatMap leaves

theorem leavesOf_eq (ts : List Token) : leavesOf ts = flatten ts := by
  induction ts with
  | nil => rfl
  | cons t ts ih => rw [leavesOf, ih]; rfl

theorem leaves_eq (t : Token) :
    t.leaves = if t.children = [] then [t] else flatten t.children := by
  obtain ⟨kind, label, value, span, children⟩ := t
  cases children with
  | nil => rfl
  | cons child more => rw [leaves, leavesOf_eq]; rfl

/-- Both tokens are plain, and the second begins where the first ends. -/
def continues (last t : Token) : Bool :=
  t.isPlain && last.isPlain && last.span.stop = t.span.start

/-- The first of two tokens, made longer by the second. -/
def extend (last t : Token) : Token :=
  { last with value := last.value ++ t.value, span.stop := t.span.stop }

/-- Adds a token to a list that holds the newest token first. -/
def push (tokens : List Token) (t : Token) : List Token :=
  match tokens with
  | [] => [t]
  | last :: older => if continues last t then extend last t :: older else t :: last :: older

/-- The list of tokens that is built from tokens in their order. -/
def join (ts : List Token) : List Token :=
  (ts.foldl push []).reverse

end Token

end Highlight
