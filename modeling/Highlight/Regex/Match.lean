import Highlight.Regex.Basic
import Highlight.Text.Cursor

/-!
# Matching

An expression is matched character by character, all ways of matching side by side. A `Thread` is one of them: what
it still owes of the expression. `Regex.explore` follows an expression at a position of the text as far as it goes without
reading. It gives what can be done there, most preferred first, as `Move`s: to leave the expression, or to read the
next character and owe what is left. It sees the two neighbours of the position and nothing else.

The parts of an expression have places, numbered as if all repetitions were written out. A place is entered once at each
position of the text: a later way to it could only do what the first way, which is preferred, does. This cuts off loops
that read nothing, and it makes the time linear in the text. `run` carries the threads over the text, and `Regex.search` is
the leftmost match, and of the matches that begin there the most preferred one. With a match comes the end of the last
pass through the first capture group.
-/

namespace Highlight

/-- The neighbours of a position. There is none before the start of a text and none behind its end. -/
structure Gap where
  prev : Option Char
  next : Option Char
  deriving DecidableEq

def Cursor.gap (c : Cursor) : Gap :=
  ⟨c.before.head?, c.rest.head?⟩

/-- Exactly one of the neighbours is a character of words. -/
def Gap.atWordBoundary (g : Gap) (word : CharSet) : Bool :=
  g.prev.any word.mem != g.next.any word.mem

theorem Gap.atWordBoundary_word (g : Gap) :
    g.atWordBoundary .word = (g.prev.any isWord != g.next.any isWord) := rfl

def Assertion.holds (g : Gap) : Assertion → Bool
  | textStart => g.prev.isNone
  | textEnd => g.next.isNone
  | lineStart => g.prev.all (· = '\n')
  | lineEnd => g.next.all (· = '\n')
  | wordBoundary word => g.atWordBoundary word
  | notWordBoundary word => !g.atWordBoundary word

/-- The number of places of an expression. -/
def Regex.width : Regex → Nat
  | empty => 0
  | set _ => 1
  | look _ => 0
  | cat r s => r.width + s.width
  | alt r s => 1 + r.width + s.width
  | star r _ => 1 + r.width
  | plus r _ => 1 + r.width
  | times r n => n * r.width
  | upTo r n _ => n * (1 + r.width)
  | group _ r => r.width

/-- A part of an expression, with the number of its first place. -/
structure Part where
  regex : Regex
  place : Nat
  deriving DecidableEq

/-- What can be done at a position. `closes` tells that the first capture group ends there. -/
inductive Move
  /-- Leave the expression. -/
  | exit (closes : Bool)
  /-- Read the next character; `todo` remains. -/
  | read (todo : List Part) (closes : Bool)
  deriving DecidableEq

/-- The same move, behind a place where the first group may have ended. -/
def Move.after (closed : Bool) : Move → Move
  | exit closes => exit (closed || closes)
  | read todo closes => read todo (closed || closes)

/-- The places that have been entered, as the bits of a number. -/
abbrev Places := Nat

/-- A way on from a position, which depends on the places that have been entered and enters more. -/
abbrev Walk := Places → List Move × Places

namespace Walk

/-- No way on. -/
def stop : Walk := fun v => ([], v)

def single (m : Move) : Walk := fun v => ([m], v)

/-- The first way, and then the second. -/
def both (a b : Walk) : Walk := fun v =>
  let (ms, v) := a v
  let (ns, v) := b v
  (ms ++ ns, v)

/-- Both ways, the first preferred if `first` says so, else the second. -/
def prefer (first : Bool) (a b : Walk) : Walk :=
  if first then both a b else both b a

/-- Enters a place, unless that has been done before. -/
def once (place : Nat) (a : Walk) : Walk := fun v =>
  if v.testBit place then ([], v) else a (v ||| 1 <<< place)

/-- Goes on behind a place where the first group may have ended. -/
def after (closed : Bool) (a : Walk) : Walk := fun v =>
  let (ms, v) := a v
  (ms.map (Move.after closed), v)

end Walk

/-- How a walk goes through an expression: from its first place, with what remains to be done behind it, both for
threads that have read (`todo`) and without reading (`k`). -/
abbrev Passage := Nat → List Part → Walk → Walk

namespace Regex

/-- Passes `n` times; each pass has places of its own. -/
def exploreTimes (r : Regex) (pass : Passage) : Nat → Passage
  | 0 => fun _ _ k => k
  | n + 1 => fun place todo k =>
    let next := place + r.width
    pass place (⟨times r n, next⟩ :: todo) (exploreTimes r pass n next todo k)

/-- Passes at most `n` times; each pass has places of its own and is entered by one more. -/
def exploreUpTo (r : Regex) (greedy : Bool) (pass : Passage) : Nat → Passage
  | 0 => fun _ _ k => k
  | n + 1 => fun place todo k =>
    let next := place + 1 + r.width
    .once place (.prefer greedy
      (pass (place + 1) (⟨upTo r n greedy, next⟩ :: todo)
        (exploreUpTo r greedy pass n next todo k))
      k)

/-- Goes through an expression. A pass of a loop that has read nothing leads back to its entrance, which has been
entered. -/
def explore (g : Gap) : Regex → Passage
  | empty => fun _ _ k => k
  | set chars => fun place todo _ =>
    .once place (if g.next.any chars.mem then .single (.read todo false) else .stop)
  | look a => fun _ _ k => if a.holds g then k else .stop
  | cat r s => fun place todo k =>
    let next := place + r.width
    r.explore g place (⟨s, next⟩ :: todo) (s.explore g next todo k)
  | alt r s => fun place todo k =>
    .once place (.both (r.explore g (place + 1) todo k)
      (s.explore g (place + 1 + r.width) todo k))
  | star r greedy => fun place todo k =>
    .once place (.prefer greedy (r.explore g (place + 1) (⟨star r greedy, place⟩ :: todo) .stop) k)
  | plus r greedy => fun place todo k =>
    r.explore g (place + 1) (⟨star r greedy, place⟩ :: todo) (.once place k)
  | times r n => exploreTimes r (r.explore g) n
  | upTo r n greedy => exploreUpTo r greedy (r.explore g) n
  | group index r => fun place todo k =>
    r.explore g place (⟨group index empty, place⟩ :: todo) (.after (index == 1) k)

/-- Goes through parts, one after another, and leaves. -/
def exploreAll (g : Gap) : List Part → Walk
  | [] => .single (.exit false)
  | part :: todo => part.regex.explore g part.place todo (exploreAll g todo)

end Regex

/-- One way of matching: what it still owes, and where the first capture group last ended. -/
structure Thread where
  todo : List Part
  mark : Option Nat
  deriving DecidableEq

/-- The end of a match, and the end of the first capture group in it. -/
structure Hit where
  stop : Nat
  mark : Option Nat
  deriving DecidableEq

/-- A thread at a position ends there or goes on over the next character. -/
inductive Step
  | stop (mark : Option Nat)
  | go (t : Thread)

/-- What a move means for a thread at a byte offset. -/
def Thread.step (t : Thread) (offset : Nat) (m : Move) : Step :=
  let mark (closes : Bool) := if closes then some offset else t.mark
  match m with
  | .exit closes => .stop (mark closes)
  | .read todo closes => .go ⟨todo, mark closes⟩

namespace Step

/-- The steps of threads at a position, most preferred first. -/
def ofThreads (c : Cursor) : List Thread → Places → List Step
  | [], _ => []
  | t :: ts, v =>
    let (ms, v) := Regex.exploreAll c.gap t.todo v
    ms.map (t.step c.offset) ++ ofThreads c ts v

/-- The threads that are preferred to the first end, and that end. -/
def untilStop : List Step → List Thread × Option (Option Nat)
  | [] => ([], none)
  | stop mark :: _ => ([], some mark)
  | go t :: more =>
    let (ts, stopped) := untilStop more
    (t :: ts, stopped)

end Step

/-- The end of the most preferred match of the threads. -/
def run (threads : List Thread) (c : Cursor) : Option Hit :=
  let (going, stopped) := Step.untilStop (Step.ofThreads c threads 0)
  let here := stopped.map (⟨c.offset, ·⟩)
  match _ : c.next? with
  | none => here
  | some (_, d) => if going.isEmpty then here else (run going d).or here
termination_by c.rest.length
decreasing_by exact Cursor.length_next? ‹_›

namespace Regex

/-- The most preferred match that begins at the position. -/
def matchHere (r : Regex) (c : Cursor) : Option Hit :=
  run [⟨[⟨r, 0⟩], none⟩] c

/-- The first position at or after the given one where a match begins, and the match there. -/
def search (r : Regex) (c : Cursor) : Option (Cursor × Hit) :=
  match r.matchHere c with
  | some hit => some (c, hit)
  | none =>
    match _ : c.next? with
    | none => none
    | some (_, d) => r.search d
termination_by c.rest.length
decreasing_by exact Cursor.length_next? ‹_›

end Regex

end Highlight
