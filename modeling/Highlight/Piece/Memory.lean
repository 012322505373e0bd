import Highlight.Piece.Basic

/-!
# Cutting with a memory

The search for an expression finds the leftmost match, so one search answers for every position before that match, and
most positions of a text need no search. A `Slot` is an entry with its last search; `Slot.answer?` tells what
follows from that search for a later position, and `Slot.matchAt` searches only where nothing follows. A block
comment is looked for at each position, since its search does not look ahead.

`piecesRemembering` cuts a text as `pieces` does.
-/

namespace Highlight

/-- An entry, with the position that was last searched from and what was found. -/
structure Slot where
  entry : Entry
  last : Option (Nat × Option Match)

namespace Slot

/-- What the last search tells of a match that begins at a position, if it tells anything. Nothing begins before what
was found first; behind it, and before the start of the search, all is open. -/
def answer? (s : Slot) (position : Nat) : Option (Option Match) :=
  match s.last with
  | none => none
  | some (searched, found) =>
    if position < searched then none
    else match found with
      | none => some none
      | some m =>
        if position < m.start then some none
        else if m.start = position then some (some m)
        else none

/-- The match of the entry that begins at a position. -/
def matchAt (s : Slot) (c : Cursor) : Option Match × Slot :=
  if s.entry.pattern.looksAhead then
    match s.answer? c.offset with
    | some answer => (answer, s)
    | none =>
      let found := s.entry.pattern.find? c
      (found.filter fun m => m.start = c.offset, { s with last := some (c.offset, found) })
  else (s.entry.pattern.find? c, s)

/-- The first match at one of the given positions that fits the position `c`. -/
def offerFrom (c : Cursor) (s : Slot) : List Cursor → Option Match × Slot
  | [] => (none, s)
  | b :: bs =>
    let (m, s) := s.matchAt b
    match m.filter (Match.fits c) with
    | some m => (some m, s)
    | none => offerFrom c s bs

/-- The match that the entry offers at a position. -/
def offer (s : Slot) (c : Cursor) : Option Match × Slot :=
  s.offerFrom c (s.entry.pattern.starts c)

/-- The first of the entries that offers a match at a position. -/
def offerAmong (c : Cursor) : List Slot → Option (Entry × Match) × List Slot
  | [] => (none, [])
  | s :: more =>
    match s.offer c with
    | (some m, s) => (some (s.entry, m), s :: more)
    | (none, s) =>
      let (found, more) := offerAmong c more
      (found, s :: more)

/-- An entry that has not been searched for. -/
def fresh (e : Entry) : Slot :=
  ⟨e, none⟩

end Slot

/-- The pieces of the rest of a text, cut with what the slots remember. -/
def piecesRemembering (slots : List Slot) (c : Cursor) : List Piece :=
  match _ : c.next? with
  | none => []
  | some (a, d) =>
    match Slot.offerAmong c slots with
    | (none, slots) => ⟨none, [a], c.offset⟩ :: piecesRemembering slots d
    | (some (e, m), slots) =>
      ⟨some e, a :: (d.cut m.stop).1, c.offset⟩ :: piecesRemembering slots (d.cut m.stop).2
termination_by c.rest.length
decreasing_by
  · exact Cursor.length_next? ‹_›
  · exact Nat.lt_of_le_of_lt (Cursor.length_cut d m.stop) (Cursor.length_next? ‹_›)

end Highlight
