import Highlight.Grammar

/-!
# Pieces of a text

A text is cut into pieces from its start to its end. At each position the entries of a table are asked in their order,
and the first one that offers a match makes a piece; where none does, one character is a piece that nothing claims.

An entry offers a match at a position if its search, begun at the position or, for a look-behind pattern, at the
character before it, finds a match right where it began whose context ends at the position and which goes beyond it.
A match that lies farther on is none for this position, and the search for it is begun afresh at the next.
-/

namespace Highlight

/-- A piece of a text: the entry that claims it, if one does, its characters, and where it begins. -/
structure Piece where
  claim : Option Entry
  chars : List Char
  start : Nat
  deriving DecidableEq

namespace Piece

def stop (p : Piece) : Nat :=
  p.start + byteLength p.chars

end Piece

/-- Where the search for a pattern begins that is to offer a match at a position. -/
def Pattern.starts (p : Pattern) (c : Cursor) : List Cursor :=
  if p.lookbehind then (c.prev?.map Prod.snd).toList ++ [c] else [c]

/-- The context of the match ends at the position, and its token is not empty. -/
def Match.fits (c : Cursor) (m : Match) : Bool :=
  m.contextEnd = c.offset && c.offset < m.stop

/-- The match of the pattern that begins at the position. -/
def Pattern.matchAt? (p : Pattern) (c : Cursor) : Option Match :=
  (p.find? c).filter fun m => m.start = c.offset

/-- The match that the pattern offers at a position. -/
def Pattern.offer? (p : Pattern) (c : Cursor) : Option Match :=
  (p.starts c).findSome? fun b => (p.matchAt? b).filter (Match.fits c)

/-- The first entry that offers a match at a position. -/
def offer? (entries : List Entry) (c : Cursor) : Option (Entry × Match) :=
  entries.findSome? fun e => (e.pattern.offer? c).map (e, ·)

/-- The pieces of the rest of a text. -/
def pieces (entries : List Entry) (c : Cursor) : List Piece :=
  match _ : c.next? with
  | none => []
  | some (a, d) =>
    match offer? entries c with
    | none => ⟨none, [a], c.offset⟩ :: pieces entries d
    | some (e, m) => ⟨some e, a :: (d.cut m.stop).1, c.offset⟩ :: pieces entries (d.cut m.stop).2
termination_by c.rest.length
decreasing_by
  · exact Cursor.length_next? ‹_›
  · exact Nat.lt_of_le_of_lt (Cursor.length_cut d m.stop) (Cursor.length_next? ‹_›)

theorem flatMap_chars_pieces (entries : List Entry) (c : Cursor) :
    (pieces entries c).flatMap Piece.chars = c.rest := by
  fun_induction pieces entries c with
  | case1 c h => exact (Cursor.next?_eq_none.1 h).symm
  | case2 c a d h _ ih => rw [List.flatMap_cons, ih, (Cursor.next?_eq_some.1 h).1]; rfl
  | case3 c a d h e m _ ih =>
    rw [List.flatMap_cons, ih, (Cursor.next?_eq_some.1 h).1, List.cons_append, Cursor.rest_cut]

end Highlight
