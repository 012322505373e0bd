/-!
# Positions in a text

A text is a list of characters; a position in it is a byte offset of its UTF-8 form. A `Cursor` is a
position on a character boundary. It holds the characters before it, nearest first, the characters
after it, and its offset, so that both neighbours of a position are at hand.

* `splitBytes n cs` divides `cs` at the first boundary at or after byte `n`; nothing is lost
  (`splitBytes_append`).
* `Cursor.next?` and `Cursor.prev?` move over one character and keep the text (`text_next?`,
  `text_prev?`).
* `Cursor.seek` moves forward to the first boundary at or after an offset; `Cursor.at?` finds the
  boundary that has exactly the given offset.
-/

namespace Highlight

/-- Length of the characters in UTF-8 bytes. -/
def byteLength (cs : List Char) : Nat :=
  cs.foldr (fun c n => c.utf8Size + n) 0

@[simp] theorem byteLength_nil : byteLength [] = 0 := rfl

@[simp] theorem byteLength_cons (c : Char) (cs : List Char) :
    byteLength (c :: cs) = c.utf8Size + byteLength cs := rfl

@[simp] theorem byteLength_append (as bs : List Char) :
    byteLength (as ++ bs) = byteLength as + byteLength bs := by
  induction as with
  | nil => rw [List.nil_append, byteLength_nil, Nat.zero_add]
  | cons c as ih => rw [List.cons_append, byteLength_cons, byteLength_cons, ih, Nat.add_assoc]

@[simp] theorem byteLength_reverse (cs : List Char) : byteLength cs.reverse = byteLength cs := by
  induction cs with
  | nil => rfl
  | cons c cs ih =>
    rw [List.reverse_cons, byteLength_append, ih, byteLength_cons, byteLength_cons, byteLength_nil,
      Nat.add_zero, Nat.add_comm]

/-- Divides a text at the first character boundary at or after byte `n`, or at its end. -/
def splitBytes (n : Nat) : List Char → List Char × List Char
  | [] => ([], [])
  | c :: cs =>
    if n = 0 then ([], c :: cs)
    else
      let (taken, left) := splitBytes (n - c.utf8Size) cs
      (c :: taken, left)

@[simp] theorem splitBytes_zero (cs : List Char) : splitBytes 0 cs = ([], cs) := by
  cases cs <;> simp [splitBytes]

theorem splitBytes_append (n : Nat) (cs : List Char) :
    (splitBytes n cs).1 ++ (splitBytes n cs).2 = cs := by
  induction cs generalizing n with
  | nil => rfl
  | cons c cs ih =>
    by_cases h : n = 0
    · simp [h]
    · simp [splitBytes, h, ih]

theorem length_splitBytes (n : Nat) (cs : List Char) :
    (splitBytes n cs).2.length ≤ cs.length := by
  have h := congrArg List.length (splitBytes_append n cs)
  rw [List.length_append] at h
  omega

/-- A position on a character boundary of a text. -/
structure Cursor where
  /-- The characters before the position, nearest first. -/
  before : List Char
  /-- The characters after the position. -/
  rest : List Char
  /-- The position as a byte offset. -/
  offset : Nat
  offset_eq : offset = byteLength before
  deriving DecidableEq

namespace Cursor

/-- The start of a text. -/
def ofText (text : List Char) : Cursor :=
  ⟨[], text, 0, rfl⟩

/-- The whole text that a cursor is in. -/
def text (c : Cursor) : List Char :=
  c.before.reverse ++ c.rest

/-- The character after the position, and the position behind it. -/
def next? (c : Cursor) : Option (Char × Cursor) :=
  match c.rest with
  | [] => none
  | a :: rest => some (a, ⟨a :: c.before, rest, c.offset + a.utf8Size, by
      simp [c.offset_eq, Nat.add_comm]⟩)

/-- The character before the position, and the position in front of it. -/
def prev? (c : Cursor) : Option (Char × Cursor) :=
  match h : c.before with
  | [] => none
  | a :: before => some (a, ⟨before, a :: c.rest, c.offset - a.utf8Size, by
      simp [c.offset_eq, h]⟩)

/-- The characters up to the first boundary at or after `offset`, and the position there. -/
def cut (c : Cursor) (offset : Nat) : List Char × Cursor :=
  let (taken, left) := splitBytes (offset - c.offset) c.rest
  (taken, ⟨taken.reverse ++ c.before, left, c.offset + byteLength taken, by
    simp [c.offset_eq, Nat.add_comm]⟩)

/-- The first boundary at or after `offset`, or the end of the text. -/
def seek (c : Cursor) (offset : Nat) : Cursor :=
  (c.cut offset).2

/-- The boundary of a text at exactly `offset`. -/
def at? (text : List Char) (offset : Nat) : Option Cursor :=
  let c := (ofText text).seek offset
  if c.offset = offset then some c else none

theorem ext_lists {c d : Cursor} (hb : c.before = d.before) (hr : c.rest = d.rest) : c = d := by
  obtain ⟨_, _, _, hc⟩ := c
  obtain ⟨_, _, _, hd⟩ := d
  simp_all

@[simp] theorem text_ofText (text : List Char) : (ofText text).text = text := rfl

theorem next?_eq_none {c : Cursor} : c.next? = none ↔ c.rest = [] := by
  unfold next?
  split <;> simp_all

theorem next?_eq_some {c d : Cursor} {a : Char} :
    c.next? = some (a, d) ↔ c.rest = a :: d.rest ∧ d.before = a :: c.before := by
  unfold next?
  split
  · simp_all
  · rename_i b rest h
    constructor
    · intro e
      obtain ⟨rfl, rfl⟩ := Prod.mk.inj (Option.some.inj e)
      exact ⟨h, rfl⟩
    · rintro ⟨hr, hb⟩
      rw [h] at hr
      obtain ⟨rfl, rfl⟩ := List.cons.inj hr
      exact congrArg some (Prod.ext rfl (ext_lists hb.symm rfl))

theorem text_next? {c d : Cursor} {a : Char} (h : c.next? = some (a, d)) : d.text = c.text := by
  obtain ⟨hr, hb⟩ := next?_eq_some.1 h
  simp [text, hr, hb]

theorem length_next? {c d : Cursor} {a : Char} (h : c.next? = some (a, d)) :
    d.rest.length < c.rest.length := by
  simp [(next?_eq_some.1 h).1]

theorem offset_next? {c d : Cursor} {a : Char} (h : c.next? = some (a, d)) :
    d.offset = c.offset + a.utf8Size := by
  rw [d.offset_eq, c.offset_eq, (next?_eq_some.1 h).2, byteLength_cons, Nat.add_comm]

theorem prev?_eq_some {c d : Cursor} {a : Char} : c.prev? = some (a, d) ↔ d.next? = some (a, c) := by
  rw [next?_eq_some]
  unfold prev?
  split
  · simp_all
  · rename_i b before h
    constructor
    · intro e
      obtain ⟨rfl, rfl⟩ := Prod.mk.inj (Option.some.inj e)
      exact ⟨rfl, h⟩
    · rintro ⟨hr, hb⟩
      rw [h] at hb
      obtain ⟨rfl, rfl⟩ := List.cons.inj hb
      exact congrArg some (Prod.ext rfl (ext_lists rfl hr.symm))

theorem text_prev? {c d : Cursor} {a : Char} (h : c.prev? = some (a, d)) : d.text = c.text :=
  (text_next? (prev?_eq_some.1 h)).symm

theorem rest_cut (c : Cursor) (offset : Nat) :
    (c.cut offset).1 ++ (c.cut offset).2.rest = c.rest :=
  splitBytes_append _ _

theorem before_cut (c : Cursor) (offset : Nat) :
    (c.cut offset).2.before = (c.cut offset).1.reverse ++ c.before := rfl

theorem text_cut (c : Cursor) (offset : Nat) : (c.cut offset).2.text = c.text := by
  rw [text, before_cut, List.reverse_append, List.reverse_reverse, List.append_assoc, rest_cut, text]

theorem length_cut (c : Cursor) (offset : Nat) : (c.cut offset).2.rest.length ≤ c.rest.length :=
  length_splitBytes _ _

theorem text_seek (c : Cursor) (offset : Nat) : (c.seek offset).text = c.text :=
  text_cut c offset

end Cursor

end Highlight
