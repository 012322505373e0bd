import Highlight.Text.Cursor

/-!
# The order of positions

The cursors of a text are ordered by their offsets, and moving forward is the only way to get from one to a later one.

* `Precedes c d`: the characters between `c` and `d` are given. For cursors of one text this says that the offset of
  `c` is at most that of `d` (`precedes_of_offset_le`).
* `eq_of_offset_eq`: a text has one cursor at an offset.
* `Precedes.eq_or_next?`: the induction step along a text.
* `cut_of_precedes`: a cut at the offset of a later cursor leads to that cursor.
* `seek_precedes`, `le_offset_seek`: seeking a byte leads to the first boundary at or after it.
* `Holds c n`: the byte `n` is one of the character behind `c`. Each byte of a text is held at one position
  (`exists_holds`, `eq_of_holds`).
-/

namespace Highlight

theorem byteLength_eq_zero {cs : List Char} : byteLength cs = 0 ↔ cs = [] := by
  cases cs with
  | nil => exact ⟨fun _ => rfl, fun _ => rfl⟩
  | cons c cs =>
    have hc := c.utf8Size_pos
    simp only [byteLength_cons, reduceCtorEq, iff_false]
    omega

theorem byteLength_pos {cs : List Char} : 0 < byteLength cs ↔ cs ≠ [] := by
  rw [Nat.pos_iff_ne_zero, ne_eq, byteLength_eq_zero]

theorem exists_append_of_byteLength_le {as bs cs ds : List Char} (h : as ++ bs = cs ++ ds)
    (hle : byteLength as ≤ byteLength cs) : ∃ ms, cs = as ++ ms ∧ bs = ms ++ ds := by
  rcases List.append_eq_append_iff.1 h with ⟨ms, hcs, hbs⟩ | ⟨ms, has, hds⟩
  · exact ⟨ms, hcs, hbs⟩
  · have hms : ms = [] := by
      rw [has, byteLength_append] at hle
      exact byteLength_eq_zero.1 (by omega)
    subst hms
    exact ⟨[], by simpa using has.symm, by simpa using hds.symm⟩

theorem eq_of_byteLength_eq {as bs cs ds : List Char} (h : as ++ bs = cs ++ ds)
    (heq : byteLength as = byteLength cs) : as = cs := by
  obtain ⟨ms, hcs, -⟩ := exists_append_of_byteLength_le h (Nat.le_of_eq heq)
  have hms : ms = [] := by
    rw [hcs, byteLength_append] at heq
    exact byteLength_eq_zero.1 (by omega)
  rw [hcs, hms, List.append_nil]

theorem splitBytes_byteLength (cs ds : List Char) :
    splitBytes (byteLength cs) (cs ++ ds) = (cs, ds) := by
  induction cs with
  | nil => exact splitBytes_zero ds
  | cons c cs ih =>
    have hc := c.utf8Size_pos
    have hne : c.utf8Size + byteLength cs ≠ 0 := by omega
    rw [byteLength_cons, List.cons_append, splitBytes, if_neg hne, Nat.add_sub_cancel_left, ih]

theorem le_byteLength_splitBytes (n : Nat) (cs : List Char) :
    n ≤ byteLength (splitBytes n cs).1 ∨ (splitBytes n cs).2 = [] := by
  induction cs generalizing n with
  | nil => exact Or.inr rfl
  | cons c cs ih =>
    rw [splitBytes]
    split
    · next h => exact Or.inl (by omega)
    · rcases ih (n - c.utf8Size) with h | h
      · exact Or.inl (by simp only [byteLength_cons]; omega)
      · exact Or.inr h

theorem byteLength_splitBytes_le {n : Nat} {as : List Char} (bs : List Char) (h : n ≤ byteLength as) :
    byteLength (splitBytes n (as ++ bs)).1 ≤ byteLength as := by
  induction as generalizing n with
  | nil =>
    obtain rfl := Nat.le_zero.1 h
    exact Nat.le_of_eq (congrArg (byteLength ∘ Prod.fst) (splitBytes_zero bs))
  | cons a as ih =>
    rw [byteLength_cons] at h ⊢
    rw [List.cons_append, splitBytes]
    split
    · exact Nat.zero_le _
    · have hmore := ih (n := n - a.utf8Size) (by omega)
      simp only [byteLength_cons]
      omega

namespace Cursor

theorem offset_of_before {c d : Cursor} {v : List Char} (h : d.before = v.reverse ++ c.before) :
    d.offset = c.offset + byteLength v := by
  rw [d.offset_eq, h, byteLength_append, byteLength_reverse, ← c.offset_eq, Nat.add_comm]

/-- Moving forward from `c` leads to `d`. -/
def Precedes (c d : Cursor) : Prop :=
  ∃ cs, c.rest = cs ++ d.rest ∧ d.before = cs.reverse ++ c.before

namespace Precedes

theorem refl (c : Cursor) : c.Precedes c :=
  ⟨[], rfl, rfl⟩

theorem trans {c d e : Cursor} (hcd : c.Precedes d) (hde : d.Precedes e) : c.Precedes e := by
  obtain ⟨cs, hcr, hdb⟩ := hcd
  obtain ⟨ds, hdr, heb⟩ := hde
  exact ⟨cs ++ ds, by rw [hcr, hdr, List.append_assoc], by
    rw [heb, hdb, List.reverse_append, List.append_assoc]⟩

theorem text_eq {c d : Cursor} (h : c.Precedes d) : d.text = c.text := by
  obtain ⟨cs, hr, hb⟩ := h
  simp [text, hr, hb]

theorem offset_le {c d : Cursor} (h : c.Precedes d) : c.offset ≤ d.offset := by
  obtain ⟨cs, -, hb⟩ := h
  rw [offset_of_before hb]
  exact Nat.le_add_right _ _

theorem length_rest_le {c d : Cursor} (h : c.Precedes d) : d.rest.length ≤ c.rest.length := by
  obtain ⟨cs, hr, -⟩ := h
  rw [hr, List.length_append]
  omega

end Precedes

theorem precedes_of_offset_le {c d : Cursor} (ht : c.text = d.text) (ho : c.offset ≤ d.offset) :
    c.Precedes d := by
  have hle : byteLength c.before.reverse ≤ byteLength d.before.reverse := by
    rw [byteLength_reverse, byteLength_reverse, ← c.offset_eq, ← d.offset_eq]
    exact ho
  obtain ⟨ms, hb, hr⟩ := exists_append_of_byteLength_le ht hle
  refine ⟨ms, hr, ?_⟩
  rw [← List.reverse_reverse d.before, hb, List.reverse_append, List.reverse_reverse]

theorem exists_precedes {c : Cursor} {v w : List Char} (h : c.rest = v ++ w) :
    ∃ d, c.Precedes d ∧ d.offset = c.offset + byteLength v :=
  ⟨⟨v.reverse ++ c.before, w, c.offset + byteLength v, by simp [c.offset_eq, Nat.add_comm]⟩,
    ⟨v, h, rfl⟩, rfl⟩

/-- **A text has one cursor at an offset.** -/
theorem eq_of_offset_eq {c d : Cursor} (ht : c.text = d.text) (ho : c.offset = d.offset) :
    c = d := by
  obtain ⟨cs, hr, hb⟩ := precedes_of_offset_le ht (Nat.le_of_eq ho)
  have hcs : byteLength cs = 0 := by
    have hd := offset_of_before hb
    omega
  rw [byteLength_eq_zero.1 hcs] at hr hb
  exact ext_lists hb.symm hr

theorem exists_next? {c : Cursor} {a : Char} {rest : List Char} (h : c.rest = a :: rest) :
    ∃ d, c.next? = some (a, d) ∧ d.rest = rest := by
  unfold next?
  rw [h]
  exact ⟨_, rfl, rfl⟩

theorem precedes_next? {c d : Cursor} {a : Char} (h : c.next? = some (a, d)) : c.Precedes d := by
  obtain ⟨hr, hb⟩ := next?_eq_some.1 h
  exact ⟨[a], hr, hb⟩

theorem Precedes.eq_or_next? {c d : Cursor} (h : c.Precedes d) :
    c = d ∨ ∃ a e, c.next? = some (a, e) ∧ e.Precedes d := by
  obtain ⟨cs, hr, hb⟩ := h
  cases cs with
  | nil => exact Or.inl (ext_lists hb.symm hr)
  | cons a cs =>
    refine Or.inr ⟨a, ⟨a :: c.before, cs ++ d.rest, c.offset + a.utf8Size, ?_⟩, ?_, cs, rfl, ?_⟩
    · rw [byteLength_cons, ← c.offset_eq, Nat.add_comm]
    · exact next?_eq_some.2 ⟨hr, rfl⟩
    · simpa using hb

theorem offset_cut (c : Cursor) (offset : Nat) :
    (c.cut offset).2.offset = c.offset + byteLength (c.cut offset).1 := rfl

theorem le_offset_cut (c : Cursor) (offset : Nat) :
    offset ≤ (c.cut offset).2.offset ∨ (c.cut offset).2.rest = [] := by
  rcases le_byteLength_splitBytes (offset - c.offset) c.rest with h | h
  · exact Or.inl (by rw [offset_cut, cut]; dsimp only; omega)
  · exact Or.inr h

/-- **A cut at the offset of a later cursor leads there**, over the characters between. -/
theorem cut_of_precedes {c d : Cursor} {cs : List Char} (hr : c.rest = cs ++ d.rest)
    (hb : d.before = cs.reverse ++ c.before) : c.cut d.offset = (cs, d) := by
  have hs : splitBytes (d.offset - c.offset) c.rest = (cs, d.rest) := by
    rw [offset_of_before hb, Nat.add_sub_cancel_left, hr, splitBytes_byteLength]
  have h1 : (c.cut d.offset).1 = cs := congrArg Prod.fst hs
  have h2 : (c.cut d.offset).2 = d := by
    refine ext_lists ?_ (congrArg Prod.snd hs)
    rw [before_cut, h1, hb]
  exact Prod.ext h1 h2

theorem precedes_seek (c : Cursor) (offset : Nat) : c.Precedes (c.seek offset) :=
  ⟨(c.cut offset).1, (c.rest_cut offset).symm, c.before_cut offset⟩

theorem seek_precedes {c d : Cursor} {offset : Nat} (h : c.Precedes d) (ho : offset ≤ d.offset) :
    (c.seek offset).Precedes d := by
  obtain ⟨cs, hr, hb⟩ := h
  have hd := offset_of_before hb
  refine precedes_of_offset_le ((text_seek c offset).trans (Precedes.text_eq ⟨cs, hr, hb⟩).symm) ?_
  have hle : byteLength (splitBytes (offset - c.offset) (cs ++ d.rest)).1 ≤ byteLength cs :=
    byteLength_splitBytes_le d.rest (by omega)
  rw [← hr] at hle
  have hseek : (c.seek offset).offset = c.offset + byteLength (splitBytes (offset - c.offset) c.rest).1 := rfl
  omega

theorem le_offset_seek {c : Cursor} {offset : Nat} (h : offset ≤ byteLength c.text) :
    offset ≤ (c.seek offset).offset := by
  rcases c.le_offset_cut offset with hle | hend
  · exact hle
  · -- the text ends before the byte, so the byte is its end
    have htext := text_seek c offset
    rw [text, show (c.seek offset).rest = [] from hend, List.append_nil] at htext
    rw [(c.seek offset).offset_eq, ← byteLength_reverse, htext]
    exact h

theorem seek_precedes_seek {c : Cursor} {m n : Nat} (hmn : m ≤ n) (hn : n ≤ byteLength c.text) :
    (c.seek m).Precedes (c.seek n) :=
  seek_precedes (c.precedes_seek n) (Nat.le_trans hmn (le_offset_seek hn))

/-- The position behind the first part of a text. -/
def behind (before rest : List Char) : Cursor :=
  ⟨before.reverse, rest, byteLength before, (byteLength_reverse before).symm⟩

theorem text_behind (before rest : List Char) : (behind before rest).text = before ++ rest := by
  rw [text, behind, List.reverse_reverse]

theorem next?_behind (before : List Char) (a : Char) (rest : List Char) :
    (behind before (a :: rest)).next? = some (a, behind (before ++ [a]) rest) :=
  next?_eq_some.2 ⟨rfl, List.reverse_append⟩

theorem ofText_precedes (c : Cursor) : (ofText c.text).Precedes c :=
  ⟨c.before.reverse, rfl, by rw [List.reverse_reverse]; exact (List.append_nil _).symm⟩

theorem seek_offset (c : Cursor) : (ofText c.text).seek c.offset = c := by
  obtain ⟨cs, hr, hb⟩ := ofText_precedes c
  rw [seek, cut_of_precedes hr hb]

theorem at?_offset (c : Cursor) : at? c.text c.offset = some c := by
  rw [at?, seek_offset, if_pos rfl]

theorem at?_eq_some_iff {text : List Char} {position : Nat} {c : Cursor} :
    at? text position = some c ↔ c.text = text ∧ c.offset = position := by
  constructor
  · intro h
    obtain ⟨ho, hc⟩ := Option.ite_none_right_eq_some.1 h
    obtain rfl := Option.some.inj hc
    exact ⟨text_seek _ _, ho⟩
  · rintro ⟨rfl, rfl⟩
    exact at?_offset c

theorem offset_le_byteLength_text (c : Cursor) : c.offset ≤ byteLength c.text := by
  rw [text, byteLength_append, byteLength_reverse, ← c.offset_eq]
  exact Nat.le_add_right _ _

theorem exists_append (c : Cursor) :
    ∃ before after, c.text = before ++ after ∧ byteLength before = c.offset :=
  ⟨c.before.reverse, c.rest, rfl, (byteLength_reverse c.before).trans c.offset_eq.symm⟩

/-- The byte `n` of the text is one of the character behind the position. -/
def Holds (c : Cursor) (n : Nat) : Prop :=
  ∃ a d, c.next? = some (a, d) ∧ c.offset ≤ n ∧ n < d.offset

theorem Holds.eq_of_precedes {c d : Cursor} {n : Nat} (hc : c.Holds n) (hd : d.Holds n)
    (h : c.Precedes d) : c = d := by
  rcases h.eq_or_next? with rfl | ⟨a, e, hnext, hed⟩
  · rfl
  · obtain ⟨b, e', hnext', -, hn⟩ := hc
    obtain ⟨-, -, -, hle, -⟩ := hd
    rw [hnext] at hnext'
    cases hnext'
    have hoffset := hed.offset_le
    omega

/-- **A byte belongs to one character.** -/
theorem eq_of_holds {c d : Cursor} {n : Nat} (ht : c.text = d.text) (hc : c.Holds n) (hd : d.Holds n) :
    c = d := by
  rcases Nat.le_total c.offset d.offset with hle | hle
  · exact hc.eq_of_precedes hd (precedes_of_offset_le ht hle)
  · exact (hd.eq_of_precedes hc (precedes_of_offset_le ht.symm hle)).symm

theorem exists_holds {c : Cursor} {n : Nat} (hle : c.offset ≤ n) (hlt : n < c.offset + byteLength c.rest) :
    ∃ d : Cursor, d.text = c.text ∧ d.Holds n := by
  induction hrest : c.rest generalizing c with
  | nil =>
    rw [hrest, byteLength_nil] at hlt
    omega
  | cons a rest ih =>
    obtain ⟨d, hnext, hd⟩ := exists_next? hrest
    by_cases hn : n < d.offset
    · exact ⟨c, rfl, a, d, hnext, hle, hn⟩
    · have hoffset := offset_next? hnext
      rw [hrest, byteLength_cons] at hlt
      obtain ⟨e, htext, he⟩ := ih (Nat.not_lt.1 hn) (by rw [hd]; omega) hd
      exact ⟨e, htext.trans (text_next? hnext), he⟩

end Cursor

end Highlight
