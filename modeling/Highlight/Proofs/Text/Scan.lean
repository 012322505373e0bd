import Highlight.Proofs.Text.Cursor

/-!
# Moving over characters

`Cursor.over?` moves over the next character if it has a property, and `Cursor.skip` over the longest run of
characters that have it.
-/

namespace Highlight.Cursor

/-- The position behind the next character, if that has the property. -/
def over? (p : Char → Bool) (c : Cursor) : Option Cursor :=
  match c.next? with
  | none => none
  | some (a, d) => if p a then some d else none

variable {p : Char → Bool} {c d : Cursor} {a : Char}

theorem over?_of_end (h : c.next? = none) : c.over? p = none := by
  rw [over?, h]

theorem over?_of_next (h : c.next? = some (a, d)) : c.over? p = if p a then some d else none := by
  rw [over?, h]

theorem over?_eq_some_iff : c.over? p = some d ↔ ∃ a, c.next? = some (a, d) ∧ p a = true := by
  cases hnext : c.next? with
  | none =>
    rw [over?_of_end hnext]
    exact ⟨nofun, fun ⟨_, h, _⟩ => nomatch h⟩
  | some next =>
    obtain ⟨b, e⟩ := next
    rw [over?_of_next hnext, Option.ite_none_right_eq_some, Option.some_inj]
    constructor
    · rintro ⟨hb, rfl⟩
      exact ⟨b, rfl, hb⟩
    · rintro ⟨_, heq, ha⟩
      obtain ⟨rfl, rfl⟩ := Prod.mk.inj (Option.some.inj heq)
      exact ⟨ha, rfl⟩

theorem over?_eq_none_of_over? {q : Char → Bool} (hpq : ∀ a, p a = true → q a = false)
    (h : c.over? p = some d) : c.over? q = none := by
  obtain ⟨a, hnext, ha⟩ := over?_eq_some_iff.1 h
  rw [over?_of_next hnext, hpq a ha, if_neg Bool.false_ne_true]

theorem precedes_over? (h : c.over? p = some d) : c.Precedes d := by
  obtain ⟨a, hnext, -⟩ := over?_eq_some_iff.1 h
  exact precedes_next? hnext

theorem offset_lt_over? (h : c.over? p = some d) : c.offset < d.offset := by
  obtain ⟨a, hnext, -⟩ := over?_eq_some_iff.1 h
  rw [offset_next? hnext]
  exact Nat.lt_add_of_pos_right a.utf8Size_pos

theorem precedes_iff_of_next? {q : Cursor} (h : c.next? = some (a, d)) :
    d.Precedes q ↔ q.text = c.text ∧ c.offset < q.offset := by
  have ha := a.utf8Size_pos
  have hoffset := offset_next? h
  constructor
  · intro hdq
    have hle := hdq.offset_le
    exact ⟨hdq.text_eq.trans (text_next? h), by omega⟩
  · rintro ⟨ht, hlt⟩
    rcases (precedes_of_offset_le ht.symm (Nat.le_of_lt hlt)).eq_or_next? with rfl | ⟨a', d', hd', hdq⟩
    · exact absurd hlt (Nat.lt_irrefl _)
    · obtain ⟨rfl, rfl⟩ := Prod.mk.inj (Option.some.inj (h.symm.trans hd'))
      exact hdq

/-- Moves over the longest run of at most `n` characters that have the property. -/
def skipUpTo (p : Char → Bool) : Nat → Cursor → Cursor
  | 0, c => c
  | n + 1, c =>
    match c.over? p with
    | none => c
    | some d => skipUpTo p n d

/-- Moves over the longest run of characters that have the property. -/
def skip (p : Char → Bool) (c : Cursor) : Cursor :=
  skipUpTo p c.rest.length c

theorem skip_of_over?_eq_none (h : c.over? p = none) : c.skip p = c := by
  rw [skip]
  cases c.rest.length with
  | zero => rfl
  | succ n => rw [skipUpTo, h]

theorem skip_of_over? (h : c.over? p = some d) : c.skip p = d.skip p := by
  obtain ⟨a, hnext, -⟩ := over?_eq_some_iff.1 h
  rw [skip, (next?_eq_some.1 hnext).1, List.length_cons, skipUpTo, h]
  rfl

theorem precedes_skipUpTo (p : Char → Bool) (n : Nat) (c : Cursor) : c.Precedes (skipUpTo p n c) := by
  induction n generalizing c with
  | zero => exact .refl c
  | succ n ih =>
    rw [skipUpTo]
    split
    · exact .refl c
    · next d hd => exact (precedes_over? hd).trans (ih d)

theorem skip_eq_self_iff : c.skip p = c ↔ c.over? p = none := by
  refine ⟨fun hskip => ?_, skip_of_over?_eq_none⟩
  cases hover : c.over? p with
  | none => rfl
  | some d =>
    have hlt := offset_lt_over? hover
    have hle := (precedes_skipUpTo p d.rest.length d).offset_le
    rw [skip_of_over? hover, skip] at hskip
    rw [hskip] at hle
    omega

end Highlight.Cursor
