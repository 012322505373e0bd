import Mathlib.Data.List.TakeWhile
import Highlight.Proofs.Text.Cursor
import Highlight.Text.Line

/-!
# Lines and columns

The line of a place is told by the newlines before it, and its column by the characters behind the last of them. Going
over the lines one by one finds the same place (`exists_place?`).
-/

namespace Highlight

theorem splitLine_append_newline {cs : List Char} (h : '\n' ∉ cs) (ds : List Char) :
    splitLine (cs ++ '\n' :: ds) = (cs ++ ['\n'], ds) := by
  induction cs with
  | nil => rfl
  | cons c cs ih =>
    obtain ⟨hc, hcs⟩ := not_or.1 (mt List.mem_cons.2 h)
    rw [List.cons_append, splitLine, if_neg (Ne.symm hc), ih hcs]
    rfl

theorem splitLine_append_of_not_mem {cs : List Char} (h : '\n' ∉ cs) (ds : List Char) :
    splitLine (cs ++ ds) = (cs ++ (splitLine ds).1, (splitLine ds).2) := by
  induction cs with
  | nil => rfl
  | cons c cs ih =>
    obtain ⟨hc, hcs⟩ := not_or.1 (mt List.mem_cons.2 h)
    rw [List.cons_append, splitLine, if_neg (Ne.symm hc), ih hcs]
    rfl

theorem lines_of_ne_nil {cs : List Char} (h : cs ≠ []) :
    lines cs = (splitLine cs).1 :: lines (splitLine cs).2 := by
  obtain ⟨c, cs, rfl⟩ := List.exists_cons_of_ne_nil h
  exact lines_cons c cs

/-- The characters of a text behind its last newline. -/
def lastLine (cs : List Char) : List Char :=
  (cs.reverse.takeWhile (· ≠ '\n')).reverse

theorem lastLine_of_not_mem {cs : List Char} (h : '\n' ∉ cs) : lastLine cs = cs := by
  have hall : ∀ c ∈ cs.reverse, decide (c ≠ '\n') = true := by
    intro c hc
    rw [decide_eq_true_eq]
    rintro rfl
    exact h (List.mem_reverse.1 hc)
  rw [lastLine, List.takeWhile_eq_self_iff.2 hall, List.reverse_reverse]

theorem lastLine_append_newline (cs ds : List Char) :
    lastLine (cs ++ '\n' :: ds) = lastLine ds := by
  rw [lastLine, lastLine, List.reverse_append, List.reverse_cons, List.append_assoc,
    List.takeWhile_append]
  split
  · next h =>
    rw [(List.takeWhile_prefix _).eq_of_length h]
    simp
  · rfl

theorem exists_placeIn? (number : Nat) (before : List Char) (c : Char) (after : List Char) :
    ∃ text, placeIn? number (lines (before ++ c :: after)) (byteLength before) =
      some ⟨number + before.count '\n', text, byteLength (lastLine before)⟩ := by
  have hc := c.utf8Size_pos
  induction hlen : before.length using Nat.strongRecOn generalizing number before with
  | ind n ih =>
    have hne : before ++ c :: after ≠ [] := by simp
    by_cases hmem : '\n' ∈ before
    · -- the first line ends before the place
      obtain ⟨line, more, rfl, hline⟩ := List.eq_append_cons_of_mem hmem
      obtain ⟨text, htext⟩ := ih more.length (by simp at hlen; omega) (number + 1) more rfl
      refine ⟨text, ?_⟩
      have hlength : byteLength (line ++ '\n' :: more) = byteLength (line ++ ['\n']) + byteLength more := by
        simp only [byteLength_append, byteLength_cons, byteLength_nil]
        omega
      have hcount : (line ++ '\n' :: more).count '\n' = 1 + more.count '\n' := by
        rw [List.count_append, List.count_eq_zero.2 hline, List.count_cons_self]
        omega
      rw [lines_of_ne_nil hne, List.append_assoc, List.cons_append, splitLine_append_newline hline,
        placeIn?]
      dsimp only
      rw [hlength, if_neg (by omega), Nat.add_sub_cancel_left, htext, hcount,
        lastLine_append_newline, Nat.add_assoc]
    · -- the place is in the first line
      have hlt : byteLength before < byteLength (before ++ (splitLine (c :: after)).1) := by
        rw [byteLength_append]
        have hfirst : (splitLine (c :: after)).1 ≠ [] := by
          rw [splitLine]
          split <;> simp
        have hpos := byteLength_pos.2 hfirst
        omega
      refine ⟨before ++ (splitLine (c :: after)).1, ?_⟩
      rw [lines_of_ne_nil hne, splitLine_append_of_not_mem hmem, placeIn?, if_pos hlt,
        List.count_eq_zero.2 hmem, lastLine_of_not_mem hmem, Nat.add_zero]

/-- **The place of a character** is told by what is before it. -/
theorem exists_place? (before : List Char) (c : Char) (after : List Char) :
    ∃ text, place? (before ++ c :: after) (byteLength before) =
      some ⟨1 + before.count '\n', text, byteLength (lastLine before)⟩ :=
  exists_placeIn? 1 before c after

end Highlight
