import Highlight.Proofs.Text.Line
import Highlight.Proofs.Text.Utf8

/-!
# Places and positions

A place tells a line and a column, and from these the position of the byte can be told again. The lines are gone through
with a count of those that are passed: what this finds is a line of the list with the bytes before it
(`placeIn?_eq_some_iff`). All lines but the last end with their only newline (`isFullLine_of_lines_eq`), so the lines
before a place are as many as the newline bytes before its position (`count_newline_take`).

`place?_spec` says where each byte of a text lies (`Locates`), and that later bytes lie in later lines or columns.
-/

namespace Highlight

/-! ## Going through lines -/

/-- **What is found in a list of lines** is one of them, at as many lines and bytes from the first as lie between. -/
theorem placeIn?_eq_some_iff {number : Nat} {ls : List (List Char)} {position : Nat} {p : Place} :
    placeIn? number ls position = some p ↔
      ∃ before after, ls = before ++ p.text :: after ∧ p.line = number + before.length ∧
        position = byteLength before.flatten + p.column ∧ p.column < byteLength p.text := by
  induction ls generalizing number position with
  | nil =>
    rw [placeIn?]
    constructor
    · intro h
      cases h
    · rintro ⟨before, after, hnil, -⟩
      simp at hnil
  | cons line more ih =>
    rw [placeIn?]
    by_cases hlt : position < byteLength line
    · rw [if_pos hlt]
      constructor
      · rintro ⟨⟩
        exact ⟨[], more, rfl, rfl, (Nat.zero_add _).symm, hlt⟩
      · rintro ⟨before, after, hsplit, hline, hposition, hcolumn⟩
        obtain ⟨number', text, column⟩ := p
        cases before with
        | nil =>
          obtain ⟨rfl, -⟩ := List.cons.inj hsplit
          simp at hline hposition
          rw [hline, hposition]
        | cons first before =>
          obtain ⟨rfl, -⟩ := List.cons.inj hsplit
          rw [List.flatten_cons, byteLength_append] at hposition
          omega
    · rw [if_neg hlt, ih]
      constructor
      · rintro ⟨before, after, rfl, hline, hposition, hcolumn⟩
        refine ⟨line :: before, after, rfl, ?_, ?_, hcolumn⟩
        · rw [hline, List.length_cons]
          omega
        · rw [List.flatten_cons, byteLength_append]
          omega
      · rintro ⟨before, after, hsplit, hline, hposition, hcolumn⟩
        cases before with
        | nil =>
          obtain ⟨rfl, -⟩ := List.cons.inj hsplit
          simp at hposition
          omega
        | cons first before =>
          obtain ⟨rfl, hmore⟩ := List.cons.inj hsplit
          rw [List.length_cons] at hline
          rw [List.flatten_cons, byteLength_append] at hposition
          exact ⟨before, after, hmore, by omega, by omega, hcolumn⟩

/-! ## What a line is -/

/-- A newline ends the line, and there is no other in it. -/
def IsFullLine (line : List Char) : Prop :=
  ∃ body, '\n' ∉ body ∧ line = body ++ ['\n']

theorem splitLine_cases (cs : List Char) :
    IsFullLine (splitLine cs).1 ∨ '\n' ∉ (splitLine cs).1 ∧ (splitLine cs).2 = [] := by
  induction cs with
  | nil => exact Or.inr ⟨List.not_mem_nil, rfl⟩
  | cons c cs ih =>
    by_cases hc : c = '\n'
    · left
      rw [splitLine, if_pos hc]
      exact ⟨[], List.not_mem_nil, rfl⟩
    · rw [splitLine, if_neg hc]
      rcases ih with ⟨body, hbody, hline⟩ | ⟨hline, hleft⟩
      · left
        refine ⟨c :: body, ?_, congrArg (c :: ·) hline⟩
        exact List.not_mem_cons_of_ne_of_not_mem (Ne.symm hc) hbody
      · right
        exact ⟨List.not_mem_cons_of_ne_of_not_mem (Ne.symm hc) hline, hleft⟩

/-- **All lines but the last end with their only newline**, and the last one has no other. -/
theorem isFullLine_of_lines_eq {text line : List Char} {before after : List (List Char)}
    (h : lines text = before ++ line :: after) :
    (∀ l ∈ before, IsFullLine l) ∧ (IsFullLine line ∨ '\n' ∉ line ∧ after = []) := by
  fun_induction lines text generalizing before with
  | case1 => simp at h
  | case2 c cs ih =>
    have hfirst := splitLine_cases (c :: cs)
    cases before with
    | nil =>
      obtain ⟨rfl, rfl⟩ := List.cons.inj h
      refine ⟨List.forall_mem_nil _, hfirst.imp id fun hlast => ⟨hlast.1, ?_⟩⟩
      rw [hlast.2, lines_nil]
    | cons first before =>
      obtain ⟨rfl, hmore⟩ := List.cons.inj h
      obtain ⟨hbefore, hline⟩ := ih hmore
      refine ⟨List.forall_mem_cons.2 ⟨?_, hbefore⟩, hline⟩
      rcases hfirst with hfull | ⟨-, hleft⟩
      · exact hfull
      · rw [hleft, lines_nil] at hmore
        simp at hmore

/-! ## Newline bytes -/

theorem count_newline_utf8EncodeChar (c : Char) :
    (String.utf8EncodeChar c).count 0x0A = if c = '\n' then 1 else 0 := by
  by_cases hc : c = '\n'
  · rw [if_pos hc, hc]
    decide
  · rw [if_neg hc, List.count_eq_zero]
    intro hmem
    by_cases hascii : c.toNat < 0x80
    · rw [utf8EncodeChar_of_ascii hascii, List.mem_singleton, ← UInt8.toNat_inj, UInt8.toNat_ofNat'] at hmem
      have hnewline : c.toNat = '\n'.toNat := by
        have hvalue : (0x0A : UInt8).toNat = '\n'.toNat := rfl
        omega
      exact hc (Char.toNat_inj.1 hnewline)
    · have hle := le_of_mem_utf8EncodeChar (Nat.not_lt.1 hascii) _ hmem
      exact absurd hle (by decide)

theorem count_newline_flatMap (cs : List Char) :
    (cs.flatMap String.utf8EncodeChar).count 0x0A = cs.count '\n' := by
  induction cs with
  | nil => rfl
  | cons c cs ih =>
    rw [List.flatMap_cons, List.count_append, ih, count_newline_utf8EncodeChar, List.count_cons, Nat.add_comm]
    simp only [beq_iff_eq]

theorem count_newline_flatten {ls : List (List Char)} (h : ∀ l ∈ ls, IsFullLine l) :
    ls.flatten.count '\n' = ls.length := by
  induction ls with
  | nil => rfl
  | cons l ls ih =>
    obtain ⟨⟨body, hbody, rfl⟩, hls⟩ := List.forall_mem_cons.1 h
    rw [List.flatten_cons, List.count_append, List.count_append, List.count_eq_zero.2 hbody, ih hls,
      List.length_cons, List.count_singleton_self]
    omega

theorem count_newline_take_of_lt {line : List Char} (h : IsFullLine line ∨ '\n' ∉ line) {n : Nat}
    (hn : n < byteLength line) : ((line.flatMap String.utf8EncodeChar).take n).count 0x0A = 0 := by
  have hnone : ∀ body : List Char, '\n' ∉ body →
      ((body.flatMap String.utf8EncodeChar).take n).count 0x0A = 0 := by
    intro body hbody
    rw [List.count_eq_zero]
    intro hmem
    have hcount := count_newline_flatMap body
    rw [List.count_eq_zero.2 hbody, List.count_eq_zero] at hcount
    exact hcount (List.mem_of_mem_take hmem)
  rcases h with ⟨body, hbody, rfl⟩ | hline
  · have hle : n ≤ (body.flatMap String.utf8EncodeChar).length := by
      rw [byteLength_append] at hn
      rw [length_flatMap_utf8EncodeChar]
      exact Nat.le_of_lt_succ hn
    rw [List.flatMap_append, List.take_append_of_le_length hle]
    exact hnone body hbody
  · exact hnone line hline

/-- **The newline bytes before a position** are as many as the lines before its line. -/
theorem count_newline_take {text line : List Char} {before after : List (List Char)}
    (h : lines text = before ++ line :: after) {column : Nat} (hcolumn : column < byteLength line) :
    ((text.flatMap String.utf8EncodeChar).take (byteLength before.flatten + column)).count 0x0A =
      before.length := by
  obtain ⟨hbefore, hline⟩ := isFullLine_of_lines_eq h
  have htext : text = before.flatten ++ (line ++ after.flatten) := by
    rw [← flatten_lines text, h, List.flatten_append, List.flatten_cons]
  have hle : column ≤ (line.flatMap String.utf8EncodeChar).length := by
    rw [length_flatMap_utf8EncodeChar]
    exact Nat.le_of_lt hcolumn
  rw [htext, List.flatMap_append, List.flatMap_append, ← length_flatMap_utf8EncodeChar,
    List.take_length_add_append, List.take_append_of_le_length hle, List.count_append, count_newline_flatMap,
    count_newline_flatten hbefore, count_newline_take_of_lt (hline.imp id And.left) hcolumn, Nat.add_zero]

/-! ## Where a byte lies -/

/-- The byte at a position of the text lies at the place. -/
structure Locates (source : String) (position : Nat) (p : Place) : Prop where
  /-- One more than the newline bytes before the position. -/
  line_eq : p.line = 1 + ((utf8Bytes source).take position).count 0x0A
  /-- The line of that number. -/
  text_eq : (lines source.toList)[p.line - 1]? = some p.text
  /-- The bytes of the lines before it, and those of the line before the position. -/
  position_eq : position = byteLength ((lines source.toList).take (p.line - 1)).flatten + p.column
  column_lt : p.column < byteLength p.text
  /-- The line begins where the text begins or a line ends, and it ends with a newline or where the text ends. -/
  whole : ∃ before after, source.toList = before ++ p.text ++ after ∧
    byteLength before = position - p.column ∧ (before = [] ∨ before.getLast? = some '\n') ∧
    '\n' ∉ p.text.dropLast ∧ (p.text.getLast? = some '\n' ∨ after = [])

theorem getLast?_flatten_of_isFullLine {ls : List (List Char)} (h : ∀ l ∈ ls, IsFullLine l) :
    ls.flatten = [] ∨ ls.flatten.getLast? = some '\n' := by
  rcases ls.eq_nil_or_concat with rfl | ⟨ls, l, rfl⟩
  · exact Or.inl rfl
  · obtain ⟨body, -, rfl⟩ := h l (by simp)
    right
    rw [List.concat_eq_append, List.flatten_append, List.flatten_singleton, ← List.append_assoc]
    exact List.getLast?_concat

theorem Locates.of_lines_eq {source : String} {p : Place} {before after : List (List Char)}
    (h : lines source.toList = before ++ p.text :: after) (hline : p.line = 1 + before.length)
    (hcolumn : p.column < byteLength p.text) :
    Locates source (byteLength before.flatten + p.column) p := by
  obtain ⟨hbefore, hfull⟩ := isFullLine_of_lines_eq h
  have hindex : p.line - 1 = before.length := by omega
  refine ⟨?_, ?_, ?_, hcolumn, before.flatten, after.flatten, ?_, ?_, ?_, ?_, ?_⟩
  · rw [utf8Bytes_eq, count_newline_take h hcolumn, hline]
  · rw [h, hindex, List.getElem?_append_right (Nat.le_refl _), Nat.sub_self]
    rfl
  · rw [h, hindex, List.take_left]
  · rw [← flatten_lines source.toList, h, List.flatten_append, List.flatten_cons, List.append_assoc]
  · rw [Nat.add_sub_cancel]
  · exact getLast?_flatten_of_isFullLine hbefore
  · rcases hfull with ⟨body, hbody, heq⟩ | ⟨hnone, -⟩
    · rw [heq, List.dropLast_concat]
      exact hbody
    · exact fun hmem => hnone (List.dropLast_subset _ hmem)
  · rcases hfull with ⟨body, -, heq⟩ | ⟨-, hafter⟩
    · left
      rw [heq]
      exact List.getLast?_concat
    · right
      rw [hafter]
      rfl

/-- **A place is found exactly if the byte lies there.** -/
theorem place?_eq_some_iff {source : String} {position : Nat} {p : Place} :
    place? source.toList position = some p ↔ Locates source position p := by
  rw [place?, placeIn?_eq_some_iff]
  constructor
  · rintro ⟨before, after, hlines, hline, rfl, hcolumn⟩
    exact .of_lines_eq hlines hline hcolumn
  · intro h
    obtain ⟨hindex, htext⟩ := List.getElem?_eq_some_iff.1 h.text_eq
    refine ⟨(lines source.toList).take (p.line - 1), (lines source.toList).drop (p.line - 1 + 1), ?_, ?_,
      h.position_eq, h.column_lt⟩
    · rw [← htext, ← List.drop_eq_getElem_cons hindex, List.take_append_drop]
    · have hline := h.line_eq
      rw [List.length_take_of_le (Nat.le_of_lt hindex)]
      omega

/-! ## The order of places -/

theorem byteLength_flatten_take_le {ls : List (List Char)} {line : List Char} {k m : Nat}
    (hline : ls[k]? = some line) (hlt : k < m) :
    byteLength (ls.take k).flatten + byteLength line ≤ byteLength (ls.take m).flatten := by
  obtain ⟨more, hmore⟩ := List.take_prefix_take_left (l := ls) (Nat.succ_le_of_lt hlt)
  rw [← hmore, List.take_add_one, hline, List.flatten_append, List.flatten_append, byteLength_append,
    byteLength_append]
  simp only [Option.toList_some, List.flatten_singleton]
  omega

section

variable {source : String} {i j : Nat} {p q : Place}

theorem Locates.lt_of_line_lt (hp : Locates source i p) (hq : Locates source j q) (hlt : p.line < q.line) :
    i < j := by
  have hpline := hp.line_eq
  have hle := byteLength_flatten_take_le hp.text_eq (show p.line - 1 < q.line - 1 by omega)
  have hi := hp.position_eq
  have hj := hq.position_eq
  have hcolumn := hp.column_lt
  omega

/-- **Later bytes lie in later lines**, or in later columns of one line. -/
theorem Locates.lt_iff (hp : Locates source i p) (hq : Locates source j q) :
    i < j ↔ p.line < q.line ∨ p.line = q.line ∧ p.column < q.column := by
  have hi := hp.position_eq
  have hj := hq.position_eq
  rcases Nat.lt_trichotomy p.line q.line with hlt | heq | hgt
  · have hij := hp.lt_of_line_lt hq hlt
    exact iff_of_true hij (Or.inl hlt)
  · rw [heq] at hi
    omega
  · have hji := hq.lt_of_line_lt hp hgt
    omega

theorem Locates.eq_of_eq (hp : Locates source i p) (hq : Locates source j q) (hline : p.line = q.line)
    (hcolumn : p.column = q.column) : i = j := by
  rw [hp.position_eq, hq.position_eq, hline, hcolumn]

end

/-- **The place of a byte inverts its position.** Each byte of a text lies at one place, no other position has a
place, and the places are in the order of the bytes, by lines and then by columns, without two of them being the
same. -/
theorem place?_spec (source : String) :
    (∀ position, place? source.toList position = none ↔ (utf8Bytes source).length ≤ position) ∧
      (∀ position p, place? source.toList position = some p ↔ Locates source position p) ∧
      ∀ i j p q, place? source.toList i = some p → place? source.toList j = some q →
        (i < j ↔ p.line < q.line ∨ p.line = q.line ∧ p.column < q.column) ∧
          (p.line = q.line → p.column = q.column → i = j) := by
  refine ⟨fun position => ?_, fun _ _ => place?_eq_some_iff, fun i j p q hp hq => ?_⟩
  · rw [place?_eq_none_iff, utf8Bytes_eq, length_flatMap_utf8EncodeChar]
  · rw [place?_eq_some_iff] at hp hq
    exact ⟨hp.lt_iff hq, hp.eq_of_eq hq⟩

/-- In a text of an `é`, a newline, an empty line and a `t` the second byte is within the first character, and the last
one is the first byte of the third line. -/
theorem place?_spec_demo :
    place? "é\n\nt".toList 1 = some ⟨1, ['é', '\n'], 1⟩ ∧ place? "é\n\nt".toList 4 = some ⟨3, ['t'], 0⟩ ∧
      Locates "é\n\nt" 4 ⟨3, ['t'], 0⟩ ∧
      (1 < 4 ↔ 1 < 3 ∨ 1 = 3 ∧ 1 < 0) := by
  obtain ⟨-, hplace, horder⟩ := place?_spec "é\n\nt"
  have hfirst : place? "é\n\nt".toList 1 = some ⟨1, ['é', '\n'], 1⟩ := by decide +kernel
  have hlast : place? "é\n\nt".toList 4 = some ⟨3, ['t'], 0⟩ := by decide +kernel
  exact ⟨hfirst, hlast, (hplace 4 _).1 hlast, (horder 1 4 _ _ hfirst hlast).1⟩

end Highlight
