import Mathlib.Logic.Relation
import Highlight.Proofs.Piece.Claim
import Highlight.Proofs.Text.Utf8

/-!
# What block comments are

A block comment is given by a grammar over the bytes of the text: an opening `#=`, a sequence of items, a closing `=#`.
An item is a single byte at which no delimiter begins, or an inner block, which has nothing but such bytes
inside (`IsBlock`). The scanner goes over characters and compares only first bytes. Since the delimiters are ASCII,
none of them begins inside a character, so it finds exactly the blocks of the grammar. `Closes` says what is
left to read in a block; it has one equation for each thing the scanner can meet, and these are its steps
(`closes_iff`).
-/

namespace Highlight

open Relation (ReflTransGen)

/-- The bytes of `#=` -/
def blockOpening : List UInt8 := utf8Bytes "#="

/-- The bytes of `=#` -/
def blockClosing : List UInt8 := utf8Bytes "=#"

section Grammar

variable (bs : List UInt8)

/-- From `i` to `j` there is one byte, at which neither an opening nor a closing begins. -/
def IsSingle (i j : Nat) : Prop :=
  i < bs.length ∧ ¬ blockOpening <+: bs.drop i ∧ ¬ blockClosing <+: bs.drop i ∧ j = i + 1

/-- From `i` to `j` there is a sequence of items and a closing. -/
def Ends (item : Nat → Nat → Prop) (i j : Nat) : Prop :=
  ∃ k, ReflTransGen item i k ∧ blockClosing <+: bs.drop k ∧ j = k + 2

/-- From `i` to `j` there is an opening, a sequence of items, and a closing. -/
def IsDelimited (item : Nat → Nat → Prop) (i j : Nat) : Prop :=
  blockOpening <+: bs.drop i ∧ Ends bs item (i + 2) j

/-- A single byte, or a block with nothing but single bytes inside -/
def IsItem (i j : Nat) : Prop :=
  IsSingle bs i j ∨ IsDelimited bs (IsSingle bs) i j

/-- A block comment: a block in which there may be blocks, but none inside these. -/
def IsBlock (i j : Nat) : Prop :=
  IsDelimited bs (IsItem bs) i j

/-- From `i` to `j` there is the rest of a block. `inner` tells that an inner block is open at `i`. -/
def Closes (inner : Bool) (i j : Nat) : Prop :=
  if inner then ∃ k, Ends bs (IsSingle bs) i k ∧ Ends bs (IsItem bs) k j
  else Ends bs (IsItem bs) i j

end Grammar

variable {bs : List UInt8}

/-! ## The equations of a block -/

theorem not_opening_of_closing {i : Nat} (h : blockClosing <+: bs.drop i) :
    ¬ blockOpening <+: bs.drop i := by
  intro ho
  obtain ⟨us, hus⟩ := h
  obtain ⟨vs, hvs⟩ := ho
  exact absurd (List.cons.inj (hus.trans hvs.symm)).1 (by decide)

section Ends

variable {item : Nat → Nat → Prop} {i j : Nat}

theorem ends_of_closing (h : blockClosing <+: bs.drop i) (hitem : ∀ k, ¬ item i k) :
    Ends bs item i j ↔ j = i + 2 := by
  constructor
  · rintro ⟨k, hrun, -, rfl⟩
    rcases hrun.cases_head with rfl | ⟨m, him, -⟩
    · rfl
    · exact absurd him (hitem m)
  · rintro rfl
    exact ⟨i, .refl, h, rfl⟩

theorem ends_of_not_closing (h : ¬ blockClosing <+: bs.drop i) :
    Ends bs item i j ↔ ∃ k, item i k ∧ Ends bs item k j := by
  constructor
  · rintro ⟨k, hrun, hc, rfl⟩
    rcases hrun.cases_head with rfl | ⟨m, him, hmk⟩
    · exact absurd hc h
    · exact ⟨m, him, k, hmk, hc, rfl⟩
  · rintro ⟨m, him, k, hmk, hc, rfl⟩
    exact ⟨k, .head him hmk, hc, rfl⟩

end Ends

variable {i j : Nat}

theorem isSingle_iff (h : IsSingle bs i (i + 1)) (k : Nat) : IsSingle bs i k ↔ k = i + 1 := by
  constructor
  · exact fun hk => hk.2.2.2
  · rintro rfl
    exact h

theorem isItem_of_opening (h : blockOpening <+: bs.drop i) (k : Nat) :
    IsItem bs i k ↔ Ends bs (IsSingle bs) (i + 2) k := by
  constructor
  · rintro (hs | hd)
    · exact absurd h hs.2.1
    · exact hd.2
  · exact fun hk => Or.inr ⟨h, hk⟩

theorem isItem_of_not_opening (h : ¬ blockOpening <+: bs.drop i) (k : Nat) :
    IsItem bs i k ↔ IsSingle bs i k := by
  constructor
  · rintro (hs | hd)
    · exact hs
    · exact absurd hd.1 h
  · exact Or.inl

theorem closes_of_closing (h : blockClosing <+: bs.drop i) (inner : Bool) :
    Closes bs inner i j ↔ if inner then Closes bs false (i + 2) j else j = i + 2 := by
  have hsingle : ∀ k, ¬ IsSingle bs i k := fun k hk => hk.2.2.1 h
  have hitem : ∀ k, ¬ IsItem bs i k := fun k hk =>
    hsingle k ((isItem_of_not_opening (not_opening_of_closing h) k).1 hk)
  cases inner with
  | false => exact ends_of_closing h hitem
  | true =>
    simp only [Closes, if_true, ends_of_closing h hsingle, exists_eq_left, Bool.false_eq_true,
      if_false]

theorem closes_of_opening (h : blockOpening <+: bs.drop i) (inner : Bool) :
    Closes bs inner i j ↔ inner = false ∧ Closes bs true (i + 2) j := by
  have hclosing : ¬ blockClosing <+: bs.drop i := fun hc => not_opening_of_closing hc h
  cases inner with
  | false =>
    simp only [Closes, if_true, Bool.false_eq_true, if_false, true_and,
      ends_of_not_closing hclosing, isItem_of_opening h]
  | true =>
    have hsingle : ∀ k, ¬ IsSingle bs i k := fun k hk => hk.2.1 h
    simp only [Closes, if_true, Bool.true_eq_false, false_and,
      ends_of_not_closing hclosing, hsingle, exists_false]

theorem closes_of_single (h : IsSingle bs i (i + 1)) (inner : Bool) :
    Closes bs inner i j ↔ Closes bs inner (i + 1) j := by
  have hend : ∀ item k, (∀ m, item i m ↔ m = i + 1) →
      (Ends bs item i k ↔ Ends bs item (i + 1) k) := by
    intro item k hitem
    simp only [ends_of_not_closing h.2.2.1, hitem, exists_eq_left]
  have hitem : ∀ k, IsItem bs i k ↔ k = i + 1 := fun k =>
    (isItem_of_not_opening h.2.1 k).trans (isSingle_iff h k)
  cases inner with
  | false => exact hend _ j hitem
  | true => simp only [Closes, if_true, hend _ _ (isSingle_iff h)]

theorem not_closes_of_end (h : bs.drop i = []) (inner : Bool) : ¬ Closes bs inner i j := by
  have hi : bs.length ≤ i := List.drop_eq_nil_iff.1 h
  have hclosing : ¬ blockClosing <+: bs.drop i := by
    rw [h]
    decide
  have hopening : ¬ blockOpening <+: bs.drop i := by
    rw [h]
    decide
  have hsingle : ∀ k, ¬ IsSingle bs i k := fun k hk => absurd hk.1 (Nat.not_lt.2 hi)
  cases inner with
  | false =>
    simp only [Closes, Bool.false_eq_true, if_false, ends_of_not_closing hclosing,
      isItem_of_not_opening hopening, hsingle, false_and, exists_false, not_false_eq_true]
  | true =>
    simp only [Closes, if_true, ends_of_not_closing hclosing, hsingle, false_and, exists_false,
      not_false_eq_true]

/-! ## The scanner -/

theorem prefix_drop_iff (ds : List Char) {cs : List Char}
    (h : bs.drop i = cs.flatMap String.utf8EncodeChar) :
    ds.flatMap String.utf8EncodeChar <+: bs.drop i ↔ ds <+: cs := by
  rw [h, flatMap_utf8EncodeChar_prefix]

theorem drop_byteLength (ds : List Char) {cs : List Char}
    (h : bs.drop i = (ds ++ cs).flatMap String.utf8EncodeChar) :
    bs.drop (i + byteLength ds) = cs.flatMap String.utf8EncodeChar := by
  rw [← List.drop_drop, h, List.flatMap_append, ← length_flatMap_utf8EncodeChar, List.drop_left]

theorem isSingle_of_le {b : UInt8} (h : bs[i]? = some b) (hb : 0x80 ≤ b.toNat) :
    IsSingle bs i (i + 1) := by
  obtain ⟨hi, hbi⟩ := List.getElem?_eq_some_iff.1 h
  have hfirst : ∀ d ds, d :: ds <+: bs.drop i → d = b := by
    intro d ds hpre
    rw [List.drop_eq_getElem_cons hi, hbi] at hpre
    exact (List.cons_prefix_cons.1 hpre).1
  refine ⟨hi, fun ho => ?_, fun hc => ?_, rfl⟩
  · rw [← hfirst _ _ ho] at hb
    exact absurd hb (by decide)
  · rw [← hfirst _ _ hc] at hb
    exact absurd hb (by decide)

theorem closes_of_singles {n : Nat} (h : ∀ k < n, IsSingle bs (i + k) (i + k + 1))
    (inner : Bool) : Closes bs inner i j ↔ Closes bs inner (i + n) j := by
  induction n with
  | zero => rfl
  | succ n ih =>
    rw [ih fun k hk => h k (Nat.lt_succ_of_lt hk), closes_of_single (h n (Nat.lt_succ_self n)),
      Nat.add_assoc]

/-- The first byte of a character at which no delimiter begins is single, and so are its other bytes. -/
theorem isSingle_of_char {c : Char} {cs : List Char}
    (h : bs.drop i = (c :: cs).flatMap String.utf8EncodeChar)
    (ho : ¬ ['#', '='] <+: c :: cs) (hc : ¬ ['=', '#'] <+: c :: cs) :
    ∀ k < c.utf8Size, IsSingle bs (i + k) (i + k + 1) := by
  intro k hk
  by_cases hascii : c.toNat < 0x80
  · have hsize := congrArg List.length (utf8EncodeChar_of_ascii hascii)
    rw [String.length_utf8EncodeChar, List.length_singleton] at hsize
    obtain rfl : k = 0 := by omega
    have hlen : 0 < (bs.drop i).length := by
      rw [h, length_flatMap_utf8EncodeChar, byteLength_cons]
      omega
    rw [List.length_drop] at hlen
    exact ⟨by omega, mt (prefix_drop_iff ['#', '='] h).1 ho,
      mt (prefix_drop_iff ['=', '#'] h).1 hc, rfl⟩
  · have hk' : k < (String.utf8EncodeChar c).length := by rwa [String.length_utf8EncodeChar]
    have hget : bs[i + k]? = some (String.utf8EncodeChar c)[k] := by
      rw [← List.getElem?_drop, h, List.flatMap_cons, List.getElem?_append_left hk',
        List.getElem?_eq_getElem hk']
    exact isSingle_of_le hget
      (le_of_mem_utf8EncodeChar (Nat.not_lt.1 hascii) _ (List.getElem_mem hk'))

/-- **The scanner reads what closes a block**, and nothing else. -/
theorem closes_iff {cs : List Char} (inner : Bool)
    (h : bs.drop i = cs.flatMap String.utf8EncodeChar) :
    Closes bs inner i j ↔ (blockRest? inner cs).map (i + ·) = some j := by
  fun_induction blockRest? inner cs generalizing i with
  | case1 inner =>
    exact ⟨fun hcl => absurd hcl (not_closes_of_end h inner), fun hj => by cases hj⟩
  | case2 cs ih =>
    have hclosing : blockClosing <+: bs.drop i :=
      (prefix_drop_iff ['=', '#'] h).2 ⟨cs, rfl⟩
    have hdrop : bs.drop (i + 2) = cs.flatMap String.utf8EncodeChar :=
      drop_byteLength ['=', '#'] h
    rw [closes_of_closing hclosing, if_pos rfl, ih hdrop, Option.map_map]
    simp only [Function.comp_def, Nat.add_assoc]
  | case3 inner cs hinner =>
    have hclosing : blockClosing <+: bs.drop i :=
      (prefix_drop_iff ['=', '#'] h).2 ⟨cs, rfl⟩
    rw [closes_of_closing hclosing, if_neg hinner, Option.map_some, Option.some_inj]
    exact eq_comm
  | case4 cs =>
    have hopening : blockOpening <+: bs.drop i :=
      (prefix_drop_iff ['#', '='] h).2 ⟨cs, rfl⟩
    rw [closes_of_opening hopening]
    exact ⟨fun hcl => absurd hcl.1 (by decide), fun hj => by cases hj⟩
  | case5 inner cs hinner ih =>
    have hopening : blockOpening <+: bs.drop i :=
      (prefix_drop_iff ['#', '='] h).2 ⟨cs, rfl⟩
    have hdrop : bs.drop (i + 2) = cs.flatMap String.utf8EncodeChar :=
      drop_byteLength ['#', '='] h
    rw [closes_of_opening hopening, ih hdrop, Option.map_map]
    simp only [Function.comp_def, Nat.add_assoc, Bool.not_eq_true] at hinner ⊢
    exact ⟨And.right, fun hcl => ⟨hinner, hcl⟩⟩
  | case6 inner c cs hc ho ih =>
    have hsingle := isSingle_of_char h
      (by rintro ⟨t, ht⟩; obtain ⟨rfl, rfl⟩ := List.cons.inj ht; exact ho _ rfl rfl)
      (by rintro ⟨t, ht⟩; obtain ⟨rfl, rfl⟩ := List.cons.inj ht; exact hc _ rfl rfl)
    have hdrop : bs.drop (i + c.utf8Size) = cs.flatMap String.utf8EncodeChar :=
      drop_byteLength [c] h
    rw [closes_of_singles hsingle, ih hdrop, Option.map_map]
    simp only [Function.comp_def, Nat.add_assoc]

/-- **A block is what the scanner finds where its opening stands.** -/
theorem isBlock_iff {cs : List Char} (h : bs.drop i = cs.flatMap String.utf8EncodeChar) :
    IsBlock bs i j ↔ (block? cs).map (i + ·) = some j := by
  unfold block?
  split
  · next cs =>
    have hopening : blockOpening <+: bs.drop i :=
      (prefix_drop_iff ['#', '='] h).2 ⟨cs, rfl⟩
    have hdrop : bs.drop (i + 2) = cs.flatMap String.utf8EncodeChar :=
      drop_byteLength ['#', '='] h
    have hrest : IsBlock bs i j ↔ Closes bs false (i + 2) j := ⟨And.right, fun hcl => ⟨hopening, hcl⟩⟩
    rw [hrest, closes_iff false hdrop, Option.map_map]
    simp only [Function.comp_def, Nat.add_assoc]
  · next hcs =>
    refine ⟨fun hb => ?_, nofun⟩
    obtain ⟨t, ht⟩ := (prefix_drop_iff ['#', '='] h).1 hb.1
    exact absurd ht.symm (hcs t)

/-! ## Blocks of a text -/

/-- Where the block ends that begins at a byte of a text. -/
def blockEndAt? (text : List Char) (position : Nat) : Option Nat :=
  (Cursor.at? text position).bind Cursor.blockEnd?

namespace Cursor

theorem drop_offset_utf8Bytes (c : Cursor) :
    (c.text.flatMap String.utf8EncodeChar).drop c.offset =
      c.rest.flatMap String.utf8EncodeChar := by
  rw [c.offset_eq, ← byteLength_reverse, text, List.flatMap_append,
    ← length_flatMap_utf8EncodeChar, List.drop_left]

end Cursor

theorem exists_at?_of_isBlock {text : List Char}
    (h : IsBlock (text.flatMap String.utf8EncodeChar) i j) : ∃ c, Cursor.at? text i = some c := by
  obtain ⟨⟨bytes, hbytes⟩, -⟩ := h
  have hget : (text.flatMap String.utf8EncodeChar)[i]? = some 0x23 := by
    rw [← Nat.add_zero i, ← List.getElem?_drop, ← hbytes]
    rfl
  obtain ⟨before, after, rfl, hbefore⟩ := exists_boundary_of_ascii hget (by decide)
  exact ⟨.behind before after, Cursor.at?_eq_some_iff.2 ⟨Cursor.text_behind before after, hbefore⟩⟩

theorem blockEndAt?_eq_some_iff (text : List Char) (position stop : Nat) :
    blockEndAt? text position = some stop ↔
      IsBlock (text.flatMap String.utf8EncodeChar) position stop := by
  rw [blockEndAt?]
  cases hat : Cursor.at? text position with
  | none =>
    refine ⟨nofun, fun hb => ?_⟩
    obtain ⟨c, hc⟩ := exists_at?_of_isBlock hb
    rw [hat] at hc
    cases hc
  | some c =>
    obtain ⟨rfl, rfl⟩ := Cursor.at?_eq_some_iff.1 hat
    exact (isBlock_iff c.drop_offset_utf8Bytes).symm

theorem isBlock_unique {text : List Char} {i j k : Nat}
    (hj : IsBlock (text.flatMap String.utf8EncodeChar) i j)
    (hk : IsBlock (text.flatMap String.utf8EncodeChar) i k) : j = k := by
  rw [← blockEndAt?_eq_some_iff] at hj hk
  exact Option.some.inj (hj.symm.trans hk)

/-! ## The pattern -/

theorem blockEndAt?_offset (c : Cursor) : blockEndAt? c.text c.offset = c.blockEnd? := by
  rw [blockEndAt?, Cursor.at?_offset, Option.bind_some]

/-- A match of a block comment. At the start of the text a block is taken without context, if one begins there.
Otherwise the context is the first character, which is no backslash, and the block begins behind it. -/
def IsBlockMatch (text : List Char) (m : Match) : Prop :=
  if m.start = 0 ∧ (blockEndAt? text 0).isSome then
    m.contextEnd = 0 ∧ blockEndAt? text 0 = some m.stop
  else
    ∃ before a after, text = before ++ a :: after ∧ byteLength before = m.start ∧ a ≠ '\\' ∧
      m.contextEnd = m.start + a.utf8Size ∧ blockEndAt? text m.contextEnd = some m.stop

theorem Cursor.exists_next?_iff {c : Cursor} {a : Char} :
    (∃ before after, c.text = before ++ a :: after ∧ byteLength before = c.offset) ↔
      ∃ d, c.next? = some (a, d) := by
  constructor
  · rintro ⟨before, after, ht, hb⟩
    have hc : c = .behind before (a :: after) :=
      Cursor.eq_of_offset_eq (by rw [ht, Cursor.text_behind]) hb.symm
    exact ⟨_, hc ▸ Cursor.next?_behind before a after⟩
  · rintro ⟨d, hd⟩
    obtain ⟨hrest, -⟩ := Cursor.next?_eq_some.1 hd
    exact ⟨c.before.reverse, d.rest, by rw [Cursor.text, hrest], by
      rw [byteLength_reverse, c.offset_eq]⟩

theorem blockComment?_of_start {c : Cursor} {stop : Nat} (h : c.offset = 0)
    (hstop : c.blockEnd? = some stop) : blockComment? c = some ⟨0, 0, stop⟩ := by
  rw [blockComment?, if_pos h, hstop, h, Option.map_some, Option.some_or]

theorem blockComment?_of_context {c : Cursor} (h : ¬ (c.offset = 0 ∧ c.blockEnd?.isSome = true))
    (m : Match) :
    blockComment? c = some m ↔ ∃ a d, c.next? = some (a, d) ∧ a ≠ '\\' ∧
      d.blockEnd? = some m.stop ∧ m.start = c.offset ∧ m.contextEnd = d.offset := by
  have hstart :
      (if c.offset = 0 then c.blockEnd?.map (Match.mk c.offset c.offset) else none) = none := by
    split
    · next h0 => rw [Option.not_isSome_iff_eq_none.1 fun hs => h ⟨h0, hs⟩, Option.map_none]
    · rfl
  rw [blockComment?, hstart, Option.none_or]
  obtain ⟨start, contextEnd, stop⟩ := m
  split
  · next hnone => simp [hnone]
  · next a d hnext =>
    simp only [hnext, Option.ite_none_left_eq_some, Option.map_eq_some_iff, Match.mk.injEq,
      Option.some_inj, Prod.mk.injEq]
    constructor
    · rintro ⟨ha, e, he, rfl, rfl, rfl⟩
      exact ⟨a, d, ⟨rfl, rfl⟩, ha, he, rfl, rfl⟩
    · rintro ⟨_, _, ⟨rfl, rfl⟩, ha, he, rfl, rfl⟩
      exact ⟨ha, stop, he, rfl, rfl, rfl⟩

theorem blockComment?_eq_some_iff (c : Cursor) (m : Match) :
    blockComment? c = some m ↔ m.start = c.offset ∧ IsBlockMatch c.text m := by
  by_cases hstart : c.offset = 0 ∧ c.blockEnd?.isSome = true
  · obtain ⟨h0, hsome⟩ := hstart
    obtain ⟨stop, hstop⟩ := Option.isSome_iff_exists.1 hsome
    have hblock : blockEndAt? c.text 0 = some stop := by rw [← h0, blockEndAt?_offset, hstop]
    obtain ⟨start, contextEnd, end'⟩ := m
    rw [blockComment?_of_start h0 hstop, IsBlockMatch, h0, hblock]
    simp only [Option.isSome_some, and_true, Option.some_inj, Match.mk.injEq]
    constructor
    · rintro ⟨rfl, rfl, rfl⟩
      exact ⟨rfl, rfl, rfl⟩
    · rintro ⟨rfl, rfl, rfl⟩
      exact ⟨rfl, rfl, rfl⟩
  · rw [blockComment?_of_context hstart, IsBlockMatch]
    have hnot : ¬ (c.offset = 0 ∧ (blockEndAt? c.text 0).isSome = true) := by
      rintro ⟨h0, hsome⟩
      rw [← h0, blockEndAt?_offset] at hsome
      exact hstart ⟨h0, hsome⟩
    constructor
    · rintro ⟨a, d, hnext, ha, hstop, hm, hcontext⟩
      obtain ⟨before, after, ht, hb⟩ := Cursor.exists_next?_iff.2 ⟨d, hnext⟩
      refine ⟨hm, ?_⟩
      rw [hm, if_neg hnot]
      refine ⟨before, a, after, ht, hb, ha, hcontext.trans (Cursor.offset_next? hnext), ?_⟩
      rw [hcontext, ← Cursor.text_next? hnext, blockEndAt?_offset, hstop]
    · rintro ⟨hm, hmatch⟩
      rw [hm, if_neg hnot] at hmatch
      obtain ⟨before, a, after, ht, hb, ha, hcontext, hstop⟩ := hmatch
      obtain ⟨d, hnext⟩ := Cursor.exists_next?_iff.1 ⟨before, after, ht, hb⟩
      have hd : m.contextEnd = d.offset := hcontext.trans (Cursor.offset_next? hnext).symm
      rw [hd, ← Cursor.text_next? hnext, blockEndAt?_offset] at hstop
      exact ⟨a, d, hnext, ha, hstop, hm, hd⟩

theorem exists_char_of_isBlockMatch {text : List Char} {m : Match} (h : IsBlockMatch text m) :
    ∃ before a after, text = before ++ a :: after ∧ byteLength before = m.start := by
  unfold IsBlockMatch at h
  split at h
  · next hstart =>
    cases text with
    | nil => exact absurd hstart.2 (by decide)
    | cons a text => exact ⟨[], a, text, rfl, hstart.1.symm⟩
  · obtain ⟨before, a, after, ht, hb, -⟩ := h
    exact ⟨before, a, after, ht, hb⟩

theorem blockComment?_at?_iff (text : List Char) (start : Nat) (m : Match) :
    (Cursor.at? text start).bind blockComment? = some m ↔ m.start = start ∧ IsBlockMatch text m := by
  rw [Option.bind_eq_some_iff]
  constructor
  · rintro ⟨c, hat, hm⟩
    obtain ⟨rfl, rfl⟩ := Cursor.at?_eq_some_iff.1 hat
    exact (blockComment?_eq_some_iff c m).1 hm
  · rintro ⟨rfl, hm⟩
    obtain ⟨before, a, after, rfl, hb⟩ := exists_char_of_isBlockMatch hm
    have ht := Cursor.text_behind before (a :: after)
    refine ⟨.behind before (a :: after), Cursor.at?_eq_some_iff.2 ⟨ht, hb⟩, ?_⟩
    rw [blockComment?_eq_some_iff, ht]
    exact ⟨hb.symm, hm⟩

/-- **Block comments are what their grammar says.** The scanner finds a block at a byte of the text exactly if there is
one, and a block has one end. The pattern finds a match only where its search begins: the block at the start of the
text, or else the one behind a character that is no backslash. It finds nothing where no character begins. -/
theorem findFrom_blockComment (source : String) :
    (∀ position stop, blockEndAt? source.toList position = some stop ↔
      IsBlock (utf8Bytes source) position stop) ∧
    (∀ position stop stop', IsBlock (utf8Bytes source) position stop →
      IsBlock (utf8Bytes source) position stop' → stop = stop') ∧
    ∀ p : Pattern, p.matcher = .blockComment → ∀ start,
      (∀ m, p.findFrom source.toList start = .found m ↔
        m.start = start ∧ IsBlockMatch source.toList m) ∧
      (p.findFrom source.toList start = .nothing ↔
        ¬ ∃ m : Match, m.start = start ∧ IsBlockMatch source.toList m) ∧
      (p.findFrom source.toList start = .nothing ∨
        ∃ before a after, source.toList = before ++ a :: after ∧ byteLength before = start) := by
  rw [utf8Bytes_eq]
  refine ⟨blockEndAt?_eq_some_iff source.toList, fun _ _ _ => isBlock_unique, ?_⟩
  intro p hp start
  have hfind : p.findFrom source.toList start =
      .ofOption ((Cursor.at? source.toList start).bind blockComment?) := by
    have hfind? : p.find? = blockComment? := by
      funext c
      rw [Pattern.find?, hp]
    rw [Pattern.findFrom, hp, hfind?]
  have hmatch := blockComment?_at?_iff source.toList start
  rw [hfind]
  cases hresult : (Cursor.at? source.toList start).bind blockComment? with
  | none =>
    rw [hresult] at hmatch
    refine ⟨fun m => ⟨by rintro ⟨⟩, fun hm => ?_⟩, ⟨fun _ => ?_, fun _ => rfl⟩, Or.inl rfl⟩
    · cases (hmatch m).2 hm
    · rintro ⟨m, hm⟩
      cases (hmatch m).2 hm
  | some n =>
    rw [hresult] at hmatch
    have hn := (hmatch n).1 rfl
    refine ⟨fun m => ?_, ⟨by rintro ⟨⟩, fun hno => absurd ⟨n, hn⟩ hno⟩, Or.inr ?_⟩
    · rw [← hmatch, Option.some_inj]
      exact ⟨fun h => by injection h, fun h => congrArg _ h⟩
    · obtain ⟨rfl, hm⟩ := hn
      exact exists_char_of_isBlockMatch hm

/-- A block with a block inside, behind a character of two bytes -/
theorem findFrom_nested_block :
    (∀ stop, IsBlock (utf8Bytes "é#= #=é=# =#") 2 stop → stop = 14) ∧
      IsBlock (utf8Bytes "é#= #=é=# =#") 2 14 ∧
      IsBlockMatch "é#= #=é=# =#".toList ⟨0, 2, 14⟩ := by
  obtain ⟨hblock, hunique, hpattern⟩ := findFrom_blockComment "é#= #=é=# =#"
  have hend : IsBlock (utf8Bytes "é#= #=é=# =#") 2 14 := (hblock 2 14).1 (by decide +kernel)
  obtain ⟨hfound, -, -⟩ := hpattern { matcher := .blockComment } rfl 0
  exact ⟨fun stop h => hunique 2 stop 14 h hend, hend,
    ((hfound ⟨0, 2, 14⟩).1 (by decide +kernel)).2⟩

end Highlight
