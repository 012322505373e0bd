import Highlight.Text.Cursor

/-!
# The bytes of a text

Strings are compared by their code points. UTF-8 keeps this order: of two characters the later one has, at the first
byte in which they differ, the greater byte (`differsBelow_of_lt`), and none of them begins the other. So strings
are in order exactly if their bytes are (`utf8Bytes_lt_iff`), and one begins another exactly if its bytes do
(`flatMap_utf8EncodeChar_prefix`).

The ASCII characters are the bytes below `0x80`. No other character has such a byte, so an ASCII byte tells that it stands
on a boundary of the text (`exists_boundary_of_ascii`).
-/

namespace Highlight

/-- The UTF-8 bytes of a text. -/
def utf8Bytes (s : String) : List UInt8 :=
  s.toUTF8.data.toList

theorem utf8Bytes_eq (s : String) : utf8Bytes s = s.toList.flatMap String.utf8EncodeChar := by
  have hbytes : s.toUTF8 = s.toList.utf8Encode := by
    rw [String.toUTF8, ← String.toByteArray_ofList, String.ofList_toList]
  rw [utf8Bytes, hbytes, List.utf8Encode, List.data_toByteArray]

/-- The lists differ at a place that both have, and the first one is less there. -/
def DiffersBelow : List UInt8 → List UInt8 → Prop
  | x :: us, y :: vs => x < y ∨ x = y ∧ DiffersBelow us vs
  | _, _ => False

theorem DiffersBelow.append_lt {us vs : List UInt8} (h : DiffersBelow us vs) (us' vs' : List UInt8) :
    us ++ us' < vs ++ vs' := by
  induction us generalizing vs with
  | nil => cases h
  | cons x us ih =>
    cases vs with
    | nil => cases h
    | cons y vs =>
      rw [List.cons_append, List.cons_append, List.cons_lt_cons_iff]
      exact Or.imp id (And.imp id ih) h

/-- **A later character has a greater byte** where the two differ first. -/
theorem differsBelow_of_lt {a b : Char} (h : a < b) :
    DiffersBelow (String.utf8EncodeChar a) (String.utf8EncodeChar b) := by
  have hlt : a.val.toNat < b.val.toNat := h
  have hb : b.val.toNat < 0x110000 := by
    rcases b.valid with hb | ⟨-, hb⟩
    · exact Nat.lt_trans hb (by decide)
    · exact hb
  have hsecond : ∀ k : Nat, k / 4096 = k / 64 / 64 := by omega
  have hthird : ∀ k : Nat, k / 262144 = k / 64 / 64 / 64 := by omega
  unfold String.utf8EncodeChar
  generalize a.val.toNat = m at hlt ⊢
  generalize b.val.toNat = n at hlt hb ⊢
  -- a longer sequence begins with a greater byte, and those of one length are compared digit by digit
  dsimp only
  repeat' split
  all_goals
    simp only [DiffersBelow, UInt8.lt_iff_toNat_lt, ← UInt8.toNat_inj, UInt8.toNat_ofNat',
      hsecond, hthird]
    omega

theorem flatMap_utf8EncodeChar_lt {as bs : List Char} (h : as < bs) :
    as.flatMap String.utf8EncodeChar < bs.flatMap String.utf8EncodeChar := by
  induction bs generalizing as with
  | nil => exact absurd h (List.not_lt_nil as)
  | cons b bs ih =>
    rw [List.flatMap_cons]
    cases as with
    | nil =>
      obtain ⟨x, us, hb⟩ := List.exists_cons_of_ne_nil (String.utf8EncodeChar_ne_nil (c := b))
      rw [hb]
      exact List.nil_lt_cons x _
    | cons a as =>
      rw [List.flatMap_cons]
      rcases List.cons_lt_cons_iff.1 h with hab | ⟨rfl, has⟩
      · exact (differsBelow_of_lt hab).append_lt _ _
      · exact List.append_left_lt (ih has)

/-- **The order of texts is that of their bytes.** -/
theorem utf8Bytes_lt_iff {s t : String} : utf8Bytes s < utf8Bytes t ↔ s < t := by
  have hmono : ∀ {s t : String}, s < t → utf8Bytes s < utf8Bytes t := by
    intro s t h
    rw [utf8Bytes_eq, utf8Bytes_eq]
    exact flatMap_utf8EncodeChar_lt h
  refine ⟨fun h => ?_, hmono⟩
  by_cases hts : t < s
  · exact absurd (hmono hts) (List.lt_asymm h)
  · refine Std.lt_of_le_of_ne (String.not_lt.1 hts) ?_
    rintro rfl
    exact List.lt_irrefl _ h

/-! ## Beginnings and boundaries -/

theorem DiffersBelow.not_isPrefix {us vs : List UInt8} (h : DiffersBelow us vs) (us' vs' : List UInt8) :
    ¬ us ++ us' <+: vs ++ vs' ∧ ¬ vs ++ vs' <+: us ++ us' := by
  induction us generalizing vs with
  | nil => cases h
  | cons x us ih =>
    cases vs with
    | nil => cases h
    | cons y vs =>
      rw [List.cons_append, List.cons_append, List.cons_prefix_cons, List.cons_prefix_cons]
      rcases h with hlt | ⟨rfl, h⟩
      · exact ⟨fun hpre => UInt8.ne_of_lt hlt hpre.1, fun hpre => UInt8.ne_of_lt hlt hpre.1.symm⟩
      · exact ⟨fun hpre => (ih h).1 hpre.2, fun hpre => (ih h).2 hpre.2⟩

/-- **A text begins another exactly if its bytes do.** -/
theorem flatMap_utf8EncodeChar_prefix {as bs : List Char} :
    as.flatMap String.utf8EncodeChar <+: bs.flatMap String.utf8EncodeChar ↔ as <+: bs := by
  induction as generalizing bs with
  | nil => exact ⟨fun _ => List.nil_prefix, fun _ => List.nil_prefix⟩
  | cons a as ih =>
    cases bs with
    | nil =>
      rw [List.flatMap_cons, List.flatMap_nil, List.prefix_nil, List.append_eq_nil_iff]
      simp [String.utf8EncodeChar_ne_nil]
    | cons b bs =>
      rw [List.flatMap_cons, List.flatMap_cons, List.cons_prefix_cons]
      by_cases hab : a = b
      · subst hab
        rw [List.prefix_append_right_inj, ih]
        exact ⟨fun h => ⟨rfl, h⟩, And.right⟩
      · refine ⟨fun h => ?_, fun h => absurd h.1 hab⟩
        rcases Char.le_total a b with hle | hle
        · exact absurd h ((differsBelow_of_lt (Std.lt_of_le_of_ne hle hab)).not_isPrefix _ _).1
        · exact absurd h ((differsBelow_of_lt (Std.lt_of_le_of_ne hle (Ne.symm hab))).not_isPrefix _ _).2

theorem length_flatMap_utf8EncodeChar (cs : List Char) :
    (cs.flatMap String.utf8EncodeChar).length = byteLength cs := by
  induction cs with
  | nil => rfl
  | cons c cs ih =>
    rw [List.flatMap_cons, List.length_append, String.length_utf8EncodeChar, ih, byteLength_cons]

theorem utf8EncodeChar_of_ascii {c : Char} (h : c.toNat < 0x80) :
    String.utf8EncodeChar c = [UInt8.ofNat c.toNat] := by
  have hle : c.val.toNat ≤ 0x7f := Nat.le_of_lt_succ h
  rw [String.utf8EncodeChar]
  exact if_pos hle

theorem le_of_mem_utf8EncodeChar {c : Char} (h : 0x80 ≤ c.toNat) :
    ∀ b ∈ String.utf8EncodeChar c, 0x80 ≤ b.toNat := by
  have hle : ¬ c.val.toNat ≤ 0x7f := Nat.not_le.2 h
  unfold String.utf8EncodeChar
  generalize c.val.toNat = n at hle
  dsimp only
  rw [if_neg hle]
  repeat' split
  all_goals
    simp only [List.mem_cons, List.not_mem_nil, or_false, forall_eq_or_imp, forall_eq,
      UInt8.toNat_ofNat']
    omega

/-- **An ASCII byte stands on a boundary** of the text. -/
theorem exists_boundary_of_ascii {cs : List Char} {i : Nat} {b : UInt8}
    (h : (cs.flatMap String.utf8EncodeChar)[i]? = some b) (hb : b.toNat < 0x80) :
    ∃ before after, cs = before ++ after ∧ byteLength before = i := by
  induction cs generalizing i with
  | nil => cases h
  | cons c cs ih =>
    rw [List.flatMap_cons] at h
    by_cases hi : i < c.utf8Size
    · have hi' : i < (String.utf8EncodeChar c).length := by rwa [String.length_utf8EncodeChar]
      rw [List.getElem?_append_left hi'] at h
      have hmem := List.mem_of_getElem? h
      by_cases hc : c.toNat < 0x80
      · rw [utf8EncodeChar_of_ascii hc] at hi'
        refine ⟨[], c :: cs, rfl, ?_⟩
        rw [List.length_singleton] at hi'
        rw [byteLength_nil]
        omega
      · have := le_of_mem_utf8EncodeChar (Nat.not_lt.1 hc) b hmem
        omega
    · rw [List.getElem?_append_right (by rw [String.length_utf8EncodeChar]; omega),
        String.length_utf8EncodeChar] at h
      obtain ⟨before, after, rfl, hbefore⟩ := ih h
      refine ⟨c :: before, after, rfl, ?_⟩
      rw [byteLength_cons, hbefore]
      omega

end Highlight
