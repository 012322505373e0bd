import Highlight.Proofs.Pattern.Placed
import Highlight.Proofs.Piece.Step

/-!
# Who claims a piece

`claim? entries c` tells which entry claims the text at a position and how many bytes of it. What is offered ends at a
boundary of the text (`exists_precedes_of_offer?`), so a step of a cut is told by the claim alone
(`firstPiece?_of_claim?`, `claim?_of_firstPiece?`).

* `exists_firstPiece?_of_mem`, `exists_firstPiece?_at`: each piece of a cut is the first one at a position that
  the cut comes to, and each character is in a piece.
* `exists_pieces_append_of_claim?`: a text that is followed by another one is cut as it is alone, if what
  follows changes no claim.
-/

namespace Highlight

/-! ## Offered matches end at boundaries -/

namespace Pattern

/-- **An offered match ends at a boundary** beyond the position. -/
theorem exists_precedes_of_offer? {p : Pattern} {c : Cursor} {m : Match} (h : p.offer? c = some m) :
    c.offset < m.stop ∧ ∃ d, c.Precedes d ∧ d.offset = m.stop := by
  obtain ⟨b, hb, hm⟩ := List.exists_of_findSome?_eq_some h
  obtain ⟨hmatch, hfits⟩ := Option.filter_eq_some_iff.1 hm
  simp only [Match.fits, Bool.and_eq_true, decide_eq_true_eq] at hfits
  obtain ⟨b', k, d, hbb', hbk, hkd, rfl⟩ := exists_of_find? (Option.filter_eq_some_iff.1 hmatch).1
  have hbd : b.Precedes d := (hbb'.trans hbk).trans hkd
  have htext : d.text = c.text := hbd.text_eq.trans (text_of_mem_starts hb)
  exact ⟨hfits.2, d, Cursor.precedes_of_offset_le htext.symm (Nat.le_of_lt hfits.2), rfl⟩

theorem exists_of_length? {p : Pattern} {c : Cursor} {n : Nat} (h : p.length? c = some n) :
    ∃ v w, c.rest = v ++ w ∧ v ≠ [] ∧ byteLength v = n := by
  obtain ⟨m, hm, rfl⟩ := Option.map_eq_some_iff.1 h
  obtain ⟨hlt, d, ⟨cs, hrest, hbefore⟩, hd⟩ := exists_precedes_of_offer? hm
  have hlength : m.stop = c.offset + byteLength cs := hd.symm.trans (Cursor.offset_of_before hbefore)
  refine ⟨cs, d.rest, hrest, byteLength_pos.1 ?_, ?_⟩ <;> omega

end Pattern

/-! ## Claims -/

/-- The first entry that offers a token at the position, and the length of the token. -/
def claim? (entries : List Entry) (c : Cursor) : Option (Entry × Nat) :=
  entries.findSome? fun e => (e.pattern.length? c).map (e, ·)

section

variable {entries : List Entry} {c d : Cursor} {e : Entry} {p : Piece}

theorem of_claim? {n : Nat} (h : claim? entries c = some (e, n)) :
    e ∈ entries ∧ e.pattern.length? c = some n := by
  obtain ⟨f, hf, hclaim⟩ := List.exists_of_findSome?_eq_some h
  obtain ⟨m, hm, heq⟩ := Option.map_eq_some_iff.1 hclaim
  cases heq
  exact ⟨hf, hm⟩

theorem claim?_cons (f : Entry) (more : List Entry) (c : Cursor) :
    claim? (f :: more) c = ((f.pattern.length? c).map (f, ·)).or (claim? more c) := by
  rw [claim?, List.findSome?_cons]
  cases f.pattern.length? c <;> rfl

/-- **The first entry claims the text** that offers a token. -/
theorem claim?_eq_some_iff {n : Nat} :
    claim? entries c = some (e, n) ↔ e ∈ entries ∧ e.pattern.length? c = some n ∧
      ∀ f ∈ entries.takeWhile (· ≠ e), f.pattern.length? c = none := by
  induction entries with
  | nil => simp [claim?]
  | cons f more ih =>
    rw [claim?_cons]
    by_cases hf : f = e
    · subst hf
      rw [List.takeWhile_cons_of_neg (by simp)]
      cases hlength : f.pattern.length? c with
      | some m => simp
      | none =>
        rw [Option.map_none, Option.none_or]
        refine ⟨fun h => ?_, fun h => ?_⟩
        · rw [(of_claim? h).2] at hlength
          cases hlength
        · cases h.2.1
    · rw [List.takeWhile_cons_of_pos (by simp [hf])]
      cases hlength : f.pattern.length? c with
      | some m => simp [hf, hlength]
      | none => simp [ih, hlength, Ne.symm hf]

theorem claim?_eq_none_iff :
    claim? entries c = none ↔ ∀ e ∈ entries, e.pattern.length? c = none := by
  rw [claim?, List.findSome?_eq_none_iff]
  exact forall₂_congr fun e _ => Option.map_eq_none_iff

theorem claim?_of_end (h : c.rest = []) : claim? entries c = none := by
  cases hclaim : claim? entries c with
  | none => rfl
  | some claimed =>
    obtain ⟨v, w, hrest, hv, -⟩ := Pattern.exists_of_length? (of_claim? hclaim).2
    rw [h] at hrest
    exact absurd (List.append_eq_nil_iff.1 hrest.symm).1 hv

theorem firstPiece?_of_claim?_eq_none {a : Char} (hnext : c.next? = some (a, d))
    (h : claim? entries c = none) : firstPiece? entries c = some (⟨none, [a], c.offset⟩, d) := by
  have hoffer : offer? entries c = none := by
    rw [← Option.map_eq_none_iff, map_offer?]
    exact h
  rw [firstPiece?, hnext, Option.map_some, hoffer]

/-- **The entry that claims the text takes all that it claims.** -/
theorem firstPiece?_of_claim? {v w : List Char} (hrest : c.rest = v ++ w)
    (h : claim? entries c = some (e, byteLength v)) :
    ∃ d, firstPiece? entries c = some (⟨some e, v, c.offset⟩, d) ∧ d.rest = w := by
  rw [claim?, ← map_offer?] at h
  obtain ⟨⟨f, m⟩, hoffer, hm⟩ := Option.map_eq_some_iff.1 h
  obtain ⟨rfl, hstop⟩ := Prod.mk.inj hm
  have hlt := lt_stop_of_offer? hoffer
  cases v with
  | nil =>
    rw [byteLength_nil] at hstop
    omega
  | cons a v =>
    obtain ⟨b, hnext, hb⟩ := Cursor.exists_next? hrest
    have hboffset := Cursor.offset_next? hnext
    rw [byteLength_cons] at hstop
    have hcut : splitBytes (m.stop - b.offset) b.rest = (v, w) := by
      have hlength : m.stop - b.offset = byteLength v := by omega
      rw [hlength, show b.rest = v ++ w from hb, splitBytes_byteLength]
    have hfirst : (b.cut m.stop).1 = v := congrArg Prod.fst hcut
    have hsecond : (b.cut m.stop).2.rest = w := congrArg Prod.snd hcut
    refine ⟨(b.cut m.stop).2, ?_, hsecond⟩
    rw [firstPiece?, hnext, Option.map_some, hoffer]
    dsimp only
    rw [hfirst]

theorem pieces_behind_of_claim? {before v w : List Char}
    (h : claim? entries (.behind before (v ++ w)) = some (e, byteLength v)) :
    pieces entries (.behind before (v ++ w)) =
      ⟨some e, v, byteLength before⟩ :: pieces entries (.behind (before ++ v) w) := by
  obtain ⟨d, hfirst, hrest⟩ := firstPiece?_of_claim? rfl h
  have hd : d = .behind (before ++ v) w :=
    Cursor.ext_lists ((spans_of_firstPiece? hfirst).before.trans List.reverse_append.symm) hrest
  rw [pieces_of_firstPiece? hfirst, hd]
  rfl

/-- Entries claim the parts of a text one after another, to its end. -/
inductive ClaimedInTurn (entries : List Entry) : (before text : List Char) → List (Entry × List Char) → Prop
  | nil {before : List Char} : ClaimedInTurn entries before [] []
  | cons {before v w : List Char} {e : Entry} {parts : List (Entry × List Char)}
      (hclaim : claim? entries (.behind before (v ++ w)) = some (e, byteLength v))
      (hparts : ClaimedInTurn entries (before ++ v) w parts) :
      ClaimedInTurn entries before (v ++ w) ((e, v) :: parts)

theorem ClaimedInTurn.pieces_eq {before text : List Char} {parts : List (Entry × List Char)}
    (h : ClaimedInTurn entries before text parts) :
    pieces entries (.behind before text) =
      Piece.layout (byteLength before) (parts.map fun x => (some x.1, x.2)) := by
  induction h with
  | nil => exact pieces_of_end rfl
  | cons hclaim _ ih =>
    rw [pieces_behind_of_claim? hclaim, ih, byteLength_append]
    rfl

/-- **A piece tells the claim.** -/
theorem claim?_of_firstPiece? (h : firstPiece? entries c = some (p, d)) :
    claim? entries c = p.claim.map (·, byteLength p.chars) := by
  obtain ⟨⟨a, b⟩, hnext, -⟩ := Option.map_eq_some_iff.1 h
  cases hclaim : claim? entries c with
  | none =>
    rw [firstPiece?_of_claim?_eq_none hnext hclaim] at h
    cases h
    rfl
  | some claimed =>
    obtain ⟨e, n⟩ := claimed
    obtain ⟨v, w, hrest, -, rfl⟩ := Pattern.exists_of_length? (of_claim? hclaim).2
    obtain ⟨d', hfirst, -⟩ := firstPiece?_of_claim? hrest hclaim
    rw [hfirst] at h
    cases h
    rfl

/-- **Each piece is the first at a position that the cut comes to.** -/
theorem exists_firstPiece?_of_mem (hp : p ∈ pieces entries c) :
    ∃ b d, c.Precedes b ∧ (b = c ∨ ∃ b' q, firstPiece? entries b' = some (q, b)) ∧
      firstPiece? entries b = some (p, d) := by
  induction hlength : c.rest.length using Nat.strongRecOn generalizing c with
  | ind n ih =>
    cases hfirst : firstPiece? entries c with
    | none =>
      rw [pieces_of_firstPiece?_eq_none hfirst] at hp
      cases hp
    | some first =>
      obtain ⟨q, c'⟩ := first
      have hspans := spans_of_firstPiece? hfirst
      rw [pieces_of_firstPiece? hfirst] at hp
      rcases List.mem_cons.1 hp with rfl | hp
      · exact ⟨c, c', .refl c, Or.inl rfl, hfirst⟩
      · obtain ⟨b, d, hcb, hreached, hb⟩ := ih _ (hlength ▸ hspans.length_lt) hp rfl
        refine ⟨b, d, hspans.precedes.trans hcb, Or.inr ?_, hb⟩
        rcases hreached with rfl | hreached
        · exact ⟨c, q, hfirst⟩
        · exact hreached

/-- **Each character of the rest is in a piece**, which is the first one at a position that the cut comes to. -/
theorem exists_firstPiece?_at (entries : List Entry) {before after : List Char} {x : Char}
    (h : c.rest = before ++ x :: after) :
    ∃ b d p v w, p ∈ pieces entries c ∧ c.Precedes b ∧
      (b = c ∨ ∃ b' q, firstPiece? entries b' = some (q, b)) ∧
      firstPiece? entries b = some (p, d) ∧ p.chars = v ++ x :: w ∧
      v.reverse ++ b.before = before.reverse ++ c.before := by
  induction hlength : c.rest.length using Nat.strongRecOn generalizing c before with
  | ind n ih =>
    cases hfirst : firstPiece? entries c with
    | none =>
      rw [Cursor.next?_eq_none.1 (Option.map_eq_none_iff.1 hfirst)] at h
      cases before <;> cases h
    | some first =>
      obtain ⟨p, c'⟩ := first
      have hspans := spans_of_firstPiece? hfirst
      have hpieces := pieces_of_firstPiece? hfirst
      -- the piece ends before the character, or it holds it
      have hsplit : (∃ ms, before = p.chars ++ ms ∧ c'.rest = ms ++ x :: after) ∨
          ∃ w, p.chars = before ++ x :: w := by
        rcases List.append_eq_append_iff.1 (hspans.rest.symm.trans h) with
          ⟨ms, hms, hrest⟩ | ⟨ms, hms, hrest⟩
        · exact Or.inl ⟨ms, hms, hrest⟩
        · cases ms with
          | nil => exact Or.inl ⟨[], by simpa using hms.symm, hrest.symm⟩
          | cons a ms =>
            obtain ⟨rfl, -⟩ := List.cons.inj hrest
            exact Or.inr ⟨ms, hms⟩
      rcases hsplit with ⟨ms, rfl, hrest⟩ | ⟨w, hw⟩
      · obtain ⟨b, d, q, v, w, hq, hprecedes, hreached, hb, hv, hbefore⟩ :=
          ih _ (hlength ▸ hspans.length_lt) hrest rfl
        refine ⟨b, d, q, v, w, hpieces ▸ List.mem_cons_of_mem p hq, hspans.precedes.trans hprecedes,
          Or.inr ?_, hb, hv, ?_⟩
        · rcases hreached with rfl | hreached
          · exact ⟨c, p, hfirst⟩
          · exact hreached
        · rw [hbefore, hspans.before, List.reverse_append, List.append_assoc]
      · exact ⟨c, c', p, before, w, hpieces ▸ List.mem_cons_self, .refl c, Or.inl rfl, hfirst, hw, rfl⟩

end

/-! ## A text that is followed by another one -/

/-- **A text is cut as it is alone**, if what follows it changes no claim at positions that are `Regular`, and a step
leads from such a position to another. -/
theorem exists_pieces_append_of_claim? {entries : List Entry} {tail : List Char} {Regular : Cursor → Prop}
    (hclaim : ∀ c d : Cursor, Regular d → c.rest = d.rest ++ tail → c.before = d.before →
      claim? entries c = claim? entries d)
    (hstep : ∀ d p e, Regular d → firstPiece? entries d = some (p, e) → Regular e) {c d : Cursor}
    (hd : Regular d) (hrest : c.rest = d.rest ++ tail) (hbefore : c.before = d.before) :
    ∃ e : Cursor, pieces entries c = pieces entries d ++ pieces entries e ∧ e.rest = tail ∧
      e.before = d.rest.reverse ++ d.before := by
  induction hlength : d.rest.length using Nat.strongRecOn generalizing c d with
  | ind n ih =>
    cases hfirst : firstPiece? entries d with
    | none =>
      have hend := Cursor.next?_eq_none.1 (Option.map_eq_none_iff.1 hfirst)
      rw [hend, List.nil_append] at hrest
      exact ⟨c, by rw [pieces_of_firstPiece?_eq_none hfirst, List.nil_append], hrest, by simp [hend, hbefore]⟩
    | some first =>
      obtain ⟨p, d'⟩ := first
      have hspans := spans_of_firstPiece? hfirst
      have hsame := (hclaim c d hd hrest hbefore).trans (claim?_of_firstPiece? hfirst)
      have hcrest : c.rest = p.chars ++ (d'.rest ++ tail) := by
        rw [hrest, hspans.rest, List.append_assoc]
      have hoffset : c.offset = d.offset := by rw [c.offset_eq, d.offset_eq, hbefore]
      obtain ⟨c', hcfirst⟩ : ∃ c', firstPiece? entries c = some (p, c') := by
        obtain ⟨claim, chars, start⟩ := p
        obtain rfl : start = c.offset := hspans.start.trans hoffset.symm
        cases claim with
        | none =>
          obtain ⟨a, rfl⟩ := hspans.single rfl
          obtain ⟨c', hnext, -⟩ := Cursor.exists_next? hcrest
          exact ⟨c', firstPiece?_of_claim?_eq_none hnext hsame⟩
        | some e =>
          obtain ⟨c', hcfirst, -⟩ := firstPiece?_of_claim? hcrest hsame
          exact ⟨c', hcfirst⟩
      have hcspans := spans_of_firstPiece? hcfirst
      have hrest' : c'.rest = d'.rest ++ tail := List.append_cancel_left (hcspans.rest.symm.trans hcrest)
      have hbefore' : c'.before = d'.before := by rw [hcspans.before, hspans.before, hbefore]
      obtain ⟨e, hpieces, herest, hebefore⟩ := ih _ (hlength ▸ hspans.length_lt)
        (hstep d p d' hd hfirst) hrest' hbefore' rfl
      refine ⟨e, ?_, herest, ?_⟩
      · rw [pieces_of_firstPiece? hcfirst, pieces_of_firstPiece? hfirst, hpieces, List.cons_append]
      · rw [hebefore, hspans.rest, hspans.before, List.reverse_append, List.append_assoc]

end Highlight
