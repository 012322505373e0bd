import Highlight.Proofs.Partition

/-!
# Plain text is unclaimed

A plain token is joined from characters that nothing claims. A token that is claimed lies in the list on its own, and
two tokens of a list that share a byte are the same (`Token.Tiles.eq_of_overlap`). So at each character of a plain
token the run has asked all its entries, and none has offered anything (`claim?_of_plain`).
-/

namespace Highlight

namespace Token.Tiles

variable {start : Nat} {text : List Char} {ts : List Token} {t u : Token}

theorem exists_append_of_mem (h : Tiles start text ts) (ht : t ∈ ts) :
    ∃ before after, text = before ++ t.value.toList ++ after ∧
      t.span = ⟨start + byteLength before, start + byteLength before + byteLength t.value.toList⟩ := by
  induction ts generalizing start text with
  | nil => cases ht
  | cons v vs ih =>
    obtain ⟨-, hspan, rest, rfl, hrest⟩ := h
    rcases List.mem_cons.1 ht with rfl | ht
    · exact ⟨[], rest, rfl, hspan⟩
    · obtain ⟨before, after, rfl, hlies⟩ := ih hrest ht
      refine ⟨v.value.toList ++ before, after, by simp only [List.append_assoc], ?_⟩
      rw [hlies, hspan, byteLength_append, Nat.add_assoc start]

theorem start_le_of_mem (h : Tiles start text ts) (ht : t ∈ ts) : start ≤ t.span.start := by
  obtain ⟨before, after, -, hspan⟩ := h.exists_append_of_mem ht
  rw [hspan]
  exact Nat.le_add_right _ _

/-- **Tokens that share a byte are the same.** -/
theorem eq_of_overlap (h : Tiles start text ts) (ht : t ∈ ts) (hu : u ∈ ts) {n : Nat}
    (htn : t.span.start ≤ n ∧ n < t.span.stop) (hun : u.span.start ≤ n ∧ n < u.span.stop) : t = u := by
  induction ts generalizing start text with
  | nil => cases ht
  | cons v vs ih =>
    obtain ⟨-, -, rest, -, hrest⟩ := h
    rcases List.mem_cons.1 ht with htv | ht <;> rcases List.mem_cons.1 hu with huv | hu
    · exact htv.trans huv.symm
    · have hle := hrest.start_le_of_mem hu
      rw [htv] at htn
      omega
    · have hle := hrest.start_le_of_mem ht
      rw [huv] at hun
      omega
    · exact ih hrest ht hu

end Token.Tiles

section

variable {rescan : Bool} {entries : List Entry} {base : Nat} {text : List Char} {t : Token}

/-- **Nothing claims a character of a plain token.** -/
theorem claim?_of_plain (hentries : ∀ e ∈ entries, e.kind ≠ .plain)
    (ht : t ∈ tokensBy cutAfresh rescan entries base text) (hplain : t.kind = .plain) :
    ∃ before after, text = before ++ t.value.toList ++ after ∧
      t.span.start = base + byteLength before ∧
      ∀ x a y, t.value.toList = x ++ a :: y →
        claim? entries (.behind (before ++ x) (a :: y ++ after)) = none := by
  have htiles := tiles_tokensBy rescan entries base text
  obtain ⟨before, after, htext, hspan⟩ := htiles.exists_append_of_mem ht
  refine ⟨before, after, htext, by rw [hspan], ?_⟩
  intro x a y hvalue
  have hsplit : text = (before ++ x) ++ (a :: y ++ after) := by
    rw [htext, hvalue]
    simp only [List.append_assoc]
  obtain ⟨b, d, p, v, w, hp, hprecedes, -, hfirst, hv, hbefore⟩ :=
    exists_firstPiece?_at (c := .ofText text) entries hsplit
  have hspans := spans_of_firstPiece? hfirst
  have hclaim := claim?_of_firstPiece? hfirst
  have hb : v.reverse ++ b.before = (before ++ x).reverse := hbefore.trans (List.append_nil _)
  cases hpclaim : p.claim with
  | none =>
    -- the piece is the character alone, so it begins at the position in question
    obtain ⟨a', ha⟩ := hspans.single hpclaim
    obtain rfl : v = [] := by
      rw [hv] at ha
      cases v with
      | nil => rfl
      | cons c v => simp at ha
    have hposition : b = .behind (before ++ x) (a :: y ++ after) := by
      have hbtext : b.before.reverse ++ b.rest = (before ++ x) ++ (a :: y ++ after) :=
        hprecedes.text_eq.trans hsplit
      have hbreverse : b.before.reverse = before ++ x := List.reverse_eq_iff.2 hb
      rw [hbreverse] at hbtext
      exact Cursor.ext_lists hb (List.append_cancel_left hbtext)
    rw [← hposition, hclaim, hpclaim]
    rfl
  | some e =>
    -- the piece is a token of its own, which shares the character with the plain one
    have hmem := token_mem_tokensBy rescan base hentries hp (by rw [hpclaim]; exact nofun)
    have hlength := congrArg byteLength hb
    simp only [byteLength_append, byteLength_reverse, ← b.offset_eq] at hlength
    have hpos := a.utf8Size_pos
    have hsame := htiles.eq_of_overlap ht hmem (n := base + byteLength (before ++ x))
      (by simp only [hspan, hvalue, byteLength_append, byteLength_cons]; omega)
      (by
        simp only [Piece.token, Piece.stop, hspans.start, hv, byteLength_append, byteLength_cons]
        omega)
    have he := hentries e (mem_of_claim hp hpclaim)
    rw [hsame, Piece.token, hpclaim] at hplain
    exact absurd hplain he

end

end Highlight
