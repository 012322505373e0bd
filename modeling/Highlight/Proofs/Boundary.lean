import Highlight.Proofs.Piece.Step
import Highlight.Proofs.Tokenize

/-!
# The tokens behind a boundary

At a boundary that no claimed token crosses a run falls into two. What is claimed behind the boundary depends on the
contents of the pieces that are cut off there, and on nothing before them (`claimedFrom_tokensBy`).
-/

namespace Highlight

namespace Token

/-- A token that an entry claims begins before the byte `n` and ends after it. -/
def Crosses (n : Nat) (t : Token) : Prop :=
  t.isPlain = false ∧ t.span.start < n ∧ n < t.span.stop

instance (n : Nat) (t : Token) : Decidable (t.Crosses n) :=
  inferInstanceAs (Decidable (_ ∧ _ ∧ _))

/-- The tokens that entries claim. -/
def claimed (ts : List Token) : List Token :=
  ts.filter fun t => !t.isPlain

/-- The tokens that entries claim, from the byte `n` on. -/
def claimedFrom (n : Nat) (ts : List Token) : List Token :=
  (claimed ts).filter fun t => n ≤ t.span.start

theorem claimed_map_shift (n : Nat) (ts : List Token) :
    claimed (ts.map (shift n)) = (claimed ts).map (shift n) := by
  rw [claimed, claimed, List.filter_map]
  congr 1
  apply List.filter_congr
  intro t _
  rw [Function.comp_apply, isPlain_shift]

end Token

/-! ## The tokens of pieces -/

theorem Piece.token_start_add (rescan : Bool) (entries : List Entry) (claim : Option Entry)
    (chars : List Char) (start n : Nat) :
    (⟨claim, chars, start + n⟩ : Piece).token 0 (childrenBy rescan entries 0 ⟨claim, chars, start + n⟩) =
      ((⟨claim, chars, start⟩ : Piece).token 0
        (childrenBy rescan entries 0 ⟨claim, chars, start⟩)).shift n := by
  have hstart : 0 + (start + n) = 0 + n + start := by omega
  have hstop : 0 + (start + n + byteLength chars) = 0 + n + (start + byteLength chars) := by omega
  have hchildren : childrenBy rescan entries 0 ⟨claim, chars, start + n⟩ =
      childrenBy rescan entries (0 + n) ⟨claim, chars, start⟩ := by
    funext e
    simp only [childrenBy, hstart]
  have hmove : (⟨claim, chars, start + n⟩ : Piece).token 0
      (childrenBy rescan entries 0 ⟨claim, chars, start + n⟩) =
      (⟨claim, chars, start⟩ : Piece).token (0 + n)
        (childrenBy rescan entries (0 + n) ⟨claim, chars, start⟩) := by
    simp only [token, stop, hchildren, hstart, hstop]
  rw [hmove]
  exact token_add fun e _ => childrenBy_add rescan entries 0 n _ e

/-- The tokens of pieces with the given contents, the first of which begins at `start`. -/
def tokensOf (rescan : Bool) (entries : List Entry) (start : Nat)
    (contents : List (Option Entry × List Char)) : List Token :=
  (Piece.layout start contents).map fun p => p.token 0 (childrenBy rescan entries 0 p)

theorem tokensOf_add (rescan : Bool) (entries : List Entry) (start n : Nat)
    (contents : List (Option Entry × List Char)) :
    tokensOf rescan entries (start + n) contents =
      (tokensOf rescan entries start contents).map (Token.shift n) := by
  induction contents generalizing start with
  | nil => rfl
  | cons x more ih =>
    obtain ⟨claim, chars⟩ := x
    rw [tokensOf, tokensOf, Piece.layout, Piece.layout, List.map_cons, List.map_cons, List.map_cons,
      Piece.token_start_add, Nat.add_right_comm]
    exact congrArg _ (ih _)

theorem tokensOf_pieces (rescan : Bool) (entries : List Entry) (c : Cursor) :
    tokensOf rescan entries c.offset ((pieces entries c).map Piece.content) =
      (pieces entries c).map fun p => p.token 0 (childrenBy rescan entries 0 p) := by
  rw [tokensOf, layout_pieces]

theorem tokensBy_of_claim? {entries : List Entry} {e : Entry} {v : List Char}
    (h : claim? entries (.ofText v) = some (e, byteLength v)) (rescan : Bool) :
    tokensBy cutAfresh rescan entries 0 v = tokensOf rescan entries 0 [(some e, v)] := by
  have hrest : (Cursor.ofText v).rest = v ++ [] := (List.append_nil v).symm
  obtain ⟨d, hfirst, hd⟩ := firstPiece?_of_claim? hrest h
  rw [tokensBy_eq, cutAfresh, pieces_of_firstPiece? hfirst, pieces_of_end (Cursor.next?_eq_none.2 hd)]
  rfl

theorem claimed_tokensBy (rescan : Bool) (entries : List Entry) (text : List Char) :
    Token.claimed (tokensBy cutAfresh rescan entries 0 text) =
      Token.claimed (tokensOf rescan entries 0 ((cutAfresh entries text).map Piece.content)) := by
  rw [tokensBy_eq, Token.claimed, Token.filter_join, tokensOf, layout_cutAfresh]
  rfl

section

variable {rescan : Bool} {entries : List Entry} {d : Cursor}

theorem stop_le_of_not_crosses (hentries : ∀ e ∈ entries, e.kind ≠ .plain)
    (hcross : ∀ t ∈ tokensBy cutAfresh rescan entries 0 d.text, ¬ t.Crosses d.offset) :
    ∀ p ∈ pieces entries (.ofText d.text), p.claim ≠ none → p.start < d.offset →
      p.stop ≤ d.offset := by
  intro p hp hclaim hstart
  have hclaimed : (p.token 0 (childrenBy rescan entries 0 p)).isPlain = false := by
    rw [Piece.isPlain_token hentries hp]
    simpa using Option.isSome_iff_ne_none.2 hclaim
  refine Nat.not_lt.1 fun hstop =>
    hcross _ (token_mem_tokensBy rescan 0 hentries hp hclaim) ⟨hclaimed, ?_, ?_⟩
  · simpa [Piece.token] using hstart
  · simpa [Piece.token] using hstop

/-- **What is claimed behind a boundary** that no claimed token crosses is told by the pieces that are cut off
there. The cut begins at the boundary or a step of it leads there. -/
theorem claimedFrom_tokensBy (hentries : ∀ e ∈ entries, e.kind ≠ .plain)
    (hcross : ∀ t ∈ tokensBy cutAfresh rescan entries 0 d.text, ¬ t.Crosses d.offset) :
    (d = .ofText d.text ∨ ∃ b p, firstPiece? entries b = some (p, d)) ∧
      Token.claimedFrom d.offset (tokensBy cutAfresh rescan entries 0 d.text) =
        (Token.claimed (tokensOf rescan entries 0 ((pieces entries d).map Piece.content))).map
          (Token.shift d.offset) := by
  obtain ⟨ps, hps, hstops, hlast⟩ :=
    exists_pieces_append (Cursor.ofText_precedes d) (stop_le_of_not_crosses hentries hcross)
  refine ⟨hlast.imp Eq.symm id, ?_⟩
  have hbefore : (Token.claimed (ps.map fun p => p.token 0 (childrenBy rescan entries 0 p))).filter
      (fun t => decide (d.offset ≤ t.span.start)) = [] := by
    rw [List.filter_eq_nil_iff]
    intro t ht hle
    obtain ⟨p, hp, rfl⟩ := List.mem_map.1 (List.mem_filter.1 ht).1
    have hne : p.chars ≠ [] := chars_ne_nil (hps ▸ List.mem_append_left _ hp)
    have hpos := byteLength_pos.2 hne
    have hstop := hstops p hp
    have hstart : d.offset ≤ 0 + p.start := of_decide_eq_true hle
    rw [Piece.stop] at hstop
    omega
  have hbehind : (Token.claimed
      (tokensOf rescan entries d.offset ((pieces entries d).map Piece.content))).filter
      (fun t => decide (d.offset ≤ t.span.start)) =
      Token.claimed (tokensOf rescan entries d.offset ((pieces entries d).map Piece.content)) := by
    rw [List.filter_eq_self]
    intro t ht
    obtain ⟨p, hp, rfl⟩ := List.mem_map.1 (List.mem_filter.1 ht).1
    have hle : d.offset ≤ 0 + p.start := by
      rw [Nat.zero_add]
      exact Piece.start_le_of_mem_layout hp
    exact decide_eq_true hle
  rw [Token.claimedFrom, claimed_tokensBy, tokensOf, layout_cutAfresh, cutAfresh, hps,
    List.map_append, ← tokensOf_pieces, Token.claimed, List.filter_append, List.filter_append,
    ← Token.claimed, ← Token.claimed, hbefore, hbehind, List.nil_append, ← Token.claimed_map_shift,
    ← tokensOf_add, Nat.zero_add]

end

end Highlight
