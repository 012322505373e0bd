import Highlight.Proofs.Memory
import Highlight.Proofs.Piece.Claim
import Highlight.Proofs.Token.Tree

/-!
# The tokens of a run

A text is divided by a run over its pieces, and the text of a token with children by a run of its own: with the
entries that are left, from the start of the token on.

* `tokensBy_eq`: a run in one equation.
* `exists_piece_of_mem`: a token comes from a piece, and is all of it if the piece is claimed.
* `exists_claim?_of_mem`: a token that is not plain is what an entry claims at its start.
* `occurs_tokensBy`: a token at any depth is a token of the run that its parent's text was divided by.
* `tokensBy_add`: where a text begins only moves its tokens.
-/

namespace Highlight

/-- The entries of kinds that are not in a list. -/
def withoutAll (entries : List Entry) (kinds : List Kind) : List Entry :=
  entries.filter fun e => e.kind ∉ kinds

@[simp] theorem withoutAll_nil (entries : List Entry) : withoutAll entries [] = entries := by
  simp [withoutAll]

theorem without_withoutAll (entries : List Entry) (kinds : List Kind) (k : Kind) :
    without (withoutAll entries kinds) k = withoutAll entries (k :: kinds) := by
  rw [without, withoutAll, withoutAll, List.filter_filter]
  congr 1
  funext e
  simp

theorem mem_of_mem_withoutAll {entries : List Entry} {kinds : List Kind} {e : Entry}
    (h : e ∈ withoutAll entries kinds) : e ∈ entries :=
  (List.mem_filter.1 h).1

/-- The tokens that a piece is divided into if `e` claims it. -/
def childrenBy (rescan : Bool) (entries : List Entry) (base : Nat) (p : Piece) (e : Entry) :
    List Token :=
  if rescan && e.pattern.greedy then
    tokensBy cutAfresh rescan (without entries e.kind) (base + p.start) p.chars
  else []

theorem greedy_of_childrenBy_ne_nil {rescan : Bool} {entries : List Entry} {base : Nat} {p : Piece}
    {e : Entry} (h : childrenBy rescan entries base p e ≠ []) : e.pattern.greedy = true := by
  by_cases hgreedy : e.pattern.greedy = true
  · exact hgreedy
  · simp [childrenBy, hgreedy] at h

theorem mem_of_claim_cutAfresh {entries : List Entry} {text : List Char} {p : Piece} {e : Entry}
    (hp : p ∈ cutAfresh entries text) (he : p.claim = some e) : e ∈ entries :=
  mem_of_claim hp he

theorem layout_cutAfresh (entries : List Entry) (text : List Char) :
    Piece.layout 0 ((cutAfresh entries text).map Piece.content) = cutAfresh entries text :=
  layout_pieces entries (.ofText text)

/-- **A run in one equation.** An entry that claims a piece is one of the table, so its rule can be left out. -/
theorem tokensBy_eq (rescan : Bool) (entries : List Entry) (base : Nat) (text : List Char) :
    tokensBy cutAfresh rescan entries base text =
      Token.join ((cutAfresh entries text).map fun p =>
        p.token base (childrenBy rescan entries base p)) := by
  rw [tokensBy]
  congr 1
  apply List.map_congr_left
  intro p hp
  cases hclaim : p.claim with
  | none => simp [Piece.token, hclaim]
  | some e =>
    have he := mem_of_claim_cutAfresh hp hclaim
    simp [Piece.token, hclaim, childrenBy, length_without_lt he]

theorem Grammar.tokenize_eq (g : Grammar) (source : String) (rescan : Bool) :
    g.tokenize source rescan = tokensBy cutAfresh rescan g.entries 0 source.toList := by
  rw [tokenize, cutRemembering_eq]

theorem Grammar.kind_ne_plain {g : Grammar} {e : Entry} (he : e ∈ g.entries) : e.kind ≠ .plain := by
  obtain ⟨⟨kind, rule⟩, hrule, hmem⟩ := List.mem_flatMap.1 he
  obtain ⟨p, -, rfl⟩ := List.mem_map.1 hmem
  exact (g.wellFormed _ hrule).not_plain

/-! ## Tokens and pieces -/

section

variable {rescan : Bool} {entries : List Entry} {base : Nat} {text : List Char} {t : Token}

theorem Piece.isPlain_token {p : Piece} (hentries : ∀ e ∈ entries, e.kind ≠ .plain)
    (hp : p ∈ cutAfresh entries text) (base : Nat) (children : Entry → List Token) :
    (p.token base children).isPlain = p.claim.isNone := by
  cases hclaim : p.claim with
  | none => simp [Piece.token, Token.isPlain, hclaim]
  | some e =>
    have he := hentries e (mem_of_claim_cutAfresh hp hclaim)
    simp [Piece.token, Token.isPlain, hclaim, he]

/-- **A token comes from a piece**, and is all of it if the piece is claimed. -/
theorem exists_piece_of_mem (hentries : ∀ e ∈ entries, e.kind ≠ .plain)
    (h : t ∈ tokensBy cutAfresh rescan entries base text) :
    ∃ p ∈ cutAfresh entries text,
      t.SameStart (p.token base (childrenBy rescan entries base p)) ∧
      (p.claim ≠ none → t = p.token base (childrenBy rescan entries base p)) := by
  rw [tokensBy_eq] at h
  cases ht : t.isPlain with
  | true =>
    obtain ⟨u, hu, hsame⟩ := Token.exists_sameStart_of_mem_join h
    obtain ⟨p, hp, rfl⟩ := List.mem_map.1 hu
    refine ⟨p, hp, hsame, fun hclaim => absurd ?_ hclaim⟩
    have hplain := Piece.isPlain_token hentries hp base (childrenBy rescan entries base p)
    rw [Token.isPlain, ← hsame.kind] at hplain
    rw [Token.isPlain] at ht
    rw [ht] at hplain
    exact Option.isNone_iff_eq_none.1 hplain.symm
  | false =>
    obtain ⟨p, hp, rfl⟩ := List.mem_map.1 ((Token.mem_join_of_not_isPlain ht).1 h)
    exact ⟨p, hp, ⟨rfl, rfl, rfl, rfl⟩, fun _ => rfl⟩

theorem token_mem_tokensBy (rescan : Bool) (base : Nat) (hentries : ∀ e ∈ entries, e.kind ≠ .plain)
    {p : Piece} (hp : p ∈ cutAfresh entries text) (hclaim : p.claim ≠ none) :
    p.token base (childrenBy rescan entries base p) ∈ tokensBy cutAfresh rescan entries base text := by
  have hclaimed : (p.token base (childrenBy rescan entries base p)).isPlain = false := by
    rw [Piece.isPlain_token hentries hp]
    simpa using Option.isSome_iff_ne_none.2 hclaim
  rw [tokensBy_eq]
  exact (Token.mem_join_of_not_isPlain hclaimed).2 (List.mem_map_of_mem hp)

/-- **A token that is not plain is what an entry claims** at a position that the run comes to. -/
theorem exists_claim?_of_mem (hentries : ∀ e ∈ entries, e.kind ≠ .plain)
    (h : t ∈ tokensBy cutAfresh rescan entries base text) (hplain : t.kind = .plain → t.children ≠ []) :
    ∃ (e : Entry) (b : Cursor) (v w : List Char), (Cursor.ofText text).Precedes b ∧
      (b = .ofText text ∨ ∃ b' q, firstPiece? entries b' = some (q, b)) ∧ b.rest = v ++ w ∧
      claim? entries b = some (e, byteLength v) ∧
      t = (⟨some e, v, b.offset⟩ : Piece).token base
        (childrenBy rescan entries base ⟨some e, v, b.offset⟩) := by
  obtain ⟨⟨claim, chars, start⟩, hp, hsame, hwhole⟩ := exists_piece_of_mem hentries h
  obtain ⟨b, d, hprecedes, hreached, hfirst⟩ := exists_firstPiece?_of_mem hp
  have hspans := spans_of_firstPiece? hfirst
  obtain rfl : start = b.offset := hspans.start
  cases claim with
  | none => exact absurd hsame.children (hplain hsame.kind)
  | some e =>
    exact ⟨e, b, chars, d.rest, hprecedes, hreached, hspans.rest, claim?_of_firstPiece? hfirst,
      hwhole nofun⟩

theorem children_of_mem (hentries : ∀ e ∈ entries, e.kind ≠ .plain)
    (h : t ∈ tokensBy cutAfresh rescan entries base text) (hchildren : t.children ≠ []) :
    t.children =
      tokensBy cutAfresh rescan (without entries t.kind) t.span.start t.value.toList := by
  obtain ⟨p, hp, hsame, hwhole⟩ := exists_piece_of_mem hentries h
  rw [hsame.children, Piece.token] at hchildren
  cases hclaim : p.claim with
  | none => simp [hclaim] at hchildren
  | some e =>
    rw [hwhole (by simp [hclaim])]
    simp only [hclaim, Option.map_some, Option.getD_some, childrenBy] at hchildren
    split at hchildren
    · next hgreedy =>
      simp [Piece.token, hclaim, childrenBy, hgreedy, String.toList_ofList]
    · exact absurd rfl hchildren

/-! ## Runs below runs -/

namespace Token

/-- The text that was divided below the given tokens. -/
def textBelow (text : List Char) : List Token → List Char
  | [] => text
  | parent :: _ => parent.value.toList

/-- Where the text begins that was divided below the given tokens. -/
def baseBelow (base : Nat) : List Token → Nat
  | [] => base
  | parent :: _ => parent.span.start

end Token

/-- **A token at any depth is a token of the run over its parent's text**, with the entries of kinds that are
not above it. -/
theorem occurs_tokensBy (hentries : ∀ e ∈ entries, e.kind ≠ .plain) {above : List Token}
    (h : Token.Occurs (tokensBy cutAfresh rescan entries base text) above t) :
    t ∈ tokensBy cutAfresh rescan (withoutAll entries (above.map Token.kind))
      (Token.baseBelow base above) (Token.textBelow text above) := by
  induction h with
  | top h =>
    rw [List.map_nil, withoutAll_nil]
    exact h
  | @child above parent t _ h ih =>
    have hleft : ∀ e ∈ withoutAll entries (above.map Token.kind), e.kind ≠ .plain := by
      intro e he
      exact hentries e (mem_of_mem_withoutAll he)
    rw [children_of_mem hleft ih (List.ne_nil_of_mem h), without_withoutAll] at h
    exact h

end

theorem Grammar.kind_ne_plain_of_withoutAll {g : Grammar} (kinds : List Kind) :
    ∀ e ∈ withoutAll g.entries kinds, e.kind ≠ .plain := by
  intro e he
  exact kind_ne_plain (mem_of_mem_withoutAll he)

theorem Grammar.mem_run_of_occurs {g : Grammar} {source : String} {rescan : Bool}
    {above : List Token} {t : Token} (h : Token.Occurs (g.tokenize source rescan) above t) :
    t ∈ tokensBy cutAfresh rescan (withoutAll g.entries (above.map Token.kind))
      (Token.baseBelow 0 above) (Token.textBelow source.toList above) := by
  rw [tokenize_eq] at h
  exact occurs_tokensBy (fun _ => kind_ne_plain) h

/-! ## Runs that begin elsewhere -/

theorem Piece.token_add {p : Piece} {base n : Nat} {children moved : Entry → List Token}
    (h : ∀ e, p.claim = some e → moved e = (children e).map (Token.shift n)) :
    p.token (base + n) moved = (p.token base children).shift n := by
  have hchildren : (p.claim.map moved).getD [] = ((p.claim.map children).getD []).map (Token.shift n) := by
    cases hclaim : p.claim with
    | none => rfl
    | some e => exact h e hclaim
  have hspan : (⟨base + n + p.start, base + n + p.stop⟩ : Span) =
      Span.shift n ⟨base + p.start, base + p.stop⟩ := by
    rw [Span.shift, Nat.add_right_comm, Nat.add_right_comm base n p.stop]
  rw [Token.shift_eq, token, hchildren, hspan]
  rfl

/-- **Where a text begins only moves its tokens.** -/
theorem tokensBy_add (rescan : Bool) (entries : List Entry) (base n : Nat) (text : List Char) :
    tokensBy cutAfresh rescan entries (base + n) text =
      (tokensBy cutAfresh rescan entries base text).map (Token.shift n) := by
  -- on the number of entries, since the text of a piece is divided without the rule that claims it
  induction hsize : entries.length using Nat.strongRecOn generalizing entries base text with
  | ind size ih =>
    rw [tokensBy_eq, tokensBy_eq, ← Token.join_map_shift, List.map_map]
    congr 1
    apply List.map_congr_left
    intro p hp
    apply Piece.token_add
    intro e hclaim
    have hlt := length_without_lt (mem_of_claim_cutAfresh hp hclaim)
    rw [childrenBy, childrenBy]
    split
    · rw [Nat.add_right_comm]
      exact ih _ (hsize ▸ hlt) (without entries e.kind) (base + p.start) p.chars rfl
    · rfl

theorem childrenBy_add (rescan : Bool) (entries : List Entry) (base n : Nat) (p : Piece) (e : Entry) :
    childrenBy rescan entries (base + n) p e =
      (childrenBy rescan entries base p e).map (Token.shift n) := by
  rw [childrenBy, childrenBy]
  split
  · rw [Nat.add_right_comm, tokensBy_add]
  · rfl

end Highlight
