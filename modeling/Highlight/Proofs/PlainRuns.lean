import Highlight.Proofs.Nesting
import Highlight.Proofs.Priority

/-!
# Runs of plain text

The plain tokens of a list are the maximal runs of characters that nothing claims. `Visits entries c d` says that a cut
which begins at `c` comes to `d`, step by step. A position is visited exactly if a piece begins there
(`visits_iff_exists_piece`), and a byte is plain exactly if the cut comes to its character and no entry offers anything
at it (`plainAt_iff_visits`). The tokens lie side by side, so two plain ones in a row would have been joined.

`Grammar.plainRuns_tokenize` says this of the tokens of a text and of the children of each token below them.
-/

namespace Highlight

/-! ## Where a cut comes to -/

/-- A cut with the entries that begins at `c` comes to the position. -/
inductive Visits (entries : List Entry) (c : Cursor) : Cursor → Prop
  | start : Visits entries c c
  | step {d e : Cursor} {p : Piece} (h : Visits entries c d) (hfirst : firstPiece? entries d = some (p, e)) :
      Visits entries c e

section

variable {entries : List Entry} {c d : Cursor} {p : Piece}

theorem offer?_eq_none_iff : offer? entries c = none ↔ ∀ e ∈ entries, e.pattern.offer? c = none := by
  rw [offer?, List.findSome?_eq_none_iff]
  exact forall₂_congr fun e _ => Option.map_eq_none_iff

namespace Visits

theorem precedes (h : Visits entries c d) : c.Precedes d := by
  induction h with
  | start => exact .refl c
  | step _ hfirst ih => exact ih.trans (spans_of_firstPiece? hfirst).precedes

theorem exists_pieces_append (h : Visits entries c d) : ∃ ps, pieces entries c = ps ++ pieces entries d := by
  induction h with
  | start => exact ⟨[], rfl⟩
  | @step d e p _ hfirst ih =>
    obtain ⟨ps, hps⟩ := ih
    refine ⟨ps ++ [p], ?_⟩
    rw [hps, pieces_of_firstPiece? hfirst, List.append_assoc, List.singleton_append]

theorem mem_pieces {e : Cursor} (h : Visits entries c d) (hfirst : firstPiece? entries d = some (p, e)) :
    p ∈ pieces entries c := by
  obtain ⟨ps, hps⟩ := h.exists_pieces_append
  rw [hps, pieces_of_firstPiece? hfirst]
  exact List.mem_append_right ps List.mem_cons_self

theorem exists_of_mem (h : Visits entries c d) (hp : p ∈ pieces entries d) :
    ∃ b e, Visits entries c b ∧ firstPiece? entries b = some (p, e) := by
  induction hlength : d.rest.length using Nat.strongRecOn generalizing d with
  | ind n ih =>
    cases hfirst : firstPiece? entries d with
    | none =>
      rw [pieces_of_firstPiece?_eq_none hfirst] at hp
      cases hp
    | some first =>
      obtain ⟨q, e⟩ := first
      rw [pieces_of_firstPiece? hfirst] at hp
      rcases List.mem_cons.1 hp with rfl | hp
      · exact ⟨d, e, h, hfirst⟩
      · exact ih _ (hlength ▸ (spans_of_firstPiece? hfirst).length_lt) (h.step hfirst) hp rfl

end Visits

/-- **The positions that a cut comes to are those where its pieces begin**, and the end of the text. -/
theorem visits_iff_exists_piece {text : List Char} (htext : c.text = text) (hnext : c.next? ≠ none) :
    Visits entries (.ofText text) c ↔ ∃ p ∈ cutRemembering entries text, p.start = c.offset := by
  rw [cutRemembering_eq]
  constructor
  · intro h
    cases hfirst : firstPiece? entries c with
    | none => exact absurd (Option.map_eq_none_iff.1 hfirst) hnext
    | some first => exact ⟨first.1, h.mem_pieces hfirst, (spans_of_firstPiece? hfirst).start⟩
  · rintro ⟨p, hp, hstart⟩
    obtain ⟨b, e, hb, hfirst⟩ := Visits.start.exists_of_mem hp
    have hoffset : b.offset = c.offset := (spans_of_firstPiece? hfirst).start.symm.trans hstart
    rwa [← Cursor.eq_of_offset_eq (hb.precedes.text_eq.trans htext.symm) hoffset]

theorem claim_eq_none_iff (hfirst : firstPiece? entries c = some (p, d)) :
    (p.claim = none ↔ offer? entries c = none) ∧
      (p.claim = none → ∃ a, c.next? = some (a, d)) := by
  obtain ⟨⟨a, e⟩, hnext, hpiece⟩ := Option.map_eq_some_iff.1 hfirst
  cases hoffer : offer? entries c with
  | none =>
    rw [hoffer] at hpiece
    cases hpiece
    exact ⟨iff_of_true rfl rfl, fun _ => ⟨a, hnext⟩⟩
  | some offered =>
    rw [hoffer] at hpiece
    cases hpiece
    exact ⟨iff_of_false nofun nofun, nofun⟩

end

/-! ## The plain bytes of a run -/

section

variable {rescan : Bool} {entries : List Entry} {base n : Nat} {text : List Char}

theorem plainAt_iff_exists_piece (hentries : ∀ e ∈ entries, e.kind ≠ .plain) :
    Token.PlainAt (base + n) (tokensBy cutAfresh rescan entries base text) ↔
      ∃ p ∈ cutAfresh entries text, p.claim = none ∧ p.start ≤ n ∧ n < p.stop := by
  rw [tokensBy_eq, Token.plainAt_join (tiles_pieces rescan entries base text)]
  constructor
  · rintro ⟨t, ht, hplain, hstart, hstop⟩
    obtain ⟨p, hp, rfl⟩ := List.mem_map.1 ht
    rw [Piece.isPlain_token hentries hp] at hplain
    exact ⟨p, hp, Option.isNone_iff_eq_none.1 hplain, Nat.le_of_add_le_add_left hstart,
      Nat.lt_of_add_lt_add_left hstop⟩
  · rintro ⟨p, hp, hclaim, hstart, hstop⟩
    refine ⟨_, List.mem_map_of_mem hp, ?_, Nat.add_le_add_left hstart base, Nat.add_lt_add_left hstop base⟩
    rw [Piece.isPlain_token hentries hp, hclaim]
    rfl

/-- **A byte is plain exactly if the cut comes to its character** and no entry offers anything there. -/
theorem plainAt_iff_visits (hentries : ∀ e ∈ entries, e.kind ≠ .plain) {c : Cursor} (htext : c.text = text)
    (hn : c.Holds n) :
    Token.PlainAt (base + n) (tokensBy cutAfresh rescan entries base text) ↔
      Visits entries (.ofText text) c ∧ ∀ e ∈ entries, e.pattern.offer? c = none := by
  rw [plainAt_iff_exists_piece hentries, ← offer?_eq_none_iff]
  constructor
  · rintro ⟨p, hp, hclaim, hstart, hstop⟩
    obtain ⟨b, d, hb, hfirst⟩ := Visits.start.exists_of_mem hp
    have hspans := spans_of_firstPiece? hfirst
    obtain ⟨hnone, hchar⟩ := claim_eq_none_iff hfirst
    obtain ⟨a, hnext⟩ := hchar hclaim
    -- the piece is the character alone, so the byte belongs to the character behind `b`
    have hholds : b.Holds n := ⟨a, d, hnext, hspans.start ▸ hstart, hspans.stop_eq ▸ hstop⟩
    obtain rfl := Cursor.eq_of_holds (hb.precedes.text_eq.trans htext.symm) hholds hn
    exact ⟨hb, hnone.1 hclaim⟩
  · rintro ⟨hvisits, hoffer⟩
    obtain ⟨a, d, hnext, hle, hlt⟩ := hn
    have hfirst : firstPiece? entries c = some (⟨none, [a], c.offset⟩, d) := by
      rw [firstPiece?, hnext, Option.map_some, hoffer]
    refine ⟨_, hvisits.mem_pieces hfirst, rfl, hle, ?_⟩
    rwa [(spans_of_firstPiece? hfirst).stop_eq]

end

/-! ## Maximal runs -/

/-- The plain tokens of a list are the maximal runs of unclaimed characters of its text, which begins at byte `base`
and is cut with the entries. -/
structure Token.PlainRuns (entries : List Entry) (base : Nat) (text : List Char) (ts : List Token) : Prop where
  /-- No plain token stands next to another. -/
  apart : ts.IsChain fun t u => ¬ (t.isPlain = true ∧ u.isPlain = true)
  /-- Before its end the cut comes to the characters where its pieces begin. -/
  stops : ∀ c : Cursor, c.text = text → c.next? ≠ none →
    (Visits entries (.ofText text) c ↔ ∃ p ∈ cutRemembering entries text, p.start = c.offset)
  /-- A byte is plain exactly if the cut comes to the character that it belongs to, and no entry offers a token there. -/
  unclaimed : ∀ n < byteLength text, ∃ c : Cursor, c.text = text ∧ c.Holds n ∧
    (PlainAt (base + n) ts ↔
      Visits entries (.ofText text) c ∧ ∀ e ∈ entries, e.pattern.offer? c = none)

theorem Token.isChain_plain_join {start : Nat} {text : List Char} {ts : List Token} (h : Tiles start text ts) :
    (join ts).IsChain fun t u => ¬ (t.isPlain = true ∧ u.isPlain = true) := by
  rw [List.isChain_iff_forall_rel_of_append_cons_cons]
  rintro t u before after hsplit ⟨ht, hu⟩
  have htouch := List.isChain_iff_forall_rel_of_append_cons_cons.1 h.join.isChain hsplit
  have hcontinues := List.isChain_iff_forall_rel_of_append_cons_cons.1 (isChain_join ts) hsplit
  exact hcontinues (by simp [continues, ht, hu, htouch])

theorem plainRuns_tokensBy {entries : List Entry} (hentries : ∀ e ∈ entries, e.kind ≠ .plain) (rescan : Bool)
    (base : Nat) (text : List Char) :
    Token.PlainRuns entries base text (tokensBy cutAfresh rescan entries base text) where
  apart := by
    rw [tokensBy_eq]
    exact Token.isChain_plain_join (tiles_pieces rescan entries base text)
  stops := fun _ => visits_iff_exists_piece
  unclaimed := by
    intro n hn
    obtain ⟨c, htext, hc⟩ := Cursor.exists_holds (c := .ofText text) (Nat.zero_le n)
      (Nat.lt_of_lt_of_eq hn (Nat.zero_add _).symm)
    exact ⟨c, htext, hc, plainAt_iff_visits hentries htext hc⟩

/-- **Plain tokens are the maximal runs of unclaimed text**, among the tokens of a text and among the children of each
token, whose text is cut with the entries of the kinds that are not around it. -/
theorem Grammar.plainRuns_tokenize (g : Grammar) (source : String) (rescan : Bool) :
    Token.PlainRuns g.entries 0 source.toList (g.tokenize source rescan) ∧
      ∀ above t, Token.Occurs (g.tokenize source rescan) above t → t.children ≠ [] →
        Token.PlainRuns (withoutAll g.entries ((t :: above).map Token.kind)) t.span.start t.value.toList
          t.children := by
  constructor
  · rw [tokenize_eq]
    exact plainRuns_tokensBy (fun _ => kind_ne_plain) rescan 0 source.toList
  · intro above t h hchildren
    have hleft := kind_ne_plain_of_withoutAll (g := g) ((t :: above).map Token.kind)
    rw [List.map_cons, ← without_withoutAll] at hleft ⊢
    rw [children_of_mem (kind_ne_plain_of_withoutAll _) (mem_run_of_occurs h) hchildren]
    exact plainRuns_tokensBy hleft rescan t.span.start t.value.toList

/-- In the string `"a t"` the quote, the letter and the blank before the word are one plain child. -/
theorem Moonli.plainRuns_of_string :
    ∃ t ∈ Moonli.grammar.tokenize "\"a t\"" true, t.children ≠ [] ∧
      Token.PlainRuns (withoutAll Moonli.grammar.entries [t.kind]) t.span.start t.value.toList t.children := by
  have hfirst : ∃ t ∈ Moonli.grammar.tokenize "\"a t\"" true, 0 < t.children.length := by
    decide +kernel
  obtain ⟨t, hmem, hlength⟩ := hfirst
  have hchildren : t.children ≠ [] := List.length_pos_iff.1 hlength
  exact ⟨t, hmem, hchildren,
    (Grammar.plainRuns_tokenize Moonli.grammar "\"a t\"" true).2 [] t (.top hmem) hchildren⟩

end Highlight
