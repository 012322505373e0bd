import Highlight.Proofs.Pattern.Offer
import Highlight.Proofs.Piece.Basic

/-!
# What a step of a cut sees

A cut of a text goes on by `firstPiece?`, one piece at a time. What was cut off before it no longer counts, but
for the character in front of the position: `Alike c d` says that two positions, perhaps in two texts, have the
same rest and the same character before them, where the start of a text is like a newline. An expression that
does not ask for the start reads alike at alike positions (`Cursor.Alike.reads?`).

* `content_pieces_of_alike`: two cuts go on alike from alike positions if the entries offer alike there.
* `exists_pieces_append`: a cut that steps over no boundary inside a claimed piece is a cut up to the boundary and one
  that begins there.
-/

namespace Highlight

/-! ## One step -/

/-- The piece that a cut begins with, and where the cut goes on. -/
def firstPiece? (entries : List Entry) (c : Cursor) : Option (Piece × Cursor) :=
  c.next?.map fun (a, d) =>
    match offer? entries c with
    | none => (⟨none, [a], c.offset⟩, d)
    | some (e, m) => (⟨some e, a :: (d.cut m.stop).1, c.offset⟩, (d.cut m.stop).2)

theorem pieces_of_firstPiece?_eq_none {entries : List Entry} {c : Cursor}
    (h : firstPiece? entries c = none) : pieces entries c = [] :=
  pieces_of_end (Option.map_eq_none_iff.1 h)

theorem pieces_of_firstPiece? {entries : List Entry} {c d : Cursor} {p : Piece}
    (h : firstPiece? entries c = some (p, d)) : pieces entries c = p :: pieces entries d := by
  obtain ⟨⟨a, e⟩, hnext, hpiece⟩ := Option.map_eq_some_iff.1 h
  cases hoffer : offer? entries c with
  | none =>
    rw [hoffer] at hpiece
    cases hpiece
    exact pieces_of_offer_eq_none hnext hoffer
  | some offered =>
    rw [hoffer] at hpiece
    cases hpiece
    exact pieces_of_offer? hnext hoffer

/-- A step goes over the characters of its piece, of which there is one if nothing claims it. -/
structure Piece.Spans (p : Piece) (c d : Cursor) : Prop where
  rest : c.rest = p.chars ++ d.rest
  before : d.before = p.chars.reverse ++ c.before
  start : p.start = c.offset
  chars_ne_nil : p.chars ≠ []
  single : p.claim = none → ∃ a, p.chars = [a]

theorem spans_of_firstPiece? {entries : List Entry} {c d : Cursor} {p : Piece}
    (h : firstPiece? entries c = some (p, d)) : p.Spans c d := by
  obtain ⟨⟨a, e⟩, hnext, hpiece⟩ := Option.map_eq_some_iff.1 h
  obtain ⟨hrest, hbefore⟩ := Cursor.next?_eq_some.1 hnext
  cases hoffer : offer? entries c with
  | none =>
    rw [hoffer] at hpiece
    cases hpiece
    exact ⟨hrest, hbefore, rfl, List.cons_ne_nil _ _, fun _ => ⟨a, rfl⟩⟩
  | some offered =>
    rw [hoffer] at hpiece
    cases hpiece
    refine ⟨?_, ?_, rfl, List.cons_ne_nil _ _, nofun⟩
    · rw [hrest, List.cons_append, Cursor.rest_cut]
    · rw [Cursor.before_cut, hbefore, List.reverse_cons, List.append_assoc]
      rfl

theorem stop_le_of_firstPiece? {entries : List Entry} {c d : Cursor} {p : Piece} {e : Entry}
    {m : Match} (h : firstPiece? entries c = some (p, d)) (hoffer : offer? entries c = some (e, m)) :
    m.stop ≤ d.offset ∨ d.rest = [] := by
  obtain ⟨⟨a, f⟩, -, hpiece⟩ := Option.map_eq_some_iff.1 h
  rw [hoffer] at hpiece
  cases hpiece
  exact f.le_offset_cut m.stop

namespace Piece.Spans

variable {p : Piece} {c d : Cursor}

theorem precedes (h : p.Spans c d) : c.Precedes d :=
  ⟨p.chars, h.rest, h.before⟩

theorem stop_eq (h : p.Spans c d) : p.stop = d.offset := by
  rw [stop, h.start, Cursor.offset_of_before h.before]

theorem length_lt (h : p.Spans c d) : d.rest.length < c.rest.length := by
  have hpos := List.length_pos_iff.2 h.chars_ne_nil
  rw [h.rest, List.length_append]
  omega

end Piece.Spans

/-! ## Alike positions -/

namespace Cursor

/-- The character before a position. The start of a text counts as the end of a line. -/
def left (c : Cursor) : Char :=
  c.before.head?.getD '\n'

/-- The positions have the same text behind them and the same character before them. -/
structure Alike (c d : Cursor) : Prop where
  rest : c.rest = d.rest
  left : c.left = d.left

theorem Alike.next? {c d c' : Cursor} {a : Char} (h : c.Alike d) (hc : c.next? = some (a, c')) :
    ∃ d', d.next? = some (a, d') ∧ c'.rest = d'.rest := by
  have hd : d.rest = a :: c'.rest := h.rest ▸ (next?_eq_some.1 hc).1
  obtain ⟨d', hnext, hrest⟩ := exists_next? hd
  exact ⟨d', hnext, hrest.symm⟩

theorem Alike.of_spans {c d c' d' : Cursor} {p q : Piece} (h : c.Alike d) (hp : p.Spans c c')
    (hq : q.Spans d d') (hpq : p.chars = q.chars) : c'.Alike d' := by
  refine ⟨?_, ?_⟩
  · have hrest : p.chars ++ c'.rest = p.chars ++ d'.rest := by
      rw [← hp.rest, h.rest, hq.rest, hpq]
    exact List.append_cancel_left hrest
  · unfold Cursor.left
    rw [hp.before, hq.before, ← hpq]
    cases hrev : p.chars.reverse with
    | nil => exact absurd (List.reverse_eq_nil_iff.1 hrev) hp.chars_ne_nil
    | cons a more => rfl

/-- What is the same for the start of a text as for a newline is the same before alike positions. -/
theorem Alike.before {α : Type} {c d : Cursor} (h : c.Alike d) {f : Option Char → α}
    (hf : f none = f (some '\n')) : f c.before.head? = f d.before.head? := by
  have hleft : ∀ e : Cursor, f e.before.head? = f (some e.left) := by
    intro e
    unfold Cursor.left
    cases e.before.head? with
    | none => exact hf
    | some a => rfl
  rw [hleft, hleft, h.left]

theorem Alike.reads? {c d : Cursor} (h : c.Alike d) {r : Regex}
    (hr : r.isOver .unanchored = true) (place : Nat) :
    reads? [[⟨r, place⟩]] c.before.head? c.rest = reads? [[⟨r, place⟩]] d.before.head? d.rest := by
  have hword : c.before.head?.any isWord = d.before.head?.any isWord :=
    h.before (f := fun prev => prev.any isWord) (by decide)
  rw [← h.rest]
  exact reads?_congr (Vocabulary.confuses_of_isWord hword _) (Vocabulary.spells_singleton hr place)

end Cursor

theorem map_offer? (entries : List Entry) (c : Cursor) :
    (offer? entries c).map (fun (e, m) => (e, m.stop - c.offset)) =
      entries.findSome? fun e => (e.pattern.length? c).map (e, ·) := by
  rw [offer?, List.map_findSome?]
  congr 1
  funext e
  rw [Function.comp_apply, Option.map_map, Pattern.length?, Option.map_map]
  rfl

theorem lt_stop_of_offer? {entries : List Entry} {c : Cursor} {e : Entry} {m : Match}
    (h : offer? entries c = some (e, m)) : c.offset < m.stop :=
  (Pattern.fits_of_offer? (mem_of_offer? h).2).2

/-- **Where entries offer alike, the first pieces are alike.** -/
theorem firstPiece?_of_alike {entries : List Entry} {c d c' : Cursor} {p : Piece} (h : c.Alike d)
    (hoffer : ∀ e ∈ entries, e.pattern.length? c = e.pattern.length? d)
    (hc : firstPiece? entries c = some (p, c')) :
    ∃ q d', firstPiece? entries d = some (q, d') ∧ p.content = q.content ∧ c'.Alike d' := by
  have hmap : (offer? entries c).map (fun (e, m) => (e, m.stop - c.offset)) =
      (offer? entries d).map fun (e, m) => (e, m.stop - d.offset) := by
    rw [map_offer?, map_offer?]
    exact findSome?_congr fun e he => by rw [hoffer e he]
  have hspans := spans_of_firstPiece? hc
  obtain ⟨⟨a, c''⟩, hcnext, hpiece⟩ := Option.map_eq_some_iff.1 hc
  obtain ⟨d'', hdnext, hrest⟩ := h.next? hcnext
  -- the pieces agree, and the positions behind them follow
  suffices hfirst : ∃ q d', firstPiece? entries d = some (q, d') ∧ p.content = q.content by
    obtain ⟨q, d', hq, hcontent⟩ := hfirst
    exact ⟨q, d', hq, hcontent,
      h.of_spans hspans (spans_of_firstPiece? hq) (congrArg Prod.snd hcontent)⟩
  rw [firstPiece?, hdnext, Option.map_some]
  cases hco : offer? entries c with
  | none =>
    rw [hco, Option.map_none, eq_comm, Option.map_eq_none_iff] at hmap
    rw [hco] at hpiece
    rw [hmap]
    cases hpiece
    exact ⟨_, _, rfl, rfl⟩
  | some offered =>
    obtain ⟨e, m⟩ := offered
    rw [hco, Option.map_some] at hmap
    obtain ⟨⟨f, n⟩, hdo, hfn⟩ := Option.map_eq_some_iff.1 hmap.symm
    rw [hco] at hpiece
    rw [hdo]
    cases hpiece
    obtain ⟨rfl, hlength⟩ := Prod.mk.inj hfn
    have hm := lt_stop_of_offer? hco
    have hn := lt_stop_of_offer? hdo
    have hcoffset := Cursor.offset_next? hcnext
    have hdoffset := Cursor.offset_next? hdnext
    have hsplit : m.stop - c''.offset = n.stop - d''.offset := by omega
    refine ⟨_, _, rfl, ?_⟩
    rw [Piece.content, Piece.content, Cursor.cut, Cursor.cut, hsplit, hrest]

/-- **Two cuts go on alike from alike positions**, if the entries offer alike at alike positions that are
`Regular`, and a step leads to such a position. -/
theorem content_pieces_of_alike {entries : List Entry} {Regular : Cursor → Prop}
    (hoffer : ∀ e ∈ entries, ∀ c d, c.Alike d → Regular c → Regular d →
      e.pattern.length? c = e.pattern.length? d)
    (hstep : ∀ c d p, firstPiece? entries c = some (p, d) → Regular d) {c d : Cursor}
    (h : c.Alike d) (hc : Regular c) (hd : Regular d) :
    (pieces entries c).map Piece.content = (pieces entries d).map Piece.content := by
  induction hlength : c.rest.length using Nat.strongRecOn generalizing c d with
  | ind n ih =>
    cases hfirst : firstPiece? entries c with
    | none =>
      have hend : d.next? = none := by
        have hcrest := Cursor.next?_eq_none.1 (Option.map_eq_none_iff.1 hfirst)
        exact Cursor.next?_eq_none.2 (h.rest ▸ hcrest)
      rw [pieces_of_firstPiece?_eq_none hfirst, pieces_of_end hend]
    | some first =>
      obtain ⟨p, c'⟩ := first
      obtain ⟨q, d', hq, hcontent, hnext⟩ :=
        firstPiece?_of_alike h (fun e he => hoffer e he c d h hc hd) hfirst
      have hlt := (spans_of_firstPiece? hfirst).length_lt
      rw [pieces_of_firstPiece? hfirst, pieces_of_firstPiece? hq, List.map_cons, List.map_cons,
        hcontent, ih _ (hlength ▸ hlt) hnext (hstep c c' p hfirst) (hstep d d' q hq) rfl]

/-! ## Cuts in two -/

/-- **A cut that claims nothing across a boundary** is a cut up to the boundary and one that begins there. -/
theorem exists_pieces_append {entries : List Entry} {c d : Cursor} (h : c.Precedes d)
    (hcross : ∀ p ∈ pieces entries c, p.claim ≠ none → p.start < d.offset → p.stop ≤ d.offset) :
    ∃ ps, pieces entries c = ps ++ pieces entries d ∧ (∀ p ∈ ps, p.stop ≤ d.offset) ∧
      (c = d ∨ ∃ b p, firstPiece? entries b = some (p, d)) := by
  induction hlength : c.rest.length using Nat.strongRecOn generalizing c with
  | ind n ih =>
    rcases h.eq_or_next? with rfl | ⟨a, e, hnext, hed⟩
    · exact ⟨[], rfl, List.forall_mem_nil _, Or.inl rfl⟩
    · cases hfirst : firstPiece? entries c with
      | none =>
        rw [Option.map_eq_none_iff.1 hfirst] at hnext
        cases hnext
      | some first =>
        obtain ⟨p, c'⟩ := first
        have hspans := spans_of_firstPiece? hfirst
        rw [pieces_of_firstPiece? hfirst] at hcross ⊢
        obtain ⟨hp, hmore⟩ := List.forall_mem_cons.1 hcross
        have hce := Cursor.offset_next? hnext
        have ha := a.utf8Size_pos
        have hed' := hed.offset_le
        -- a piece that nothing claims is one character, so it ends at `e`
        have hstop : p.stop ≤ d.offset := by
          by_cases hclaim : p.claim = none
          · obtain ⟨b, hb⟩ := hspans.single hclaim
            have hrest := hspans.rest
            rw [hb, (Cursor.next?_eq_some.1 hnext).1] at hrest
            obtain ⟨rfl, -⟩ := List.cons.inj hrest
            rw [Piece.stop, hspans.start, hb, byteLength_cons, byteLength_nil]
            omega
          · exact hp hclaim (by rw [hspans.start]; omega)
        have hcd : c'.Precedes d := by
          have htext : c'.text = d.text := hspans.precedes.text_eq.trans h.text_eq.symm
          exact Cursor.precedes_of_offset_le htext (hspans.stop_eq ▸ hstop)
        obtain ⟨ps, hps, hstops, hlast⟩ := ih _ (hlength ▸ hspans.length_lt) hcd hmore rfl
        refine ⟨p :: ps, by rw [hps, List.cons_append], List.forall_mem_cons.2 ⟨hstop, hstops⟩, ?_⟩
        rcases hlast with rfl | hlast
        · exact Or.inr ⟨c, p, hfirst⟩
        · exact Or.inr hlast

end Highlight
