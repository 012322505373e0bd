import Highlight.Piece.Basic
import Highlight.Proofs.Text.Cursor

/-!
# One piece after another

A cut of a text takes one step at a time: `pieces_of_offer_eq_none` and `pieces_of_offer?` tell what a step does.

What a piece holds is its `content`: who claims it, and its characters. Where it begins is told by the pieces before
it, so a cut is the `layout` of the contents of its pieces (`layout_pieces`).
-/

namespace Highlight

theorem findSome?_congr {α β : Type} {f g : α → Option β} {xs : List α} (h : ∀ x ∈ xs, f x = g x) :
    xs.findSome? f = xs.findSome? g := by
  induction xs with
  | nil => rfl
  | cons x xs ih =>
    obtain ⟨hx, hxs⟩ := List.forall_mem_cons.1 h
    rw [List.findSome?_cons, List.findSome?_cons, hx, ih hxs]

/-! ## The steps of a cut -/

theorem pieces_of_end {entries : List Entry} {c : Cursor} (h : c.next? = none) :
    pieces entries c = [] := by
  rw [pieces]
  split <;> simp_all

theorem pieces_of_offer_eq_none {entries : List Entry} {c d : Cursor} {a : Char}
    (h : c.next? = some (a, d)) (hoffer : offer? entries c = none) :
    pieces entries c = ⟨none, [a], c.offset⟩ :: pieces entries d := by
  rw [pieces]
  split <;> simp_all

theorem pieces_of_offer? {entries : List Entry} {c d : Cursor} {a : Char} {e : Entry} {m : Match}
    (h : c.next? = some (a, d)) (hoffer : offer? entries c = some (e, m)) :
    pieces entries c =
      ⟨some e, a :: (d.cut m.stop).1, c.offset⟩ :: pieces entries (d.cut m.stop).2 := by
  rw [pieces]
  split <;> simp_all

theorem mem_of_offer? {entries : List Entry} {c : Cursor} {e : Entry} {m : Match}
    (h : offer? entries c = some (e, m)) : e ∈ entries ∧ e.pattern.offer? c = some m := by
  obtain ⟨f, hf, hoffer⟩ := List.exists_of_findSome?_eq_some h
  obtain ⟨m', hm', heq⟩ := Option.map_eq_some_iff.1 hoffer
  cases heq
  exact ⟨hf, hm'⟩

theorem mem_of_claim {entries : List Entry} {c : Cursor} {p : Piece} {e : Entry}
    (hp : p ∈ pieces entries c) (he : p.claim = some e) : e ∈ entries := by
  fun_induction pieces entries c with
  | case1 => cases hp
  | case2 c a d _ _ ih =>
    rcases List.mem_cons.1 hp with rfl | hp
    · cases he
    · exact ih hp
  | case3 c a d _ f m hoffer ih =>
    rcases List.mem_cons.1 hp with rfl | hp
    · cases he
      exact (mem_of_offer? hoffer).1
    · exact ih hp

theorem chars_ne_nil {entries : List Entry} {c : Cursor} {p : Piece} (hp : p ∈ pieces entries c) :
    p.chars ≠ [] := by
  fun_induction pieces entries c with
  | case1 => cases hp
  | case2 c a d _ _ ih =>
    rcases List.mem_cons.1 hp with rfl | hp
    · exact List.cons_ne_nil _ _
    · exact ih hp
  | case3 c a d _ f m _ ih =>
    rcases List.mem_cons.1 hp with rfl | hp
    · exact List.cons_ne_nil _ _
    · exact ih hp

/-! ## The layout of a cut -/

namespace Piece

/-- Who claims the piece, and its characters. -/
def content (p : Piece) : Option Entry × List Char :=
  (p.claim, p.chars)

/-- Pieces with the given contents, one behind another, the first at `start`. -/
def layout (start : Nat) : List (Option Entry × List Char) → List Piece
  | [] => []
  | (claim, chars) :: more => ⟨claim, chars, start⟩ :: layout (start + byteLength chars) more

end Piece

theorem content_ne_nil (entries : List Entry) (c : Cursor) :
    ∀ x ∈ (pieces entries c).map Piece.content, x.2 ≠ [] := by
  intro x hx
  obtain ⟨p, hp, rfl⟩ := List.mem_map.1 hx
  exact chars_ne_nil hp

/-- **A piece begins where the one before it ends.** -/
theorem layout_pieces (entries : List Entry) (c : Cursor) :
    Piece.layout c.offset ((pieces entries c).map Piece.content) = pieces entries c := by
  fun_induction pieces entries c with
  | case1 => rfl
  | case2 c a d h _ ih =>
    have hd : c.offset + byteLength [a] = d.offset := (Cursor.offset_next? h).symm
    rw [List.map_cons, Piece.content, Piece.layout, hd, ih]
  | case3 c a d h e m _ ih =>
    have hd : c.offset + byteLength (a :: (d.cut m.stop).1) = (d.cut m.stop).2.offset := by
      rw [Cursor.offset_cut, Cursor.offset_next? h, byteLength_cons, Nat.add_assoc]
    rw [List.map_cons, Piece.content, Piece.layout, hd, ih]

namespace Piece

theorem start_le_of_mem_layout {start : Nat} {contents : List (Option Entry × List Char)} {p : Piece}
    (hp : p ∈ layout start contents) : start ≤ p.start := by
  induction contents generalizing start with
  | nil => cases hp
  | cons x more ih =>
    obtain ⟨claim, chars⟩ := x
    rcases List.mem_cons.1 hp with rfl | hp
    · exact Nat.le_refl _
    · exact Nat.le_trans (Nat.le_add_right _ _) (ih hp)

theorem pairwise_layout {contents : List (Option Entry × List Char)} (hne : ∀ x ∈ contents, x.2 ≠ [])
    (start : Nat) : (layout start contents).Pairwise fun p q => p.start < q.start := by
  induction contents generalizing start with
  | nil => exact .nil
  | cons x more ih =>
    obtain ⟨claim, chars⟩ := x
    obtain ⟨hchars, hmore⟩ := List.forall_mem_cons.1 hne
    refine List.pairwise_cons.2 ⟨fun q hq => ?_, ih hmore _⟩
    have hpos : 0 < byteLength chars := byteLength_pos.2 hchars
    have hle := start_le_of_mem_layout hq
    simp only
    omega

end Piece

theorem eq_of_start_eq {entries : List Entry} {c : Cursor} {p q : Piece} (hp : p ∈ pieces entries c)
    (hq : q ∈ pieces entries c) (hstart : p.start = q.start) : p = q := by
  have hpairwise := Piece.pairwise_layout (content_ne_nil entries c) c.offset
  rw [layout_pieces] at hpairwise
  refine List.Pairwise.forall_of_forall_of_flip (R := fun p q : Piece => p.start = q.start → p = q)
    (fun _ _ _ => rfl) (hpairwise.imp ?_) (hpairwise.imp ?_) hp hq hstart
  · intro p q hlt heq
    omega
  · intro p q hlt heq
    omega

end Highlight
