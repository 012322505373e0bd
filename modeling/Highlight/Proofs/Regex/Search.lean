import Highlight.Piece.Basic
import Highlight.Proofs.Text.Cursor

/-!
# One search answers for many positions

A search gives the leftmost match. Hence it gives the same match from every position up to that match
(`search_of_precedes`), and where it finds nothing there is nothing to find farther on (`search_eq_none_of_precedes`).
The same holds of the search for a pattern that is an expression (`Pattern.find?_of_offset_le`,
`Pattern.find?_eq_none_of_precedes`).

A match that begins at the position itself is one that the expression has there (`Pattern.matchAt?_regex`).
-/

namespace Highlight

namespace Regex

theorem search_eq (r : Regex) (c : Cursor) :
    r.search c = match r.matchHere c with
      | some hit => some (c, hit)
      | none => match c.next? with
        | none => none
        | some (_, d) => r.search d := by
  rw [search]
  cases r.matchHere c with
  | some hit => rfl
  | none =>
    simp only
    split <;> simp_all

theorem search_spec {r : Regex} {c d : Cursor} {hit : Hit} (h : r.search c = some (d, hit)) :
    c.Precedes d ∧ r.matchHere d = some hit := by
  fun_induction r.search c with
  | case1 c found hfound =>
    cases h
    exact ⟨.refl _, hfound⟩
  | case2 => cases h
  | case3 c _ a e he ih =>
    obtain ⟨hed, hhit⟩ := ih h
    exact ⟨(Cursor.precedes_next? he).trans hed, hhit⟩

/-- **A search gives the same match from every position up to that match.** -/
theorem search_of_precedes {r : Regex} {c d e : Cursor} {hit : Hit}
    (h : r.search c = some (d, hit)) (hce : c.Precedes e) (hed : e.Precedes d) :
    r.search e = some (d, hit) := by
  fun_induction r.search c with
  | case1 c' found hfound =>
    cases h
    have hec : e = d :=
      Cursor.eq_of_offset_eq hed.text_eq.symm (Nat.le_antisymm hed.offset_le hce.offset_le)
    rw [hec, search_eq, hfound]
  | case2 => cases h
  | case3 c hnone a c' hc' ih =>
    rcases hce.eq_or_next? with rfl | ⟨b, c'', hc'', hce⟩
    · rw [search_eq, hnone, hc']
      exact h
    · obtain ⟨rfl, rfl⟩ := Prod.mk.inj (Option.some.inj (hc'.symm.trans hc''))
      exact ih h hce

/-- **Where a search finds nothing, no later one does.** -/
theorem search_eq_none_of_precedes {r : Regex} {c e : Cursor} (h : r.search c = none)
    (hce : c.Precedes e) : r.search e = none := by
  fun_induction r.search c with
  | case1 => cases h
  | case2 c hnone hend =>
    rcases hce.eq_or_next? with rfl | ⟨b, c', hc', -⟩
    · rw [search_eq, hnone, hend]
    · rw [hend] at hc'
      cases hc'
  | case3 c hnone a c' hc' ih =>
    rcases hce.eq_or_next? with rfl | ⟨b, c'', hc'', hce⟩
    · rw [search_eq, hnone, hc']
      exact h
    · obtain ⟨rfl, rfl⟩ := Prod.mk.inj (Option.some.inj (hc'.symm.trans hc''))
      exact ih h hce

end Regex

namespace Pattern

/-- What a pattern makes of a match of its expression at a position. -/
def matchOf (p : Pattern) (c : Cursor) (hit : Hit) : Match :=
  ⟨c.offset, if p.lookbehind then hit.mark.getD c.offset else c.offset, hit.stop⟩

theorem find?_regex {p : Pattern} {r : Regex} (hp : p.matcher = .regex r) (c : Cursor) :
    p.find? c = (r.search c).map fun (d, hit) => p.matchOf d hit := by
  rw [find?, hp]
  rfl

theorem matchAt?_regex {p : Pattern} {r : Regex} (hp : p.matcher = .regex r) (c : Cursor) :
    p.matchAt? c = (r.matchHere c).map (p.matchOf c) := by
  rw [matchAt?, find?_regex hp, Regex.search_eq]
  cases hhere : r.matchHere c with
  | some hit => simp [matchOf]
  | none =>
    cases hnext : c.next? with
    | none => rfl
    | some next =>
      obtain ⟨a, d⟩ := next
      cases hsearch : r.search d with
      | none => simp [hsearch]
      | some found =>
        obtain ⟨e, hit⟩ := found
        have ha := a.utf8Size_pos
        have hd := Cursor.offset_next? hnext
        have he := (Regex.search_spec hsearch).1.offset_le
        have hne : ¬ e.offset = c.offset := by omega
        simp [hsearch, matchOf, hne]

theorem exists_regex_of_looksAhead {p : Pattern} (hp : p.looksAhead = true) :
    ∃ r, p.matcher = .regex r := by
  unfold looksAhead at hp
  split at hp
  · exact ⟨_, ‹_›⟩
  · cases hp

theorem find?_of_offset_le {p : Pattern} {c d : Cursor} {m : Match} (hp : p.looksAhead = true)
    (h : p.find? c = some m) (hcd : c.Precedes d) (hd : d.offset ≤ m.start) : p.find? d = some m := by
  obtain ⟨r, hr⟩ := exists_regex_of_looksAhead hp
  rw [find?_regex hr] at h ⊢
  obtain ⟨⟨e, hit⟩, hsearch, rfl⟩ := Option.map_eq_some_iff.1 h
  have hce := (Regex.search_spec hsearch).1
  have hde : d.Precedes e := Cursor.precedes_of_offset_le (hcd.text_eq.trans hce.text_eq.symm) hd
  rw [Regex.search_of_precedes hsearch hcd hde]
  rfl

theorem find?_eq_none_of_precedes {p : Pattern} {c d : Cursor} (hp : p.looksAhead = true)
    (h : p.find? c = none) (hcd : c.Precedes d) : p.find? d = none := by
  obtain ⟨r, hr⟩ := exists_regex_of_looksAhead hp
  rw [find?_regex hr, Option.map_eq_none_iff] at h ⊢
  exact Regex.search_eq_none_of_precedes h hcd

theorem exists_blockEnd?_of_blockComment? {c : Cursor} {m : Match} (h : blockComment? c = some m) :
    ∃ (k : Cursor) (stop : Nat), c.Precedes k ∧ k.blockEnd? = some stop ∧ m = ⟨c.offset, k.offset, stop⟩ := by
  rcases Option.or_eq_some_iff.1 h with hstart | ⟨-, hcontext⟩
  · split at hstart
    · obtain ⟨stop, hstop, rfl⟩ := Option.map_eq_some_iff.1 hstart
      exact ⟨c, stop, .refl c, hstop, rfl⟩
    · cases hstart
  · split at hcontext
    · cases hcontext
    · next a d hnext =>
      split at hcontext
      · cases hcontext
      · obtain ⟨stop, hstop, rfl⟩ := Option.map_eq_some_iff.1 hcontext
        exact ⟨d, stop, Cursor.precedes_next? hnext, hstop, rfl⟩

theorem start_of_blockComment? {c : Cursor} {m : Match} (h : blockComment? c = some m) :
    m.start = c.offset := by
  obtain ⟨k, stop, -, -, rfl⟩ := exists_blockEnd?_of_blockComment? h
  rfl

theorem matchAt?_of_not_looksAhead {p : Pattern} (hp : p.looksAhead = false) (c : Cursor) :
    p.matchAt? c = p.find? c := by
  have hstart : ∀ m ∈ p.find? c, m.start = c.offset := by
    intro m hm
    unfold looksAhead at hp
    unfold find? at hm
    split at hp
    · cases hp
    · next hblock =>
      rw [hblock] at hm
      exact start_of_blockComment? hm
  rw [matchAt?]
  cases hfound : p.find? c with
  | none => rfl
  | some m => exact Option.filter_eq_some_iff.2 ⟨rfl, decide_eq_true (hstart m hfound)⟩

end Pattern

end Highlight
