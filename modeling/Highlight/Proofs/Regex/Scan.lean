import Highlight.Proofs.Regex.Backtrack

/-!
# Expressions that go one way

Most of what is matched one way after another goes one way only: the others fail at the next character. Then an
expression is a scanner.

* `backtrack_star_set`: a greedy loop over a set is the longest run of its characters, if what stands behind it
  fails before them.
* `backtrack_star_of_steps`: a greedy loop whose pass is a step makes steps as long as it can.
* `backtrack_lazy_eq_some_iff`: a lazy loop over all characters goes to the first position where what stands behind
  it succeeds.
-/

namespace Highlight

namespace Regex

variable {β : Type} {k : Onward β} {c : Cursor}

/-- The expression makes the given step, and there is no other way through it. -/
def Steps (r : Regex) (step : Cursor → Option Cursor) : Prop :=
  ∀ (β : Type) (k : Onward β) (c : Cursor), r.backtrack k c = (step c).bind k

namespace Steps

variable {r s : Regex} {f g : Cursor → Option Cursor}

theorem set (S : CharSet) : (Regex.set S).Steps (Cursor.over? S.mem) :=
  fun _ _ _ => rfl

theorem char (a : Char) : (Regex.char a).Steps (Cursor.over? (· = a)) := by
  intro β k c
  have hmem : (CharSet.single a).mem = fun b => decide (b = a) := funext fun _ => CharSet.mem_single
  rw [Regex.char, backtrack_set, hmem]

theorem cat (hr : r.Steps f) (hs : s.Steps g) : (Regex.cat r s).Steps fun c => (f c).bind g := by
  intro β k c
  rw [backtrack_cat, hr, Option.bind_assoc]
  congr 1
  exact funext (hs β k)

theorem alt (hr : r.Steps f) (hs : s.Steps g) (h : ∀ c, f c = none ∨ g c = none) :
    (Regex.alt r s).Steps fun c => (f c).or (g c) := by
  intro β k c
  rw [backtrack_alt, hr, hs]
  dsimp only
  rcases h c with hf | hg
  · rw [hf, Option.none_or, Option.bind_none, Option.none_or]
  · rw [hg, Option.or_none, Option.bind_none, Option.or_none]

end Steps

theorem backtrack_char (a : Char) (k : Onward β) (c : Cursor) :
    (char a).backtrack k c = (c.over? (· = a)).bind k :=
  Steps.char a β k c

/-! ## Greedy loops -/

/-- At most `n` characters of a set. What stands behind them fails before another one, or always succeeds. -/
theorem passUpTo_set {S : CharSet}
    (hk : ∀ c d, c.over? S.mem = some d → ∀ e, (k e).or (k c) = k e) (n : Nat) (c : Cursor) :
    passUpTo true (set S).backtrack k n c = k (c.skipUpTo S.mem n) := by
  induction n generalizing c with
  | zero => rfl
  | succ n ih =>
    rw [passUpTo_succ, prefer_true, backtrack_set, Cursor.skipUpTo]
    cases hover : c.over? S.mem with
    | none => exact Option.none_or
    | some d =>
      rw [Option.bind_some, ih]
      exact hk c d hover _

/-- **A greedy loop over a set is the longest run of its characters**, if what stands behind fails before them. -/
theorem backtrack_star_set {S : CharSet} (hk : ∀ c d, c.over? S.mem = some d → k c = none) (c : Cursor) :
    (star (set S) true).backtrack k c = k (c.skip S.mem) :=
  passUpTo_set (fun c d h e => by rw [hk c d h, Option.or_none]) c.rest.length c

theorem backtrack_plus_set {S : CharSet} (hk : ∀ c d, c.over? S.mem = some d → k c = none) (c : Cursor) :
    (plus (set S) true).backtrack k c = (c.over? S.mem).bind fun d => k (d.skip S.mem) := by
  rw [backtrack_plus, backtrack_set, funext (backtrack_star_set hk)]

/-- At most `n` characters of a set are the longest run of them, if nothing fails behind them. -/
theorem backtrack_upTo_set {S : CharSet} (hk : ∀ c, (k c).isSome) (n : Nat) (c : Cursor) :
    (upTo (set S) n true).backtrack k c = k (c.skipUpTo S.mem n) := by
  refine passUpTo_set (fun _ _ _ e => ?_) n c
  obtain ⟨x, hx⟩ := Option.isSome_iff_exists.1 (hk e)
  rw [hx, Option.some_or]

/-- **A greedy loop whose pass is a step** makes it wherever it can, if what stands behind fails there. -/
theorem backtrack_star_of_steps {r : Regex} {step : Cursor → Option Cursor} (hn : r.nullable = false)
    (hr : r.Steps step) (hk : ∀ c d, step c = some d → k c = none) (c : Cursor) :
    (star r true).backtrack k c =
      match step c with
      | none => k c
      | some d => (star r true).backtrack k d := by
  rw [backtrack_star hn, prefer_true, hr]
  cases hstep : step c with
  | none => exact Option.none_or
  | some d =>
    rw [hk c d hstep, Option.or_none]
    rfl

/-! ## Lazy loops -/

/-- At the first position from `c` on where `k` succeeds it comes to `x`. -/
def SucceedsFirst (k : Onward β) (c : Cursor) (x : β) : Prop :=
  ∃ q, c.Precedes q ∧ k q = some x ∧ ∀ q', c.Precedes q' → q'.offset < q.offset → k q' = none

theorem SucceedsFirst.of_some {x : β} (h : k c = some x) : SucceedsFirst k c x :=
  ⟨c, .refl c, h, fun _ hq hlt => absurd hq.offset_le (Nat.not_le.2 hlt)⟩

theorem succeedsFirst_iff_of_some {x y : β} (h : k c = some y) : SucceedsFirst k c x ↔ y = x := by
  constructor
  · rintro ⟨q, hcq, hkq, hfirst⟩
    rcases Nat.lt_or_ge c.offset q.offset with hlt | hge
    · rw [hfirst c (.refl c) hlt] at h
      cases h
    · obtain rfl : q = c :=
        Cursor.eq_of_offset_eq hcq.text_eq (Nat.le_antisymm hge hcq.offset_le)
      rw [h] at hkq
      exact Option.some.inj hkq
  · rintro rfl
    exact .of_some h

theorem succeedsFirst_iff_of_next {d : Cursor} {a : Char} {x : β} (h : k c = none)
    (hnext : c.next? = some (a, d)) : SucceedsFirst k c x ↔ SucceedsFirst k d x := by
  have hcd := Cursor.precedes_next? hnext
  have hlater : ∀ q, c.Precedes q → q ≠ c → d.Precedes q := by
    intro q hcq hne
    rcases hcq.eq_or_next? with rfl | ⟨b, e, he, heq⟩
    · exact absurd rfl hne
    · obtain ⟨rfl, rfl⟩ := Prod.mk.inj (Option.some.inj (hnext.symm.trans he))
      exact heq
  constructor
  · rintro ⟨q, hcq, hkq, hfirst⟩
    have hne : q ≠ c := by
      rintro rfl
      rw [h] at hkq
      cases hkq
    exact ⟨q, hlater q hcq hne, hkq, fun q' hq' hlt => hfirst q' (hcd.trans hq') hlt⟩
  · rintro ⟨q, hdq, hkq, hfirst⟩
    refine ⟨q, hcd.trans hdq, hkq, fun q' hq' hlt => ?_⟩
    by_cases heq : q' = c
    · rw [heq, h]
    · exact hfirst q' (hlater q' hq' heq) hlt

theorem not_succeedsFirst_of_end {x : β} (h : k c = none) (hend : c.next? = none) :
    ¬ SucceedsFirst k c x := by
  rintro ⟨q, hcq, hkq, -⟩
  rcases hcq.eq_or_next? with rfl | ⟨a, d, hnext, -⟩
  · rw [h] at hkq
    cases hkq
  · rw [hend] at hnext
    cases hnext

/-- **A lazy loop over all characters goes to the first position where what stands behind it succeeds.** -/
theorem backtrack_lazy_eq_some_iff {S : CharSet} (hS : ∀ a, S.mem a = true) {x : β} :
    (star (set S) false).backtrack k c = some x ↔ SucceedsFirst k c x := by
  have hstar : ∀ c, (star (set S) false).backtrack k c =
      (k c).or ((c.over? S.mem).bind ((star (set S) false).backtrack k)) :=
    fun c => backtrack_star rfl false
  induction hrest : c.rest generalizing c with
  | nil =>
    have hend := Cursor.next?_eq_none.2 hrest
    rw [hstar, Cursor.over?_of_end hend, Option.bind_none, Option.or_none]
    cases hk : k c with
    | none => exact ⟨nofun, fun h => absurd h (not_succeedsFirst_of_end hk hend)⟩
    | some y => rw [succeedsFirst_iff_of_some hk, Option.some_inj]
  | cons a rest ih =>
    obtain ⟨d, hnext, rfl⟩ := Cursor.exists_next? hrest
    rw [hstar, Cursor.over?_of_next hnext, if_pos (hS a), Option.bind_some]
    cases hk : k c with
    | none =>
      rw [Option.none_or, succeedsFirst_iff_of_next hk hnext]
      exact ih rfl
    | some y => rw [Option.some_or, succeedsFirst_iff_of_some hk, Option.some_inj]

end Regex

end Highlight
