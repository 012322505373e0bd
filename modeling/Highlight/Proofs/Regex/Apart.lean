import Highlight.Proofs.Regex.Chart

/-!
# Loops whose passes read

A walk keeps off the places that have been entered. If every pass of a loop reads (`Regex.isSolid`), this is never
felt: no walk comes back to a place before it reads.

`Regex.First` tells the places that a walk through an expression can look at before it reads.

* `Regex.confined_exploreAll`: a walk looks at the first places of what it goes through, and at no others.
* `Regex.exists_apart`: a solid expression has a chart on which nothing behind a place leads back to it. What stands
  behind an expression may lead back into it, around a loop; it then leads to its first places, and the expression
  is not passed without reading (`Regex.Reenters`).
-/

namespace Highlight

namespace Regex

/-- Every pass of a loop without bound reads. -/
def isSolid : Regex → Bool
  | empty => true
  | set _ => true
  | look _ => true
  | cat r s => r.isSolid && s.isSolid
  | alt r s => r.isSolid && s.isSolid
  | star r _ => !r.nullable && r.isSolid
  | plus r _ => !r.nullable && r.isSolid
  | times r _ => r.isSolid
  | upTo r _ _ => r.isSolid
  | group _ r => r.isSolid

theorem isSolid_of_star {r : Regex} {greedy : Bool} (h : (star r greedy).isSolid = true) :
    r.nullable = false ∧ r.isSolid = true := by
  simpa [isSolid] using h

theorem isSolid_of_plus {r : Regex} {greedy : Bool} (h : (plus r greedy).isSolid = true) :
    r.nullable = false ∧ r.isSolid = true := by
  simpa [isSolid] using h

/-! ## First places -/

/-- The first places of `n` passes. -/
def firstTimes (r : Regex) (pass : Nat → Nat → Prop) : Nat → Nat → Nat → Prop
  | 0, _, _ => False
  | n + 1, place, i => pass place i ∨ r.nullable = true ∧ firstTimes r pass n (place + r.width) i

/-- The first places of at most `n` passes. -/
def firstUpTo (r : Regex) (pass : Nat → Nat → Prop) : Nat → Nat → Nat → Prop
  | 0, _, _ => False
  | n + 1, place, i =>
    i = place ∨ pass (place + 1) i ∨ r.nullable = true ∧ firstUpTo r pass n (place + 1 + r.width) i

/-- The places that a walk through the expression can look at before it reads. -/
def First : Regex → Nat → Nat → Prop
  | empty => fun _ _ => False
  | set _ => fun place i => i = place
  | look _ => fun _ _ => False
  | cat r s => fun place i => r.First place i ∨ r.nullable = true ∧ s.First (place + r.width) i
  | alt r s => fun place i =>
    i = place ∨ r.First (place + 1) i ∨ s.First (place + 1 + r.width) i
  | star r _ => fun place i => i = place ∨ r.First (place + 1) i
  | plus r _ => fun place i => r.First (place + 1) i ∨ r.nullable = true ∧ i = place
  | times r n => firstTimes r r.First n
  | upTo r n _ => firstUpTo r r.First n
  | group _ r => r.First

/-- The first places of parts, one after another. -/
def firstAll : List Part → Nat → Prop
  | [], _ => False
  | part :: todo, i => part.regex.First part.place i ∨ part.regex.nullable = true ∧ firstAll todo i

theorem First.range {r : Regex} {place i : Nat} (h : r.First place i) :
    place ≤ i ∧ i < place + r.width := by
  induction r using unrolled generalizing place with
  | empty => exact h.elim
  | set S =>
    obtain rfl : i = place := h
    exact ⟨Nat.le_refl _, Nat.lt_succ_self _⟩
  | look a => exact h.elim
  | cat r s ihr ihs =>
    rw [width]
    rcases h with hr | ⟨-, hs⟩
    · have := ihr hr
      omega
    · have := ihs hs
      omega
  | alt r s ihr ihs =>
    rw [width]
    rcases h with rfl | hr | hs
    · omega
    · have := ihr hr
      omega
    · have := ihs hs
      omega
  | star r greedy ih =>
    rw [width]
    rcases h with rfl | hr
    · omega
    · have := ih hr
      omega
  | plus r greedy ih =>
    rw [width]
    rcases h with hr | ⟨-, rfl⟩
    · have := ih hr
      omega
    · omega
  | timesZero r => exact h.elim
  | timesSucc r n ihr ihn =>
    rw [width_times_succ]
    rcases h with hr | ⟨-, hn⟩
    · have := ihr hr
      omega
    · have := ihn hn
      omega
  | upToZero r greedy => exact h.elim
  | upToSucc r n greedy ihr ihn =>
    rw [width_upTo_succ]
    rcases h with rfl | hr | ⟨-, hn⟩
    · omega
    · have := ihr hr
      omega
    · have := ihn hn
      omega
  | group index r ih => exact ih h

end Regex

/-! ## What a walk looks at -/

/-- The walk looks at places of `P` only: where these are the same it makes the same moves, and places that were the
same are so afterwards. -/
def Walk.Confined (P : Nat → Prop) (w : Walk) : Prop :=
  ∀ v v' : Places, (∀ i, P i → v.testBit i = v'.testBit i) →
    (w v).1 = (w v').1 ∧ ∀ i, v.testBit i = v'.testBit i → (w v).2.testBit i = (w v').2.testBit i

namespace Walk.Confined

variable {P : Nat → Prop} {w x : Walk}

theorem stop : Walk.stop.Confined P :=
  fun _ _ _ => ⟨rfl, fun _ hi => hi⟩

theorem single (m : Move) : (Walk.single m).Confined P :=
  fun _ _ _ => ⟨rfl, fun _ hi => hi⟩

theorem both (hw : w.Confined P) (hx : x.Confined P) : (Walk.both w x).Confined P := by
  intro v v' h
  obtain ⟨hwm, hwv⟩ := hw v v' h
  obtain ⟨hxm, hxv⟩ := hx _ _ fun i hi => hwv i (h i hi)
  refine ⟨?_, fun i hi => hxv i (hwv i hi)⟩
  change (w v).1 ++ (x (w v).2).1 = (w v').1 ++ (x (w v').2).1
  rw [hwm, hxm]

theorem prefer (hw : w.Confined P) (hx : x.Confined P) (first : Bool) :
    (Walk.prefer first w x).Confined P := by
  cases first
  · exact hx.both hw
  · exact hw.both hx

theorem once {place : Nat} (hplace : P place) (hw : w.Confined P) :
    (Walk.once place w).Confined P := by
  intro v v' h
  have henter : ∀ i, v.testBit i = v'.testBit i →
      (v ||| 1 <<< place).testBit i = (v' ||| 1 <<< place).testBit i := by
    intro i hi
    rw [testBit_enter, testBit_enter, hi]
  unfold Walk.once
  rw [h place hplace]
  split
  · exact ⟨rfl, fun _ hi => hi⟩
  · obtain ⟨hm, hv⟩ := hw _ _ fun i hi => henter i (h i hi)
    exact ⟨hm, fun i hi => hv i (henter i hi)⟩

theorem after {closed : Bool} (hw : w.Confined P) : (Walk.after closed w).Confined P := by
  intro v v' h
  obtain ⟨hm, hv⟩ := hw v v' h
  exact ⟨congrArg (List.map (Move.after closed)) hm, hv⟩

end Walk.Confined

namespace Regex

/-- **A walk through an expression looks at its first places**, and what stands behind counts only if the expression
is nullable. -/
theorem confined_explore {P : Nat → Prop} (g : Gap) {r : Regex} {place : Nat} {todo : List Part}
    {k : Walk} (hr : ∀ i, r.First place i → P i) (hk : r.nullable = true → k.Confined P) :
    (r.explore g place todo k).Confined P := by
  induction r using unrolled generalizing place todo k with
  | empty => exact hk rfl
  | set S =>
    refine .once (hr place rfl) ?_
    split
    · exact .single _
    · exact .stop
  | look a =>
    rw [explore]
    split
    · exact hk rfl
    · exact .stop
  | cat r s ihr ihs =>
    refine ihr (fun i hi => hr i (Or.inl hi)) fun hrn => ihs (fun i hi => hr i (Or.inr ⟨hrn, hi⟩)) ?_
    intro hsn
    exact hk ((Bool.and_eq_true _ _).mpr ⟨hrn, hsn⟩)
  | alt r s ihr ihs =>
    refine .once (hr place (Or.inl rfl)) (.both ?_ ?_)
    · exact ihr (fun i hi => hr i (Or.inr (Or.inl hi))) fun hrn => hk (by rw [nullable, hrn, Bool.true_or])
    · exact ihs (fun i hi => hr i (Or.inr (Or.inr hi))) fun hsn => hk (by rw [nullable, hsn, Bool.or_true])
  | star r greedy ih =>
    exact .once (hr place (Or.inl rfl))
      (.prefer (ih (fun i hi => hr i (Or.inr hi)) fun _ => .stop) (hk rfl) greedy)
  | plus r greedy ih =>
    exact ih (fun i hi => hr i (Or.inl hi)) fun hrn => .once (hr place (Or.inr ⟨hrn, rfl⟩)) (hk hrn)
  | timesZero r => exact hk rfl
  | timesSucc r n ihr ihn =>
    refine ihr (fun i hi => hr i (Or.inl hi)) fun hrn => ihn (fun i hi => hr i (Or.inr ⟨hrn, hi⟩)) ?_
    intro _
    exact hk (by rw [nullable, hrn, Bool.or_true])
  | upToZero r greedy => exact hk rfl
  | upToSucc r n greedy ihr ihn =>
    have hmore : r.nullable = true →
        ((upTo r n greedy).explore g (place + 1 + r.width) todo k).Confined P :=
      fun hrn => ihn (fun i hi => hr i (Or.inr (Or.inr ⟨hrn, hi⟩))) fun _ => hk rfl
    exact .once (hr place (Or.inl rfl))
      (.prefer (ihr (fun i hi => hr i (Or.inr (Or.inl hi))) hmore) (hk rfl) greedy)
  | group index r ih => exact ih hr fun hrn => (hk hrn).after

/-- **A walk looks at the first places of what it goes through.** -/
theorem confined_exploreAll {P : Nat → Prop} (g : Gap) {todo : List Part}
    (h : ∀ i, firstAll todo i → P i) : (exploreAll g todo).Confined P := by
  induction todo with
  | nil => exact .single _
  | cons part todo ih =>
    exact confined_explore g (fun i hi => h i (Or.inl hi)) fun hn => ih fun i hi => h i (Or.inr ⟨hn, hi⟩)

theorem explore_eq_of_not_nullable (g : Gap) {r : Regex} (hr : r.nullable = false) (place : Nat)
    (todo : List Part) (k k' : Walk) : r.explore g place todo k = r.explore g place todo k' := by
  induction r using unrolled generalizing place todo k k' with
  | empty => cases hr
  | set S => rfl
  | look a => cases hr
  | cat r s ihr ihs =>
    rw [explore_cat, explore_cat]
    rcases (Bool.and_eq_false_iff).1 hr with hr | hs
    · exact ihr hr ..
    · rw [ihs hs _ todo k k']
  | alt r s ihr ihs =>
    obtain ⟨hr, hs⟩ := (Bool.or_eq_false_iff).1 hr
    rw [explore_alt, explore_alt, ihr hr _ todo k k', ihs hs _ todo k k']
  | star r greedy _ => cases hr
  | plus r greedy ih => exact ih hr ..
  | timesZero r => cases hr
  | timesSucc r n ihr _ =>
    rw [nullable, Bool.or_eq_false_iff] at hr
    exact ihr hr.2 ..
  | upToZero r greedy => cases hr
  | upToSucc r n greedy _ _ => cases hr
  | group index r ih => exact ih hr ..

/-! ## Places that are not come back to -/

/-- The first places of what stands behind a place. The place is told by what is owed where it is entered. -/
def beyond : List Part → Nat → Prop
  | ⟨alt r s, place⟩ :: todo, i =>
    firstAll (⟨r, place + 1⟩ :: todo) i ∨ firstAll (⟨s, place + 1 + r.width⟩ :: todo) i
  | ⟨star r _, place⟩ :: todo, i => r.First (place + 1) i ∨ firstAll todo i
  | ⟨upTo r (n + 1) greedy, place⟩ :: todo, i =>
    firstAll (⟨r, place + 1⟩ :: ⟨upTo r n greedy, place + 1 + r.width⟩ :: todo) i ∨ firstAll todo i
  | _, _ => False

/-- Nothing behind a place of the chart leads back to it before something is read. -/
def Apart (N : Chart) : Prop :=
  ∀ i, ¬ beyond (N i) i

/-- What leads back into the expression from behind leads to its first places, and the expression reads. -/
def Reenters (r : Regex) (place : Nat) (todo : List Part) : Prop :=
  ∀ i, place ≤ i → i < place + r.width → firstAll todo i → r.First place i ∧ r.nullable = false

namespace Reenters

variable {r s : Regex} {n : Nat} {greedy : Bool} {place : Nat} {todo : List Part}

theorem not_firstAll (h : r.Reenters place todo) (hr : r.nullable = true) {i : Nat} (hle : place ≤ i)
    (hlt : i < place + r.width) : ¬ firstAll todo i := by
  intro hi
  have hn := (h i hle hlt hi).2
  rw [hr] at hn
  cases hn

theorem cat_first (h : (cat r s).Reenters place todo) :
    r.Reenters place (⟨s, place + r.width⟩ :: todo) := by
  intro i hle hlt hfirst
  rcases hfirst with hs | ⟨hs, hi⟩
  · exact absurd hs.range.1 (Nat.not_le.2 hlt)
  · obtain ⟨hfirst, hn⟩ := h i hle (by rw [width]; omega) hi
    rw [nullable, hs, Bool.and_true] at hn
    rcases hfirst with hr | ⟨hr, -⟩
    · exact ⟨hr, hn⟩
    · rw [hn] at hr
      cases hr

theorem cat_second (h : (cat r s).Reenters place todo) : s.Reenters (place + r.width) todo := by
  intro i hle hlt hi
  obtain ⟨hfirst, hn⟩ := h i (by omega) (by rw [width]; omega) hi
  rcases hfirst with hr | ⟨hr, hs⟩
  · exact absurd hr.range.2 (Nat.not_lt.2 hle)
  · rw [nullable, hr, Bool.true_and] at hn
    exact ⟨hs, hn⟩

theorem alt_left (h : (alt r s).Reenters place todo) : r.Reenters (place + 1) todo := by
  intro i hle hlt hi
  obtain ⟨hfirst, hn⟩ := h i (by omega) (by rw [width]; omega) hi
  rw [nullable, Bool.or_eq_false_iff] at hn
  rcases hfirst with rfl | hr | hs
  · exact absurd hle (Nat.not_succ_le_self _)
  · exact ⟨hr, hn.1⟩
  · exact absurd hs.range.1 (Nat.not_le.2 hlt)

theorem alt_right (h : (alt r s).Reenters place todo) : s.Reenters (place + 1 + r.width) todo := by
  intro i hle hlt hi
  obtain ⟨hfirst, hn⟩ := h i (by omega) (by rw [width]; omega) hi
  rw [nullable, Bool.or_eq_false_iff] at hn
  rcases hfirst with rfl | hr | hs
  · omega
  · exact absurd hr.range.2 (Nat.not_lt.2 hle)
  · exact ⟨hs, hn.2⟩

theorem star_pass (hr : r.nullable = false) (h : (star r greedy).Reenters place todo) :
    r.Reenters (place + 1) (⟨star r greedy, place⟩ :: todo) := by
  intro i hle hlt hfirst
  rcases hfirst with (rfl | hfirst) | ⟨-, hi⟩
  · exact absurd hle (Nat.not_succ_le_self _)
  · exact ⟨hfirst, hr⟩
  · exact absurd hi (h.not_firstAll rfl (by omega) (by rw [width]; omega))

theorem plus_pass (hr : r.nullable = false) (h : (plus r greedy).Reenters place todo) :
    r.Reenters (place + 1) (⟨star r greedy, place⟩ :: todo) := by
  intro i hle hlt hfirst
  rcases hfirst with (rfl | hfirst) | ⟨-, hi⟩
  · exact absurd hle (Nat.not_succ_le_self _)
  · exact ⟨hfirst, hr⟩
  · rcases (h i (by omega) (by rw [width]; omega) hi).1 with hfirst | ⟨hn, -⟩
    · exact ⟨hfirst, hr⟩
    · rw [hr] at hn
      cases hn

theorem times_succ (h : (times r (n + 1)).Reenters place todo) :
    (cat r (times r n)).Reenters place todo := by
  intro i hle hlt hi
  obtain ⟨hfirst, hn⟩ := h i hle (by rw [width_times_succ]; exact hlt) hi
  rw [nullable, Bool.or_eq_false_iff] at hn
  exact ⟨hfirst, by rw [nullable, hn.2, Bool.false_and]⟩

theorem upTo_pass (h : (upTo r (n + 1) greedy).Reenters place todo) :
    r.Reenters (place + 1) (⟨upTo r n greedy, place + 1 + r.width⟩ :: todo) := by
  intro i hle hlt hfirst
  have hwidth := width_upTo_succ r n greedy
  rcases hfirst with hmore | ⟨-, hi⟩
  · exact absurd hmore.range.1 (Nat.not_le.2 hlt)
  · exact absurd hi (h.not_firstAll rfl (by omega) (by omega))

theorem upTo_more (h : (upTo r (n + 1) greedy).Reenters place todo) :
    (upTo r n greedy).Reenters (place + 1 + r.width) todo := by
  intro i hle hlt hi
  have hwidth := width_upTo_succ r n greedy
  exact absurd hi (h.not_firstAll rfl (by omega) (by omega))

theorem group_pass {index : Nat} (h : (group index r).Reenters place todo) :
    r.Reenters place (⟨group index empty, place⟩ :: todo) := by
  intro i hle hlt hfirst
  rcases hfirst with hnone | ⟨-, hi⟩
  · exact hnone.elim
  · exact h i hle hlt hi

end Reenters

/-- **Nothing behind a place of a solid expression leads back to it**, if nothing does from behind the expression. -/
theorem not_beyond_of_charted {N : Chart} {r : Regex} {place : Nat} {todo : List Part}
    (hsolid : r.isSolid = true) (hr : r.Charted N place todo) (htodo : r.Reenters place todo) {i : Nat}
    (hle : place ≤ i) (hlt : i < place + r.width) : ¬ beyond (N i) i := by
  -- on the expression: `i` is its first place or a place of one of its parts
  induction r using unrolled generalizing place todo with
  | empty => exact absurd hlt (Nat.not_lt.2 hle)
  | set S =>
    obtain rfl : i = place := Nat.le_antisymm (Nat.le_of_lt_succ hlt) hle
    have hN : N i = ⟨set S, i⟩ :: todo := hr
    rw [hN]
    exact id
  | look a => exact absurd hlt (Nat.not_lt.2 hle)
  | cat r s ihr ihs =>
    obtain ⟨hsr, hss⟩ := (Bool.and_eq_true _ _).mp hsolid
    by_cases hi : i < place + r.width
    · exact ihr hsr hr.1 htodo.cat_first hle hi
    · exact ihs hss hr.2 htodo.cat_second (Nat.not_lt.1 hi) (by rw [width] at hlt; omega)
  | alt r s ihr ihs =>
    obtain ⟨hsr, hss⟩ := (Bool.and_eq_true _ _).mp hsolid
    obtain ⟨hN, hr, hs⟩ := hr
    by_cases hplace : i = place
    · subst hplace
      rw [hN]
      rintro ((hfirst | ⟨hn, hi⟩) | (hfirst | ⟨hn, hi⟩))
      · exact absurd hfirst.range.1 (Nat.not_succ_le_self _)
      · exact htodo.not_firstAll (by rw [nullable, hn, Bool.true_or]) hle hlt hi
      · have hbehind : i + 1 + r.width ≤ i := hfirst.range.1
        omega
      · exact htodo.not_firstAll (by rw [nullable, hn, Bool.or_true]) hle hlt hi
    · by_cases hi : i < place + 1 + r.width
      · exact ihr hsr hr htodo.alt_left (by omega) hi
      · exact ihs hss hs htodo.alt_right (Nat.not_lt.1 hi) (by rw [width] at hlt; omega)
  | star r greedy ih =>
    obtain ⟨hn, hsr⟩ := isSolid_of_star hsolid
    obtain ⟨hN, hr⟩ := hr
    by_cases hplace : i = place
    · subst hplace
      rw [hN]
      rintro (hfirst | hi)
      · exact absurd hfirst.range.1 (Nat.not_succ_le_self _)
      · exact htodo.not_firstAll rfl hle hlt hi
    · exact ih hsr hr (htodo.star_pass hn) (by omega) (by rw [width] at hlt; omega)
  | plus r greedy ih =>
    obtain ⟨hn, hsr⟩ := isSolid_of_plus hsolid
    obtain ⟨hN, hr⟩ := hr
    by_cases hplace : i = place
    · subst hplace
      rw [hN]
      rintro (hfirst | hi)
      · exact absurd hfirst.range.1 (Nat.not_succ_le_self _)
      · rcases (htodo i hle hlt hi).1 with hfirst | ⟨hnull, -⟩
        · exact absurd hfirst.range.1 (Nat.not_succ_le_self _)
        · rw [hn] at hnull
          cases hnull
    · exact ih hsr hr (htodo.plus_pass hn) (by omega) (by rw [width] at hlt; omega)
  | timesZero r => exact absurd hlt (by simp only [width]; omega)
  | timesSucc r n ihr ihn =>
    have hcat := htodo.times_succ
    by_cases hi : i < place + r.width
    · exact ihr hsolid hr.1 hcat.cat_first hle hi
    · exact ihn hsolid hr.2 hcat.cat_second (Nat.not_lt.1 hi) (by rw [width_times_succ] at hlt; omega)
  | upToZero r greedy => exact absurd hlt (by simp only [width]; omega)
  | upToSucc r n greedy ihr ihn =>
    obtain ⟨hN, hr, hn⟩ := hr
    by_cases hplace : i = place
    · subst hplace
      rw [hN]
      rintro ((hfirst | ⟨-, hmore | ⟨-, hi⟩⟩) | hi)
      · exact absurd hfirst.range.1 (Nat.not_succ_le_self _)
      · have hbehind : i + 1 + r.width ≤ i := hmore.range.1
        omega
      · exact htodo.not_firstAll rfl hle hlt hi
      · exact htodo.not_firstAll rfl hle hlt hi
    · by_cases hi : i < place + 1 + r.width
      · exact ihr hsolid hr htodo.upTo_pass (by omega) hi
      · exact ihn hsolid hn htodo.upTo_more (Nat.not_lt.1 hi) (by rw [width_upTo_succ] at hlt; omega)
  | group index r ih => exact ih hsolid hr htodo.group_pass hle hlt

/-- **A solid expression has a chart on which nothing leads back.** -/
theorem exists_apart {r : Regex} (hr : r.isSolid = true) (place : Nat) :
    ∃ N, r.Charted N place [] ∧ Apart N := by
  obtain ⟨N, hN, hfree⟩ := exists_charted r place [] fun _ => []
  refine ⟨N, hN, fun i => ?_⟩
  by_cases hi : place ≤ i ∧ i < place + r.width
  · exact not_beyond_of_charted hr hN (fun _ _ _ h => h.elim) hi.1 hi.2
  · rw [hfree i (by omega)]
    exact id

end Regex

end Highlight
