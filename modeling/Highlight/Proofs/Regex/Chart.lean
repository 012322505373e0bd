import Highlight.Proofs.Regex.Vocabulary

/-!
# Charts

A place of an expression is always entered with the same left to be done: the part that has the place, and what
stands behind it. A `Chart` shows this for each place, and `Regex.Charted` says that it shows an expression as
it is gone through from a given place.

* `Regex.charted_exploreAll`: what a thread owes behind a step is on the chart again.
* `Regex.exists_charted`: an expression has a chart.
-/

namespace Highlight

/-- What is owed where a place is entered. -/
abbrev Chart := Nat → List Part

namespace Regex

/-- The chart shows each of `n` passes at its places. -/
def chartedTimes (r : Regex) (pass : Nat → List Part → Prop) : Nat → Nat → List Part → Prop
  | 0, _, _ => True
  | n + 1, place, todo =>
    pass place (⟨times r n, place + r.width⟩ :: todo) ∧ chartedTimes r pass n (place + r.width) todo

/-- The chart shows each of at most `n` passes at its places, and the entrance to it. -/
def chartedUpTo (N : Chart) (r : Regex) (greedy : Bool) (pass : Nat → List Part → Prop) :
    Nat → Nat → List Part → Prop
  | 0, _, _ => True
  | n + 1, place, todo => N place = ⟨upTo r (n + 1) greedy, place⟩ :: todo ∧
    pass (place + 1) (⟨upTo r n greedy, place + 1 + r.width⟩ :: todo) ∧
      chartedUpTo N r greedy pass n (place + 1 + r.width) todo

/-- The chart shows the expression from its first place on, with what remains to be done behind it. -/
def Charted (N : Chart) : Regex → Nat → List Part → Prop
  | empty => fun _ _ => True
  | set S => fun place todo => N place = ⟨set S, place⟩ :: todo
  | look _ => fun _ _ => True
  | cat r s => fun place todo =>
    r.Charted N place (⟨s, place + r.width⟩ :: todo) ∧ s.Charted N (place + r.width) todo
  | alt r s => fun place todo => N place = ⟨alt r s, place⟩ :: todo ∧
    r.Charted N (place + 1) todo ∧ s.Charted N (place + 1 + r.width) todo
  | star r greedy => fun place todo => N place = ⟨star r greedy, place⟩ :: todo ∧
    r.Charted N (place + 1) (⟨star r greedy, place⟩ :: todo)
  | plus r greedy => fun place todo => N place = ⟨star r greedy, place⟩ :: todo ∧
    r.Charted N (place + 1) (⟨star r greedy, place⟩ :: todo)
  | times r n => chartedTimes r (r.Charted N) n
  | upTo r n greedy => chartedUpTo N r greedy (r.Charted N) n
  | group index r => fun place todo => r.Charted N place (⟨group index empty, place⟩ :: todo)

/-- The chart shows parts one after another. -/
def chartedAll (N : Chart) : List Part → Prop
  | [] => True
  | part :: todo => part.regex.Charted N part.place todo ∧ chartedAll N todo

theorem charted_explore {N : Chart} (g : Gap) {r : Regex} {place : Nat} {todo : List Part}
    (hr : r.Charted N place todo) (htodo : chartedAll N todo) {k : Walk}
    (hk : k.All fun m => ∀ left, m.todo? = some left → chartedAll N left) :
    (r.explore g place todo k).All fun m => ∀ left, m.todo? = some left → chartedAll N left := by
  induction r using unrolled generalizing place todo k with
  | empty => exact hk
  | set S =>
    refine .once ?_ place
    split
    · refine .single ?_
      rintro left ⟨⟩
      exact htodo
    · exact .stop
  | look a =>
    rw [explore]
    split
    · exact hk
    · exact .stop
  | cat r s ihr ihs => exact ihr hr.1 ⟨hr.2, htodo⟩ (ihs hr.2 htodo hk)
  | alt r s ihr ihs =>
    obtain ⟨-, hr, hs⟩ := hr
    exact .once (.both (ihr hr htodo hk) (ihs hs htodo hk)) place
  | star r greedy ih =>
    exact .once (.prefer (ih hr.2 ⟨hr, htodo⟩ .stop) hk greedy) place
  | plus r greedy ih => exact ih hr.2 ⟨hr, htodo⟩ (hk.once place)
  | timesZero r => exact hk
  | timesSucc r n ihr ihn => exact ihr hr.1 ⟨hr.2, htodo⟩ (ihn hr.2 htodo hk)
  | upToZero r greedy => exact hk
  | upToSucc r n greedy ihr ihn =>
    obtain ⟨-, hr, hn⟩ := hr
    exact .once (.prefer (ihr hr ⟨hn, htodo⟩ (ihn hn htodo hk)) hk greedy) place
  | group index r ih =>
    refine ih hr ⟨trivial, htodo⟩ (hk.after fun m hm left hleft => hm left ?_)
    rwa [Move.todo?_after] at hleft

/-- **What is owed behind a step is on the chart.** -/
theorem charted_exploreAll {N : Chart} (g : Gap) {todo : List Part} (h : chartedAll N todo) :
    (exploreAll g todo).All fun m => ∀ left, m.todo? = some left → chartedAll N left := by
  induction todo with
  | nil => exact .single nofun
  | cons part todo ih => exact charted_explore g h.1 h.2 (ih h.2)

/-! ## Every expression has a chart -/

theorem width_times_succ (r : Regex) (n : Nat) :
    (times r (n + 1)).width = r.width + (times r n).width := by
  simp only [width, Nat.succ_mul, Nat.add_comm]

theorem width_upTo_succ (r : Regex) (n : Nat) (greedy : Bool) :
    (upTo r (n + 1) greedy).width = 1 + r.width + (upTo r n greedy).width := by
  simp only [width, Nat.succ_mul]
  omega

theorem Charted.congr {N N' : Chart} {r : Regex} {place : Nat} {todo : List Part}
    (hN : ∀ n, place ≤ n → n < place + r.width → N n = N' n) (h : r.Charted N place todo) :
    r.Charted N' place todo := by
  induction r using unrolled generalizing place todo with
  | empty => exact trivial
  | set S => exact (hN place (Nat.le_refl _) (Nat.lt_succ_self _)).symm.trans h
  | look a => exact trivial
  | cat r s ihr ihs =>
    refine ⟨ihr (fun n hle hlt => hN n hle ?_) h.1, ihs (fun n hle hlt => hN n ?_ ?_) h.2⟩ <;>
      simp only [width] at * <;> omega
  | alt r s ihr ihs =>
    obtain ⟨h, hr, hs⟩ := h
    refine ⟨(hN place (Nat.le_refl _) ?_).symm.trans h, ihr (fun n hle hlt => hN n ?_ ?_) hr,
      ihs (fun n hle hlt => hN n ?_ ?_) hs⟩ <;> simp only [width] at * <;> omega
  | star r greedy ih =>
    obtain ⟨h, hr⟩ := h
    refine ⟨(hN place (Nat.le_refl _) ?_).symm.trans h, ih (fun n hle hlt => hN n ?_ ?_) hr⟩ <;>
      simp only [width] at * <;> omega
  | plus r greedy ih =>
    obtain ⟨h, hr⟩ := h
    refine ⟨(hN place (Nat.le_refl _) ?_).symm.trans h, ih (fun n hle hlt => hN n ?_ ?_) hr⟩ <;>
      simp only [width] at * <;> omega
  | timesZero r => exact trivial
  | timesSucc r n ihr ihn =>
    have hwidth := width_times_succ r n
    refine ⟨ihr (fun n hle hlt => hN n hle ?_) h.1, ihn (fun n hle hlt => hN n ?_ ?_) h.2⟩ <;> omega
  | upToZero r greedy => exact trivial
  | upToSucc r n greedy ihr ihn =>
    have hwidth := width_upTo_succ r n greedy
    obtain ⟨h, hr, hn⟩ := h
    refine ⟨(hN place (Nat.le_refl _) ?_).symm.trans h, ihr (fun n hle hlt => hN n ?_ ?_) hr,
      ihn (fun n hle hlt => hN n ?_ ?_) hn⟩ <;> omega
  | group index r ih => exact ih hN h

/-- **An expression has a chart**, and what other places show is free. -/
theorem exists_charted (r : Regex) (place : Nat) (todo : List Part) (N : Chart) :
    ∃ N', r.Charted N' place todo ∧ ∀ n, n < place ∨ place + r.width ≤ n → N' n = N n := by
  -- shows `owed` at a place, where that is one of the expression
  have enter : ∀ (M : Chart) (place : Nat) (owed : List Part), ∃ M' : Chart, M' place = owed ∧
      ∀ n, n ≠ place → M' n = M n := by
    intro M place owed
    exact ⟨fun n => if n = place then owed else M n, if_pos rfl, fun n hn => if_neg hn⟩
  induction r using unrolled generalizing place todo N with
  | empty => exact ⟨N, trivial, fun _ _ => rfl⟩
  | set S =>
    obtain ⟨M, hM, hN⟩ := enter N place (⟨set S, place⟩ :: todo)
    exact ⟨M, hM, fun n hn => hN n (by simp only [width] at hn; omega)⟩
  | look a => exact ⟨N, trivial, fun _ _ => rfl⟩
  | cat r s ihr ihs =>
    obtain ⟨M, hs, hM⟩ := ihs (place + r.width) todo N
    obtain ⟨M', hr, hM'⟩ := ihr place (⟨s, place + r.width⟩ :: todo) M
    refine ⟨M', ⟨hr, hs.congr fun n hle _ => (hM' n (Or.inr hle)).symm⟩, fun n hn => ?_⟩
    simp only [width] at hn
    rw [hM' n (by omega), hM n (by omega)]
  | alt r s ihr ihs =>
    obtain ⟨M, hs, hM⟩ := ihs (place + 1 + r.width) todo N
    obtain ⟨M', hr, hM'⟩ := ihr (place + 1) todo M
    obtain ⟨M'', hhere, hM''⟩ := enter M' place (⟨alt r s, place⟩ :: todo)
    refine ⟨M'', ⟨hhere, hr.congr fun n hle _ => (hM'' n (by omega)).symm, hs.congr fun n hle _ => ?_⟩,
      fun n hn => ?_⟩
    · rw [hM'' n (by omega), hM' n (by omega)]
    · simp only [width] at hn
      rw [hM'' n (by omega), hM' n (by omega), hM n (by omega)]
  | star r greedy ih =>
    obtain ⟨M, hr, hM⟩ := ih (place + 1) (⟨star r greedy, place⟩ :: todo) N
    obtain ⟨M', hhere, hM'⟩ := enter M place (⟨star r greedy, place⟩ :: todo)
    refine ⟨M', ⟨hhere, hr.congr fun n hle _ => (hM' n (by omega)).symm⟩, fun n hn => ?_⟩
    simp only [width] at hn
    rw [hM' n (by omega), hM n (by omega)]
  | plus r greedy ih =>
    obtain ⟨M, hr, hM⟩ := ih (place + 1) (⟨star r greedy, place⟩ :: todo) N
    obtain ⟨M', hhere, hM'⟩ := enter M place (⟨star r greedy, place⟩ :: todo)
    refine ⟨M', ⟨hhere, hr.congr fun n hle _ => (hM' n (by omega)).symm⟩, fun n hn => ?_⟩
    simp only [width] at hn
    rw [hM' n (by omega), hM n (by omega)]
  | timesZero r => exact ⟨N, trivial, fun _ _ => rfl⟩
  | timesSucc r n ihr ihn =>
    have hwidth := width_times_succ r n
    obtain ⟨M, hs, hM⟩ := ihn (place + r.width) todo N
    obtain ⟨M', hr, hM'⟩ := ihr place (⟨times r n, place + r.width⟩ :: todo) M
    refine ⟨M', ⟨hr, hs.congr fun n hle _ => (hM' n (Or.inr hle)).symm⟩, fun n hn => ?_⟩
    rw [hM' n (by omega), hM n (by omega)]
  | upToZero r greedy => exact ⟨N, trivial, fun _ _ => rfl⟩
  | upToSucc r n greedy ihr ihn =>
    have hwidth := width_upTo_succ r n greedy
    obtain ⟨M, hs, hM⟩ := ihn (place + 1 + r.width) todo N
    obtain ⟨M', hr, hM'⟩ := ihr (place + 1) (⟨upTo r n greedy, place + 1 + r.width⟩ :: todo) M
    obtain ⟨M'', hhere, hM''⟩ := enter M' place (⟨upTo r (n + 1) greedy, place⟩ :: todo)
    refine ⟨M'', ⟨hhere, hr.congr fun n hle _ => (hM'' n (by omega)).symm, hs.congr fun n hle _ => ?_⟩,
      fun n hn => ?_⟩
    · rw [hM'' n (by omega), hM' n (by omega)]
    · rw [hM'' n (by omega), hM' n (by omega), hM n (by omega)]
  | group index r ih => exact ih place _ N

end Regex

end Highlight
