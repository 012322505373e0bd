import Highlight.Proofs.Regex.Leads
import Highlight.Proofs.Text.Scan

/-!
# One way of matching after another

`Regex.backtrack` matches an expression without threads and places. It follows one way of matching at a time, the
most preferred first, and what is to be done behind the expression is handed to it. A way that fails there is given
up for the next one. A pass of a loop is counted as if it read a character, so a loop makes at most as many passes as
characters are left.

* `Regex.backtrack_congr`: only the positions count that the expression leads to.
* `Regex.backtrack_star`: if the passes of a loop read, the loop is one of its passes and the loop again, or
  is left.
-/

namespace Highlight

/-- What can be done from a position on, if it does not fail. -/
abbrev Onward (β : Type) := Cursor → Option β

namespace Regex

variable {β : Type}

/-- The first of two results, if `first` says so, or else the second. -/
def prefer (first : Bool) (x y : Option β) : Option β :=
  if first then x.or y else y.or x

@[simp] theorem prefer_none (first : Bool) (y : Option β) : prefer first none y = y := by
  cases first
  · exact Option.or_none
  · exact Option.none_or

@[simp] theorem prefer_true (x y : Option β) : prefer true x y = x.or y := rfl

/-- Passes `n` times. -/
def passTimes (pass : Onward β → Onward β) (k : Onward β) : Nat → Onward β
  | 0 => k
  | n + 1 => pass (passTimes pass k n)

/-- Passes at most `n` times. -/
def passUpTo (greedy : Bool) (pass : Onward β → Onward β) (k : Onward β) : Nat → Onward β
  | 0 => k
  | n + 1 => fun c => prefer greedy (pass (passUpTo greedy pass k n) c) (k c)

/-- Goes through an expression and on behind it, one way after another. -/
def backtrack : Regex → Onward β → Onward β
  | empty => fun k => k
  | set S => fun k c => (c.over? S.mem).bind k
  | look a => fun k c => if a.holds c.gap then k c else none
  | cat r s => fun k => r.backtrack (s.backtrack k)
  | alt r s => fun k c => (r.backtrack k c).or (s.backtrack k c)
  | star r greedy => fun k c => passUpTo greedy r.backtrack k c.rest.length c
  | plus r greedy => fun k => r.backtrack fun c => passUpTo greedy r.backtrack k c.rest.length c
  | times r n => fun k => passTimes r.backtrack k n
  | upTo r n greedy => fun k => passUpTo greedy r.backtrack k n
  | group _ r => r.backtrack

/-! The ways through the expressions that have parts. -/

section

variable (r s : Regex) (n : Nat) (greedy : Bool) (k : Onward β) (c : Cursor)

theorem backtrack_set (S : CharSet) : (set S).backtrack k c = (c.over? S.mem).bind k := rfl

theorem backtrack_look (a : Assertion) :
    (look a).backtrack k c = if a.holds c.gap then k c else none := rfl

theorem backtrack_cat : (cat r s).backtrack k = r.backtrack (s.backtrack k) := rfl

theorem backtrack_alt : (alt r s).backtrack k c = (r.backtrack k c).or (s.backtrack k c) := rfl

theorem backtrack_plus :
    (plus r greedy).backtrack k = r.backtrack ((star r greedy).backtrack k) := rfl

theorem backtrack_times_succ :
    (times r (n + 1)).backtrack k = r.backtrack ((times r n).backtrack k) := rfl

theorem backtrack_upTo_zero : (upTo r 0 greedy).backtrack k = k := rfl

theorem backtrack_upTo_succ : (upTo r (n + 1) greedy).backtrack k c =
    prefer greedy (r.backtrack ((upTo r n greedy).backtrack k) c) (k c) := rfl

end

theorem passUpTo_succ (greedy : Bool) (pass : Onward β → Onward β) (k : Onward β) (n : Nat) (c : Cursor) :
    passUpTo greedy pass k (n + 1) c = prefer greedy (pass (passUpTo greedy pass k n) c) (k c) := rfl

theorem passUpTo_congr {R : Cursor → Cursor → Prop} {pass : Onward β → Onward β}
    (hpass : ∀ {k k' : Onward β} {c : Cursor}, (∀ d, R c d → k d = k' d) → pass k c = pass k' c)
    {k k' : Onward β} {c : Cursor} (greedy : Bool) (n : Nat)
    (h : ∀ d, Relation.ReflTransGen R c d → k d = k' d) :
    passUpTo greedy pass k n c = passUpTo greedy pass k' n c := by
  induction n generalizing c with
  | zero => exact h c .refl
  | succ n ih =>
    have hmore : pass (passUpTo greedy pass k n) c = pass (passUpTo greedy pass k' n) c :=
      hpass fun d hd => ih fun e he => h e (.head hd he)
    rw [passUpTo_succ, passUpTo_succ, hmore, h c .refl]

/-- **Only the positions count that the expression leads to.** -/
theorem backtrack_congr {r : Regex} {k k' : Onward β} {c : Cursor}
    (h : ∀ d, r.Leads c d → k d = k' d) : r.backtrack k c = r.backtrack k' c := by
  induction r using unrolled generalizing k k' c with
  | empty => exact h c rfl
  | set S =>
    rw [backtrack_set, backtrack_set, Cursor.over?]
    cases hnext : c.next? with
    | none => rfl
    | some next =>
      dsimp only
      split
      · next hS => exact h next.2 ⟨next.1, hnext, hS⟩
      · rfl
  | look a =>
    rw [backtrack_look, backtrack_look]
    split
    · next ha => exact h c ⟨rfl, ha⟩
    · rfl
  | cat r s ihr ihs => exact ihr fun e hr => ihs fun d hs => h d ⟨e, hr, hs⟩
  | alt r s ihr ihs =>
    rw [backtrack_alt, backtrack_alt, ihr fun d hr => h d (Or.inl hr), ihs fun d hs => h d (Or.inr hs)]
  | star r greedy ih => exact passUpTo_congr ih greedy _ h
  | plus r greedy ih => exact ih fun e hr => passUpTo_congr ih greedy _ fun d hd => h d ⟨e, hr, hd⟩
  | timesZero r => exact h c rfl
  | timesSucc r n ihr ihn => exact ihr fun e hr => ihn fun d hn => h d ⟨e, hr, hn⟩
  | upToZero r greedy => exact h c rfl
  | upToSucc r n greedy ihr ihn =>
    rw [backtrack_upTo_succ, backtrack_upTo_succ, h c (Or.inl rfl),
      ihr fun e hr => ihn fun d hn => h d (Or.inr ⟨e, hr, hn⟩)]
  | group index r ih => exact ih h

theorem backtrack_fail (r : Regex) (c : Cursor) : r.backtrack (fun _ => (none : Option β)) c = none := by
  have hpasses : ∀ {pass : Onward β → Onward β}, (pass fun _ => none) = (fun _ => none) →
      ∀ greedy n, passUpTo greedy pass (fun _ => none) n = fun _ => none := by
    intro pass hpass greedy n
    induction n with
    | zero => rfl
    | succ n ih =>
      funext c
      rw [passUpTo_succ, ih, hpass, prefer_none]
  induction r using unrolled generalizing c with
  | empty => rfl
  | set S =>
    rw [backtrack_set]
    cases c.over? S.mem <;> rfl
  | look a => rw [backtrack_look, ite_self]
  | cat r s ihr ihs => rw [backtrack_cat, funext ihs, ihr]
  | alt r s ihr ihs => rw [backtrack_alt, ihr, ihs]; rfl
  | star r greedy ih => exact congrFun (hpasses (funext ih) greedy _) c
  | plus r greedy ih =>
    have hstar : (star r greedy).backtrack (fun _ => (none : Option β)) = fun _ => none :=
      funext fun c => congrFun (hpasses (funext ih) greedy _) c
    rw [backtrack_plus, hstar, ih]
  | timesZero r => rfl
  | timesSucc r n ihr ihn => rw [backtrack_times_succ, funext ihn, ihr]
  | upToZero r greedy => rfl
  | upToSucc r n greedy ihr ihn => rw [backtrack_upTo_succ, funext ihn, ihr, prefer_none]
  | group index r ih => exact ih c

theorem backtrack_eq_none {r : Regex} {c : Cursor} (h : ∀ d, ¬ r.Leads c d) (k : Onward β) :
    r.backtrack k c = none := by
  have hfail : r.backtrack k c = r.backtrack (fun _ => none) c :=
    backtrack_congr fun d hd => absurd hd (h d)
  rw [hfail, backtrack_fail]

/-! ## Loops -/

variable {r : Regex} {k : Onward β} {c : Cursor}

theorem passUpTo_of_length_le (hr : r.nullable = false) (greedy : Bool) {m n : Nat}
    (hm : c.rest.length ≤ m) (hn : c.rest.length ≤ n) :
    passUpTo greedy r.backtrack k m c = passUpTo greedy r.backtrack k n c := by
  have hend : ∀ {c : Cursor} {k k' : Onward β}, c.rest.length ≤ 0 →
      prefer greedy (r.backtrack k' c) (k c) = k c := by
    intro c k k' hc
    rw [backtrack_eq_none, prefer_none]
    intro d hd
    have := length_rest_lt_of_leads hr hd
    omega
  induction m generalizing n c with
  | zero =>
    cases n with
    | zero => rfl
    | succ n => exact (hend hm).symm
  | succ m ih =>
    cases n with
    | zero => exact hend hn
    | succ n =>
      rw [passUpTo_succ, passUpTo_succ]
      congr 1
      refine backtrack_congr fun d hd => ?_
      have := length_rest_lt_of_leads hr hd
      exact ih (by omega) (by omega)

/-- **A loop is a pass and the loop again, or is left.** -/
theorem backtrack_star (hr : r.nullable = false) (greedy : Bool) :
    (star r greedy).backtrack k c =
      prefer greedy (r.backtrack ((star r greedy).backtrack k) c) (k c) := by
  have hmore : (star r greedy).backtrack k c =
      passUpTo greedy r.backtrack k (c.rest.length + 1) c :=
    passUpTo_of_length_le hr greedy (Nat.le_refl _) (Nat.le_succ _)
  rw [hmore, passUpTo_succ]
  congr 1
  refine backtrack_congr fun d hd => ?_
  exact passUpTo_of_length_le hr greedy (Nat.le_of_lt (length_rest_lt_of_leads hr hd)) (Nat.le_refl _)

end Regex

end Highlight
