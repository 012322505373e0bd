import Highlight.Proofs.Pattern.Offer
import Highlight.Regex.Parse
import Highlight.Tokenize

/-!
# What a look-behind expression sees

A look-behind expression `(^|C)(?:r)` should see the character before a position or the start of the text, and
nothing else. The main statement tells exactly what it offers. There is one exception: if all the text before
the position is one character, and `r` has a match at the start of the text, nothing is offered, whatever the
character is and whatever follows. The search begins at that character and comes to the start of the text first.
-/

namespace Highlight.Pattern

theorem stop_matchHere (r : Regex) (c : Cursor) :
    (r.matchHere c).map Hit.stop = (tokenLength? r c).map (c.offset + ·) := by
  have hshift : reads? [[⟨r, 2⟩]] c.before.head? c.rest = reads? [[⟨r, 0⟩]] c.before.head? c.rest :=
    reads?_shift 2 [[⟨r, 0⟩]] c.before.head? c.rest
  rw [Regex.matchHere, stop_run, tokenLength?, hshift, Option.map_map]
  rfl

theorem isSome_matchHere (r : Regex) (c : Cursor) :
    (r.matchHere c).isSome = (tokenLength? r c).isSome := by
  have hstop := congrArg Option.isSome (stop_matchHere r c)
  rwa [Option.isSome_map, Option.isSome_map] at hstop

/-- **A look-behind expression offers a token where its match begins** and is not empty, if the start of the text or a
character of `C` is before it, unless a match at the start of the text hides it. -/
theorem length?_behind_eq_some_iff {p : Pattern} {C : CharSet} {r : Regex}
    (hp : p.matcher = .regex (.behind C r)) (hl : p.lookbehind = true)
    (hr : r.isOver .unmarked = true) (c : Cursor) (n : Nat) :
    p.length? c = some n ↔
      (r.matchHere c).map Hit.stop = some (c.offset + n) ∧ 0 < n ∧
        c.before.head?.all C.mem = true ∧
        ¬ ∃ a b, c.prev? = some (a, b) ∧ b.before = [] ∧ (r.matchHere b).isSome = true := by
  have hcontext := hasContext_behind hp hl hr
  have hstop : (r.matchHere c).map Hit.stop = some (c.offset + n) ↔ tokenLength? r c = some n := by
    rw [stop_matchHere, Option.map_eq_some_iff]
    constructor
    · rintro ⟨m, hm, heq⟩
      obtain rfl : m = n := Nat.add_left_cancel heq
      exact hm
    · intro hn
      exact ⟨n, hn, rfl⟩
  have hhidden : (∃ a b, c.prev? = some (a, b) ∧ b.before = [] ∧ (r.matchHere b).isSome = true) ↔
      IsHidden (tokenLength? r) c := by
    simp only [isSome_matchHere, IsHidden]
  rw [hstop, hhidden]
  by_cases hc : IsHidden (tokenLength? r) c
  · rw [hcontext.length?_of_isHidden hc]
    exact ⟨nofun, fun h => absurd hc h.2.2.2⟩
  · rw [hcontext.length?_eq hc]
    split
    · next hC =>
      rw [Option.filter_eq_some_iff, decide_eq_true_eq]
      exact ⟨fun h => ⟨h.1, h.2, hC, hc⟩, fun h => ⟨h.1, h.2.1⟩⟩
    · next hC => exact ⟨nofun, fun h => absurd h.2.2.1 hC⟩

/-- An `x`, with a bracket before it or not, behind a bracket: `(^|[(])(?:\(?x)` -/
def bracketed : Pattern where
  matcher := .regex (.behind (.single '(') (.seq [.optional (.char '(') true, .char 'x']))
  lookbehind := true

example : (Regex.parse? "(^|[(])(?:\\(?x)").map .regex = some bracketed.matcher := by
  decide +kernel

/-- Behind two brackets the `x` is offered. -/
theorem length?_bracketed :
    Regex.isOver .unmarked (.seq [.optional (.char '(') true, .char 'x']) = true ∧
      bracketed.length? (.behind ['(', '('] ['x']) = some 1 := by
  have hunmarked : Regex.isOver .unmarked (.seq [.optional (.char '(') true, .char 'x']) = true := by
    decide
  refine ⟨hunmarked, (length?_behind_eq_some_iff rfl rfl hunmarked _ _).2 ⟨?_, ?_, ?_, ?_⟩⟩
  · decide +kernel
  · decide
  · decide
  · rintro ⟨a, b, hprev, hbefore, -⟩
    have hb := (Cursor.next?_eq_some.1 (Cursor.prev?_eq_some.1 hprev)).2
    rw [hbefore] at hb
    exact absurd hb (by simp [Cursor.behind])

/-- Behind a single bracket, which a rule for brackets has taken, the `x` is a match behind context and is not
offered: the bracket with the `x` is a match at the start of the text. -/
theorem length?_bracketed_eq_none :
    (Regex.matchHere (.seq [.optional (.char '(') true, .char 'x']) (.behind ['('] ['x'])).map
        Hit.stop = some 2 ∧
      bracketed.length? (.behind ['('] ['x']) = none ∧
      (cutAfresh [⟨.punctuation, none, { matcher := .regex (.char '(') }⟩, ⟨.char, none, bracketed⟩]
        ['(', 'x']).map (fun p => (p.start, p.claim.map Entry.kind)) =
          [(0, some .punctuation), (1, none)] := by
  decide +kernel

end Highlight.Pattern
