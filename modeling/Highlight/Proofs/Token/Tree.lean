import Highlight.Proofs.Token.Join

/-!
# Token trees

A token of a tree is found on a path: `Occurs ts above t` says that `t` stands in the trees `ts` below the tokens
`above`, the nearest first. What is proved of all tokens that occur is proved of the tokens at every depth.

`shift n` moves a token with all that is below it by `n` bytes. Two tokens join after the shift as before
(`join_map_shift`).
-/

namespace Highlight

namespace Span

/-- The range `n` bytes farther on. -/
def shift (n : Nat) (s : Span) : Span :=
  ⟨s.start + n, s.stop + n⟩

end Span

namespace Token

/-- **Induction on token trees.** What passes from the children of a token to the token holds of all. -/
theorem induction {motive : Token → Prop}
    (h : ∀ t, (∀ u ∈ t.children, motive u) → motive t) (t : Token) : motive t := by
  apply h
  intro u hu
  exact induction h u
termination_by sizeOf t
decreasing_by
  obtain ⟨kind, label, value, span, children⟩ := t
  have hlt : sizeOf u < sizeOf children := List.sizeOf_lt_of_mem hu
  simp only [mk.sizeOf_spec]
  omega

/-- The token `t` stands in the trees `ts` below the tokens `above`, of which the first is its parent. -/
inductive Occurs (ts : List Token) : List Token → Token → Prop
  | top {t : Token} (h : t ∈ ts) : Occurs ts [] t
  | child {above : List Token} {parent t : Token} (hparent : Occurs ts above parent)
      (h : t ∈ parent.children) : Occurs ts (parent :: above) t

/-! ## Moving tokens -/

mutual

/-- The token with all that is below it, `n` bytes farther on. -/
def shift (n : Nat) : Token → Token
  | ⟨kind, label, value, span, children⟩ =>
    ⟨kind, label, value, span.shift n, shiftAll n children⟩

/-- Tokens with all that is below them, `n` bytes farther on. -/
def shiftAll (n : Nat) : List Token → List Token
  | [] => []
  | t :: ts => shift n t :: shiftAll n ts

end

theorem shiftAll_eq (n : Nat) (ts : List Token) : shiftAll n ts = ts.map (shift n) := by
  induction ts with
  | nil => rfl
  | cons t ts ih => rw [shiftAll, ih, List.map_cons]

theorem shift_eq (n : Nat) (t : Token) :
    t.shift n = ⟨t.kind, t.label, t.value, t.span.shift n, t.children.map (shift n)⟩ := by
  obtain ⟨kind, label, value, span, children⟩ := t
  rw [shift, shiftAll_eq]

@[simp] theorem isPlain_shift (n : Nat) (t : Token) : (t.shift n).isPlain = t.isPlain := by
  rw [shift_eq]
  rfl

@[simp] theorem span_shift (n : Nat) (t : Token) : (t.shift n).span = t.span.shift n := by
  rw [shift_eq]

theorem continues_shift (n : Nat) (t u : Token) :
    continues (t.shift n) (u.shift n) = continues t u := by
  simp [continues, Span.shift]

theorem extend_shift (n : Nat) (t u : Token) :
    extend (t.shift n) (u.shift n) = (extend t u).shift n := by
  simp [shift_eq, extend, Span.shift]

theorem join_map_shift (n : Nat) (ts : List Token) :
    join (ts.map (shift n)) = (join ts).map (shift n) :=
  join_map (continues_shift n) (extend_shift n) ts

end Token

end Highlight
