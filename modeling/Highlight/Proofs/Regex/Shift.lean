import Highlight.Proofs.Regex.Reading

/-!
# The places of an expression can be anywhere

The number of its first place means nothing to an expression. `n` places farther on it does the same with parts
that are `n` places farther on, and it keeps off the places before (`Regex.displaced_exploreAll`). So it reads
the same (`reads?_shift`).
-/

namespace Highlight

/-- The same move, with what it leaves to be done `n` places farther on. -/
def Move.shift (n : Nat) : Move → Move
  | exit closes => exit closes
  | read todo closes => read (todo.map (Part.shift n)) closes

theorem Move.shift_after (n : Nat) (closed : Bool) (m : Move) :
    (m.after closed).shift n = (m.shift n).after closed := by
  cases m <;> rfl

theorem Move.todo?_shift (n : Nat) (m : Move) :
    (m.shift n).todo? = m.todo?.map (·.map (Part.shift n)) := by
  cases m <;> rfl

/-- From the place `n` on, the second places are the first ones. -/
def Places.Displaced (n : Nat) (v v' : Places) : Prop :=
  ∀ i, v'.testBit (i + n) = v.testBit i

/-- The places before `n` are the same. -/
def Places.SameBelow (n : Nat) (v v' : Places) : Prop :=
  ∀ i < n, v'.testBit i = v.testBit i

theorem Places.Displaced.enter {n : Nat} {v v' : Places} (h : Displaced n v v') (place : Nat) :
    Displaced n (v ||| 1 <<< place) (v' ||| 1 <<< (place + n)) := by
  intro i
  rw [testBit_enter, testBit_enter, h i]
  simp

/-- The second walk does what the first one does, `n` places farther on, and enters none before. -/
def Walk.Displaced (n : Nat) (w w' : Walk) : Prop :=
  ∀ v v' : Places, Places.Displaced n v v' → (w' v').1 = (w v).1.map (Move.shift n) ∧
    Places.Displaced n (w v).2 (w' v').2 ∧ Places.SameBelow n v' (w' v').2

theorem Regex.parallel_displaced (n : Nat) (g : Gap) :
    Walk.Parallel {} n g g (Walk.Displaced n) where
  stop := fun _ _ h => ⟨rfl, h, fun _ _ => rfl⟩
  exit := fun _ _ h => ⟨rfl, h, fun _ _ => rfl⟩
  reading := by
    intro S todo _ _ v v' h
    unfold Walk.reading
    split
    · exact ⟨rfl, h, fun _ _ => rfl⟩
    · exact ⟨rfl, h, fun _ _ => rfl⟩
  both := by
    intro w w' x x' hw hx v v' h
    obtain ⟨hwm, hwv, hwb⟩ := hw v v' h
    obtain ⟨hxm, hxv, hxb⟩ := hx _ _ hwv
    refine ⟨?_, hxv, fun i hi => (hxb i hi).trans (hwb i hi)⟩
    change (w' v').1 ++ (x' (w' v').2).1 = ((w v).1 ++ (x (w v).2).1).map _
    rw [List.map_append, hwm, hxm]
  once := by
    intro w w' place hw v v' h
    unfold Walk.once
    rw [h place]
    split
    · exact ⟨rfl, h, fun _ _ => rfl⟩
    · obtain ⟨hm, hv, hb⟩ := hw _ _ (h.enter place)
      refine ⟨hm, hv, fun i hi => ?_⟩
      have hne : place + n ≠ i := by omega
      rw [hb i hi, testBit_enter, decide_eq_false hne, Bool.or_false]
  after := by
    intro w w' index _ hw v v' h
    obtain ⟨hm, hv, hb⟩ := hw v v' h
    refine ⟨?_, hv, hb⟩
    change (w' v').1.map _ = ((w v).1.map _).map _
    rw [hm, List.map_map, List.map_map]
    congr 1
    funext m
    exact (Move.shift_after n _ m).symm
  holds := fun _ => rfl

theorem Regex.isOver_default (r : Regex) : r.isOver {} = true := by
  induction r with
  | empty => rfl
  | set S => rfl
  | look a => rfl
  | cat r s ihr ihs => simp [isOver, ihr, ihs]
  | alt r s ihr ihs => simp [isOver, ihr, ihs]
  | star r greedy ih => exact ih
  | plus r greedy ih => exact ih
  | times r n ih => simp [isOver, ih]
  | upTo r n greedy ih => simp [isOver, ih]
  | group index r ih => simp [isOver, ih]

/-- **Farther on an expression does the same**, and keeps off the places before. -/
theorem Regex.displaced_exploreAll (n : Nat) (g : Gap) (todo : List Part) :
    Walk.Displaced n (exploreAll g todo) (exploreAll g (todo.map (Part.shift n))) :=
  (parallel_displaced n g).exploreAll fun part _ => isOver_default part.regex

theorem ways_shift (n : Nat) (g : Gap) (todos : List (List Part)) {v v' : Places}
    (h : Places.Displaced n v v') :
    ways g (todos.map (·.map (Part.shift n))) v' =
      (ways g todos v).map (Option.map (·.map (Part.shift n))) := by
  induction todos generalizing v v' with
  | nil => rfl
  | cons todo more ih =>
    obtain ⟨hm, hv, -⟩ := Regex.displaced_exploreAll n g todo v v' h
    rw [List.map_cons, ways, ways, List.map_append, ih hv, hm, List.map_map, List.map_map]
    congr 2
    funext m
    exact Move.todo?_shift n m

theorem going_map (f : List Part → List Part) (xs : List (Option (List Part))) :
    going (xs.map (Option.map f)) = (going xs).map f := by
  induction xs with
  | nil => rfl
  | cons x xs ih =>
    cases x with
    | none => rfl
    | some todo => rw [List.map_cons, Option.map_some, going_some, going_some, ih, List.map_cons]

/-- **What is read does not depend on where the places begin.** -/
theorem reads?_shift (n : Nat) (todos : List (List Part)) (prev : Option Char) (rest : List Char) :
    reads? (todos.map (·.map (Part.shift n))) prev rest = reads? todos prev rest := by
  have hany : ∀ xs : List (Option (List Part)),
      (xs.map (Option.map (·.map (Part.shift n)))).any Option.isNone = xs.any Option.isNone := by
    intro xs
    rw [List.any_map]
    congr 1
    funext x
    cases x <;> rfl
  have hzero : Places.Displaced n 0 0 := fun i => by rw [Nat.zero_testBit, Nat.zero_testBit]
  induction rest generalizing todos prev with
  | nil => rw [reads?, reads?, ways_shift n _ todos hzero, hany]
  | cons a rest ih => rw [reads?, reads?, ways_shift n _ todos hzero, hany, going_map, ih]

end Highlight
