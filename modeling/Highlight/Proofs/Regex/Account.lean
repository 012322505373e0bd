import Highlight.Proofs.Regex.Chart

/-!
# What has been come to at a gap

Threads at a gap come to places and to moves, and an `Account` lists them. Whatever they enter they also follow,
so the account of a walk is complete: behind each of its places there is nothing that is not in it
(`Regex.settles_explore`). Hence it tells which walks come to nothing new, and to any other walk it makes no
difference which of these places have been entered (`Regex.heeds_explore`).

A walk enters a loop before it has come to what is behind the loop, so that its account is complete only when it has
come to an end. `Walk.Settles` puts off what is still to come.
-/

namespace Highlight

/-- What has been come to at a gap: places that have been entered, and moves. -/
structure Account where
  entered : Places
  moves : List (Option (List Part))

namespace Account

/-- The account has all that a walk came to. -/
structure Includes (A : Account) (result : List Move × Places) : Prop where
  entered : ∀ n, result.2.testBit n = true → A.entered.testBit n = true
  moves : ∀ m ∈ result.1, m.todo? ∈ A.moves

end Account

namespace Regex

/-- What a way over `n` passes comes to first is in the account. -/
def coveredTimes (r : Regex) (pass : Nat → Prop → Prop) : Nat → Nat → Prop → Prop
  | 0, _, K => K
  | n + 1, place, K => pass place (coveredTimes r pass n (place + r.width) K)

/-- What a way through the expression comes to first is in the account: a place, or what stands behind the
expression, for which `K` says so. -/
def Covered (g : Gap) (A : Account) : Regex → Nat → Prop → Prop
  | empty => fun _ K => K
  | set _ => fun place _ => A.entered.testBit place = true
  | look a => fun _ K => a.holds g = true → K
  | cat r s => fun place K => r.Covered g A place (s.Covered g A (place + r.width) K)
  | alt _ _ => fun place _ => A.entered.testBit place = true
  | star _ _ => fun place _ => A.entered.testBit place = true
  | plus r _ => fun place _ => r.Covered g A (place + 1) (A.entered.testBit place = true)
  | times r n => coveredTimes r (r.Covered g A) n
  | upTo _ 0 _ => fun _ K => K
  | upTo _ (_ + 1) _ => fun place _ => A.entered.testBit place = true
  | group _ r => r.Covered g A

/-- What a way through the parts comes to first is in the account. -/
def coveredAll (g : Gap) (A : Account) : List Part → Prop
  | [] => none ∈ A.moves
  | part :: todo => part.regex.Covered g A part.place (coveredAll g A todo)

/-- What a way comes to behind a place is in the account. The place is told by what is owed where it is entered. -/
def Settled (g : Gap) (A : Account) : List Part → Prop
  | ⟨set S, _⟩ :: todo => g.next.any S.mem = true → some todo ∈ A.moves
  | ⟨alt r s, place⟩ :: todo => r.Covered g A (place + 1) (coveredAll g A todo) ∧
    s.Covered g A (place + 1 + r.width) (coveredAll g A todo)
  | ⟨star r _, place⟩ :: todo =>
    r.Covered g A (place + 1) (A.entered.testBit place = true) ∧ coveredAll g A todo
  | ⟨upTo r (n + 1) greedy, place⟩ :: todo =>
    (cat r (upTo r n greedy)).Covered g A (place + 1) (coveredAll g A todo) ∧
      coveredAll g A todo
  | _ => True

end Regex

/-- Where the places `B` have been entered, an account of the walk meets the `goal`, and the places that the walk
enters are settled in it. The latter is put off until the account has what is still to come, which `H` tells. -/
structure Walk.Settles (N : Chart) (g : Gap) (B : Nat → Prop) (goal H : Account → Prop)
    (w : Walk) : Prop where
  mono : ∀ v n, v.testBit n = true → (w v).2.testBit n = true
  goal : ∀ v, (∀ n, B n → v.testBit n = true) → ∀ A : Account, A.Includes (w v) → goal A
  settled : ∀ v, (∀ n, B n → v.testBit n = true) → ∀ A : Account, A.Includes (w v) → H A →
    ∀ n, (w v).2.testBit n = true → v.testBit n = false → Regex.Settled g A (N n)

namespace Account.Includes

variable {A : Account} {w x : Walk} {v : Places}

theorem first (hx : ∀ v n, v.testBit n = true → (x v).2.testBit n = true)
    (h : A.Includes (Walk.both w x v)) : A.Includes (w v) :=
  ⟨fun n hn => h.entered n (hx _ n hn), fun m hm => h.moves m (List.mem_append_left _ hm)⟩

theorem second (h : A.Includes (Walk.both w x v)) : A.Includes (x (w v).2) :=
  ⟨h.entered, fun m hm => h.moves m (List.mem_append_right _ hm)⟩

end Account.Includes

namespace Walk.Settles

variable {N : Chart} {g : Gap} {B : Nat → Prop} {goal goal' H H' : Account → Prop} {w x : Walk}

theorem stop (h : ∀ A : Account, (∀ n, B n → A.entered.testBit n = true) → goal A) :
    Settles N g B goal H Walk.stop where
  mono := fun _ _ hv => hv
  goal := fun v hv A hA => h A fun n hn => hA.entered n (hv n hn)
  settled := fun v _ _ _ _ n hn hv => by rw [Walk.stop, hv] at hn; cases hn

theorem single {m : Move} (h : ∀ A : Account, m.todo? ∈ A.moves → goal A) :
    Settles N g B goal H (Walk.single m) where
  mono := fun _ _ hv => hv
  goal := fun v _ A hA => h A (hA.moves m (List.mem_singleton_self m))
  settled := fun v _ _ _ _ n hn hv => by rw [Walk.single, hv] at hn; cases hn

theorem imp (hgoal : ∀ A, goal A → goal' A) (hH : ∀ A, goal A → H' A → H A)
    (hw : w.Settles N g B goal H) : w.Settles N g B goal' H' where
  mono := hw.mono
  goal := fun v hv A hA => hgoal A (hw.goal v hv A hA)
  settled := fun v hv A hA h => hw.settled v hv A hA (hH A (hw.goal v hv A hA) h)

theorem base {C : Nat → Prop} (hB : ∀ n, B n → C n) (hw : w.Settles N g B goal H) :
    w.Settles N g C goal H where
  mono := hw.mono
  goal := fun v hv => hw.goal v fun n hn => hv n (hB n hn)
  settled := fun v hv => hw.settled v fun n hn => hv n (hB n hn)

theorem both (hw : w.Settles N g B goal H) (hx : x.Settles N g B goal' H) :
    (Walk.both w x).Settles N g B (fun A => goal A ∧ goal' A) H where
  mono := fun v n hv => hx.mono _ n (hw.mono v n hv)
  goal := by
    intro v hv A hA
    exact ⟨hw.goal v hv A (hA.first hx.mono),
      hx.goal _ (fun n hn => hw.mono v n (hv n hn)) A hA.second⟩
  settled := by
    intro v hv A hA h n hn hnv
    cases hfirst : (w v).2.testBit n with
    | true => exact hw.settled v hv A (hA.first hx.mono) h n hfirst hnv
    | false => exact hx.settled _ (fun n hn => hw.mono v n (hv n hn)) A hA.second h n hn hfirst

theorem prefer (hw : w.Settles N g B goal H) (hx : x.Settles N g B goal' H) (first : Bool) :
    (Walk.prefer first w x).Settles N g B (fun A => goal A ∧ goal' A) H := by
  cases first
  · exact (hx.both hw).imp (fun _ h => h.symm) fun _ _ h => h
  · exact hw.both hx

theorem after {closed : Bool} (hw : w.Settles N g B goal H) :
    (Walk.after closed w).Settles N g B goal H := by
  have hA : ∀ v (A : Account), A.Includes (Walk.after closed w v) → A.Includes (w v) := by
    intro v A hA
    refine ⟨hA.entered, fun m hm => ?_⟩
    have hmoves := hA.moves _ (List.mem_map_of_mem hm)
    rwa [Move.todo?_after] at hmoves
  exact ⟨hw.mono, fun v hv A h => hw.goal v hv A (hA v A h),
    fun v hv A h => hw.settled v hv A (hA v A h)⟩

/-- The place that is entered is settled if what the walk comes to behind it is in the account. -/
theorem once {place : Nat} (hN : ∀ A, goal A → H A → Regex.Settled g A (N place))
    (hw : w.Settles N g (fun n => B n ∨ place = n) goal H) :
    (Walk.once place w).Settles N g B (fun A => A.entered.testBit place = true) H := by
  have henter : ∀ v, (∀ n, B n → v.testBit n = true) →
      ∀ n, B n ∨ place = n → (v ||| 1 <<< place).testBit n = true := by
    intro v hv n hn
    rw [testBit_enter]
    rcases hn with hn | hn
    · rw [hv n hn, Bool.true_or]
    · simp [hn]
  refine ⟨?_, ?_, ?_⟩
  · intro v n hn
    unfold Walk.once
    split
    · exact hn
    · exact hw.mono _ n (by rw [testBit_enter, hn, Bool.true_or])
  · intro v hv A hA
    unfold Walk.once at hA
    split at hA
    · next hplace => exact hA.entered place hplace
    · refine hA.entered place (hw.mono _ place ?_)
      rw [testBit_enter, decide_eq_true rfl, Bool.or_true]
  · intro v hv A hA h n hn hnv
    unfold Walk.once at hA hn
    split at hA
    · next hentered =>
      rw [if_pos hentered, hnv] at hn
      cases hn
    · next hentered =>
      rw [if_neg hentered] at hn
      by_cases hplace : place = n
      · subst hplace
        exact hN A (hw.goal _ (henter v hv) A hA) h
      · refine hw.settled _ (henter v hv) A hA h n hn ?_
        rw [testBit_enter, hnv, decide_eq_false hplace, Bool.false_or]

end Walk.Settles

namespace Regex

/-- **The account of a walk through an expression is complete**, if it is so behind the expression. -/
theorem settles_explore (N : Chart) (g : Gap) {r : Regex} {place : Nat} {todo : List Part}
    (hr : r.Charted N place todo) {k : Walk} {B : Nat → Prop} {H : Account → Prop}
    (hk : k.Settles N g B (coveredAll g · todo) H) :
    (r.explore g place todo k).Settles N g B (fun A => r.Covered g A place (coveredAll g A todo)) H := by
  induction r using unrolled generalizing place todo k B H with
  | empty => exact hk
  | set S =>
    rw [explore]
    have hbody : (if g.next.any S.mem = true then Walk.single (.read todo false) else .stop).Settles N g
        (fun n => B n ∨ place = n) (fun A => g.next.any S.mem = true → some todo ∈ A.moves) H := by
      split
      · exact .single fun A hA _ => hA
      · next h => exact .stop fun A _ hS => absurd hS h
    exact hbody.once fun A hA _ => by rw [hr]; exact hA
  | look a =>
    rw [explore]
    split
    · exact hk.imp (fun A hA _ => hA) fun _ _ h => h
    · next h => exact .stop fun A _ ha => absurd ha h
  | cat r s ihr ihs =>
    exact ihr hr.1 (ihs hr.2 hk)
  | alt r s ihr ihs =>
    obtain ⟨hN, hr, hs⟩ := hr
    have hk' := hk.base (C := fun n => B n ∨ place = n) fun _ => Or.inl
    exact ((ihr hr hk').both (ihs hs hk')).once fun A hA _ => by rw [hN]; exact hA
  | star r greedy ih =>
    obtain ⟨hN, hr⟩ := hr
    have hk' := hk.base (C := fun n => B n ∨ place = n) fun _ => Or.inl
    have hpass : (r.explore g (place + 1) (⟨star r greedy, place⟩ :: todo) .stop).Settles N g
        (fun n => B n ∨ place = n) _ H :=
      ih hr (.stop fun A hA => hA place (Or.inr rfl))
    exact (hpass.prefer hk' greedy).once fun A hA _ => by rw [hN]; exact hA
  | plus r greedy ih =>
    obtain ⟨hN, hr⟩ := hr
    have hk' := hk.base (C := fun n => B n ∨ place = n) fun _ => Or.inl
    have hleave : (Walk.once place k).Settles N g B (coveredAll g · (⟨star r greedy, place⟩ :: todo))
        (fun A => H A ∧ r.Covered g A (place + 1) (A.entered.testBit place = true)) := by
      refine (hk'.imp (fun _ h => h) fun _ _ h => h.1).once fun A hA h => ?_
      rw [hN]
      exact ⟨h.2, hA⟩
    exact (ih hr hleave).imp (fun _ h => h) fun _ hA h => ⟨h, hA⟩
  | timesZero r => exact hk
  | timesSucc r n ihr ihn => exact ihr hr.1 (ihn hr.2 hk)
  | upToZero r greedy => exact hk
  | upToSucc r n greedy ihr ihn =>
    obtain ⟨hN, hr, hn⟩ := hr
    have hk' := hk.base (C := fun n => B n ∨ place = n) fun _ => Or.inl
    exact ((ihr hr (ihn hn hk')).prefer hk' greedy).once fun A hA _ => by
      rw [hN]
      exact hA
  | group index r ih => exact ih hr hk.after

end Regex

/-! ## What an account makes redundant -/

/-- The same places but for those of the account. -/
def Account.Hides (A : Account) (v v' : Places) : Prop :=
  ∀ n, A.entered.testBit n = false → v.testBit n = v'.testBit n

namespace Account.Hides

variable {A : Account} {v v' v'' : Places}

theorem refl (v : Places) : A.Hides v v :=
  fun _ _ => rfl

theorem symm (h : A.Hides v v') : A.Hides v' v :=
  fun n hn => (h n hn).symm

theorem trans (h : A.Hides v v') (h' : A.Hides v' v'') : A.Hides v v'' :=
  fun n hn => (h n hn).trans (h' n hn)

theorem enter (h : A.Hides v v') (place : Nat) :
    A.Hides (v ||| 1 <<< place) (v' ||| 1 <<< place) := by
  intro n hn
  rw [testBit_enter, testBit_enter, h n hn]

theorem enter_self {place : Nat} (hplace : A.entered.testBit place = true) (v : Places) :
    A.Hides (v ||| 1 <<< place) v := by
  intro n hn
  have hne : place ≠ n := by
    rintro rfl
    rw [hplace] at hn
    cases hn
  rw [testBit_enter, decide_eq_false hne, Bool.or_false]

end Account.Hides

namespace Walk

/-- All that the walk comes to is in the account. -/
def Within (A : Account) (w : Walk) : Prop :=
  ∀ v, (∀ m ∈ (w v).1, m.todo? ∈ A.moves) ∧ A.Hides (w v).2 v

/-- The walk comes to the same but for what is in the account, whatever places of the account have been entered. -/
def Blind (A : Account) (w : Walk) : Prop :=
  ∀ v v', A.Hides v v' →
    (w v).1.filter (fun m => m.todo? ∉ A.moves) = (w v').1.filter (fun m => m.todo? ∉ A.moves) ∧
      A.Hides (w v).2 (w v').2

theorem Within.filter_eq_nil {A : Account} {w : Walk} (hw : w.Within A) (v : Places) :
    (w v).1.filter (fun m => m.todo? ∉ A.moves) = [] := by
  rw [List.filter_eq_nil_iff]
  intro m hm hnot
  exact of_decide_eq_true hnot ((hw v).1 m hm)

/-- The account is all that counts of what has been come to before the walk, and the walk comes to nothing new
if it is `covered`. -/
structure Heeds (A : Account) (covered : Prop) (w : Walk) : Prop where
  within : covered → w.Within A
  blind : w.Blind A

namespace Heeds

variable {A : Account} {c c' : Prop} {w x : Walk}

theorem stop : Heeds A c Walk.stop where
  within := fun _ v => ⟨List.forall_mem_nil _, .refl v⟩
  blind := fun _ _ h => ⟨rfl, h⟩

theorem single {m : Move} (h : c → m.todo? ∈ A.moves) : Heeds A c (Walk.single m) where
  within := fun hc v => ⟨List.forall_mem_singleton.2 (h hc), .refl v⟩
  blind := fun _ _ h => ⟨rfl, h⟩

theorem imp (h : c' → c) (hw : w.Heeds A c) : w.Heeds A c' :=
  ⟨fun hc => hw.within (h hc), hw.blind⟩

theorem both (hw : w.Heeds A c) (hx : x.Heeds A c') : (Walk.both w x).Heeds A (c ∧ c') where
  within := by
    intro hc v
    obtain ⟨hwm, hwv⟩ := hw.within hc.1 v
    obtain ⟨hxm, hxv⟩ := hx.within hc.2 (w v).2
    refine ⟨fun m hm => ?_, hxv.trans hwv⟩
    rcases List.mem_append.1 hm with hm | hm
    · exact hwm m hm
    · exact hxm m hm
  blind := by
    intro v v' h
    obtain ⟨hwm, hwv⟩ := hw.blind v v' h
    obtain ⟨hxm, hxv⟩ := hx.blind _ _ hwv
    refine ⟨?_, hxv⟩
    change ((w v).1 ++ (x (w v).2).1).filter _ = ((w v').1 ++ (x (w v').2).1).filter _
    rw [List.filter_append, List.filter_append, hwm, hxm]

theorem prefer (hw : w.Heeds A c) (hx : x.Heeds A c') (first : Bool) :
    (Walk.prefer first w x).Heeds A (c ∧ c') := by
  cases first
  · exact (hx.both hw).imp And.symm
  · exact hw.both hx

theorem after {closed : Bool} (hw : w.Heeds A c) : (Walk.after closed w).Heeds A c where
  within := by
    intro hc v
    refine ⟨fun m hm => ?_, (hw.within hc v).2⟩
    obtain ⟨n, hn, rfl⟩ := List.mem_map.1 hm
    rw [Move.todo?_after]
    exact (hw.within hc v).1 n hn
  blind := by
    intro v v' h
    obtain ⟨hm, hv⟩ := hw.blind v v' h
    have hp : (fun m : Move => decide (m.todo? ∉ A.moves)) ∘ Move.after closed =
        fun m => decide (m.todo? ∉ A.moves) := by
      funext m
      rw [Function.comp_apply, Move.todo?_after]
    refine ⟨?_, hv⟩
    change ((w v).1.map _).filter _ = ((w v').1.map _).filter _
    rw [List.filter_map, List.filter_map, hp, hm]

/-- A place of the account may have been entered in one case and not in the other; then there is nothing new behind
it. -/
theorem once {place : Nat} (hc : A.entered.testBit place = true → c) (hw : w.Heeds A c) :
    (Walk.once place w).Heeds A (A.entered.testBit place = true) := by
  have hwithin : A.entered.testBit place = true → (Walk.once place w).Within A := by
    intro hplace v
    unfold Walk.once
    split
    · exact ⟨List.forall_mem_nil _, .refl v⟩
    · obtain ⟨hm, hv⟩ := hw.within (hc hplace) (v ||| 1 <<< place)
      exact ⟨hm, hv.trans (.enter_self hplace v)⟩
  refine ⟨hwithin, fun v v' h => ?_⟩
  cases hplace : A.entered.testBit place with
  | true =>
    have hin := hwithin hplace
    rw [hin.filter_eq_nil, hin.filter_eq_nil]
    exact ⟨rfl, ((hin v).2.trans h).trans (hin v').2.symm⟩
  | false =>
    unfold Walk.once
    rw [h place hplace]
    split
    · exact ⟨rfl, h⟩
    · exact hw.blind _ _ (h.enter place)

end Heeds

end Walk

namespace Regex

/-- **A walk through an expression heeds the accounts in which all places are settled.** -/
theorem heeds_explore {N : Chart} {g : Gap} {A : Account}
    (hA : ∀ n, A.entered.testBit n = true → Settled g A (N n)) {r : Regex} {place : Nat}
    {todo : List Part} (hr : r.Charted N place todo) {k : Walk}
    (hk : k.Heeds A (coveredAll g A todo)) :
    (r.explore g place todo k).Heeds A (r.Covered g A place (coveredAll g A todo)) := by
  induction r using unrolled generalizing place todo k with
  | empty => exact hk
  | set S =>
    have hset := hA place
    rw [hr] at hset
    refine .once hset ?_
    split
    · next hS => exact .single fun h => h hS
    · exact .stop
  | look a =>
    rw [explore]
    split
    · next ha => exact hk.imp fun h => h ha
    · exact .stop
  | cat r s ihr ihs => exact ihr hr.1 (ihs hr.2 hk)
  | alt r s ihr ihs =>
    obtain ⟨hN, hr, hs⟩ := hr
    have hbody := hA place
    rw [hN] at hbody
    exact .once hbody (.both (ihr hr hk) (ihs hs hk))
  | star r greedy ih =>
    obtain ⟨hN, hr⟩ := hr
    have hbody := hA place
    rw [hN] at hbody
    exact .once hbody (.prefer (ih hr .stop) hk greedy)
  | plus r greedy ih =>
    obtain ⟨hN, hr⟩ := hr
    have hbody := hA place
    rw [hN] at hbody
    exact ih hr (.once (fun h => (hbody h).2) hk)
  | timesZero r => exact hk
  | timesSucc r n ihr ihn => exact ihr hr.1 (ihn hr.2 hk)
  | upToZero r greedy => exact hk
  | upToSucc r n greedy ihr ihn =>
    obtain ⟨hN, hr, hn⟩ := hr
    have hbody := hA place
    rw [hN] at hbody
    exact .once hbody (.prefer (ihr hr (ihn hn hk)) hk greedy)
  | group index r ih => exact ih hr hk.after

/-! ## What threads owe -/

theorem settles_exploreAll {N : Chart} (g : Gap) {todo : List Part} (h : chartedAll N todo)
    (B : Nat → Prop) (H : Account → Prop) :
    (exploreAll g todo).Settles N g B (coveredAll g · todo) H := by
  induction todo with
  | nil => exact .single fun A hA => hA
  | cons part todo ih => exact settles_explore N g h.1 (ih h.2)

theorem heeds_exploreAll {N : Chart} {g : Gap} {A : Account}
    (hA : ∀ n, A.entered.testBit n = true → Settled g A (N n)) {todo : List Part}
    (h : chartedAll N todo) : (exploreAll g todo).Heeds A (coveredAll g A todo) := by
  induction todo with
  | nil => exact .single id
  | cons part todo ih => exact heeds_explore hA h.1 (ih h.2)

/-- Goes through what each of several threads owes. -/
def exploreEach (g : Gap) : List (List Part) → Walk
  | [] => .stop
  | todo :: more => .both (exploreAll g todo) (exploreEach g more)

theorem settles_exploreEach {N : Chart} (g : Gap) {todos : List (List Part)}
    (h : ∀ todo ∈ todos, chartedAll N todo) (B : Nat → Prop) (H : Account → Prop) :
    (exploreEach g todos).Settles N g B (fun A => ∀ todo ∈ todos, coveredAll g A todo) H := by
  induction todos with
  | nil => exact .stop fun _ _ => List.forall_mem_nil _
  | cons todo more ih =>
    obtain ⟨htodo, hmore⟩ := List.forall_mem_cons.1 h
    exact ((settles_exploreAll g htodo B H).both (ih hmore)).imp
      (fun A hA => List.forall_mem_cons.2 hA) fun _ _ h => h

end Regex

open Regex

/-- What the threads come to at a gap. -/
def Account.ofThreads (g : Gap) (todos : List (List Part)) : Account :=
  ⟨(exploreEach g todos 0).2, (exploreEach g todos 0).1.map Move.todo?⟩

theorem Account.includes_ofThreads (g : Gap) (todos : List (List Part)) :
    (ofThreads g todos).Includes (exploreEach g todos 0) :=
  ⟨fun _ hn => hn, fun _ hm => List.mem_map_of_mem hm⟩

theorem Account.settled_ofThreads {N : Chart} {g : Gap} {todos : List (List Part)}
    (h : ∀ todo ∈ todos, chartedAll N todo) (n : Nat)
    (hn : (ofThreads g todos).entered.testBit n = true) : Settled g (ofThreads g todos) (N n) :=
  (settles_exploreEach g h (fun _ => False) (fun _ => True)).settled 0 nofun _
    (includes_ofThreads g todos) trivial n hn (Nat.zero_testBit n)

theorem Account.covered_ofThreads {N : Chart} {g : Gap} {todos : List (List Part)}
    (h : ∀ todo ∈ todos, chartedAll N todo) :
    ∀ todo ∈ todos, coveredAll g (ofThreads g todos) todo :=
  (settles_exploreEach g h (fun _ => False) (fun _ => True)).goal 0 nofun _
    (includes_ofThreads g todos)

end Highlight
