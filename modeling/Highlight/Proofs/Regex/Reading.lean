import Highlight.Proofs.Regex.Vocabulary
import Highlight.Proofs.Text.Cursor

/-!
# What threads read

Without the marks of the first group, threads are what they owe. `reads?` gives the characters that the most preferred
match of threads reads, by recursion on the rest of the text. `stop_run` says that this is where a run ends.

Threads see the characters before them only through the assertions that they meet. A position where the assertions
of an expression hold alike is as good as another: the expression reads the same from both (`reads?_congr`).

* `run_append_of_some`: what threads match is not changed by threads that are less preferred.
* `run_invariant`: what each step of a thread keeps is kept by a whole run.
* `mark_run`: without the first group the mark of a match is the one that the threads had.
-/

namespace Highlight

/-! ## Runs -/

theorem run_eq_of_end (threads : List Thread) {c : Cursor} (h : c.next? = none) :
    run threads c =
      (Step.untilStop (Step.ofThreads c threads 0)).2.map (⟨c.offset, ·⟩) := by
  rw [run]
  dsimp only
  split
  · rfl
  · simp_all

@[simp] theorem run_nil (c : Cursor) : run [] c = none := by
  rw [run]
  dsimp only [Step.ofThreads, Step.untilStop]
  split <;> rfl

theorem run_eq_of_next {threads : List Thread} {c d : Cursor} {a : Char}
    (h : c.next? = some (a, d)) :
    run threads c =
      (run (Step.untilStop (Step.ofThreads c threads 0)).1 d).or
        ((Step.untilStop (Step.ofThreads c threads 0)).2.map (⟨c.offset, ·⟩)) := by
  rw [run]
  dsimp only
  split
  · simp_all
  · next b e he =>
    obtain ⟨rfl, rfl⟩ := Prod.mk.inj (Option.some.inj (h.symm.trans he))
    split
    · next hgoing =>
      rw [List.isEmpty_iff.1 hgoing, run_nil, Option.none_or]
    · rfl

/-! ## Threads without marks -/

/-- What threads that owe `todos` can do at a gap, the most preferred first: end, or read and owe what is left. -/
def ways (g : Gap) : List (List Part) → Places → List (Option (List Part))
  | [], _ => []
  | todo :: more, v =>
    (Regex.exploreAll g todo v).1.map Move.todo? ++ ways g more (Regex.exploreAll g todo v).2

/-- What the threads owe that are preferred to the first end. -/
def going : List (Option (List Part)) → List (List Part)
  | some todo :: more => todo :: going more
  | _ => []

@[simp] theorem going_nil : going [] = [] := rfl

@[simp] theorem going_some (todo : List Part) (more : List (Option (List Part))) :
    going (some todo :: more) = todo :: going more := rfl

@[simp] theorem going_none (more : List (Option (List Part))) : going (none :: more) = [] := rfl

/-- The characters that the most preferred match of the threads reads. -/
def reads? (todos : List (List Part)) (prev : Option Char) : List Char → Option (List Char)
  | [] => if (ways ⟨prev, none⟩ todos 0).any Option.isNone then some [] else none
  | a :: rest =>
    ((reads? (going (ways ⟨prev, some a⟩ todos 0)) (some a) rest).map (a :: ·)).or
      (if (ways ⟨prev, some a⟩ todos 0).any Option.isNone then some [] else none)

theorem reads?_end (todos : List (List Part)) (prev : Option Char) :
    reads? todos prev [] =
      if (ways ⟨prev, none⟩ todos 0).any Option.isNone then some [] else none := rfl

theorem reads?_cons (todos : List (List Part)) (prev : Option Char) (a : Char) (rest : List Char) :
    reads? todos prev (a :: rest) =
      ((reads? (going (ways ⟨prev, some a⟩ todos 0)) (some a) rest).map (a :: ·)).or
        (if (ways ⟨prev, some a⟩ todos 0).any Option.isNone then some [] else none) := rfl

@[simp] theorem reads?_nil (prev : Option Char) (rest : List Char) : reads? [] prev rest = none := by
  induction rest generalizing prev with
  | nil => rfl
  | cons a rest ih => rw [reads?, ways, going_nil, ih]; rfl

theorem any_isNone {xs : List (Option (List Part))} : xs.any Option.isNone = true ↔ none ∈ xs := by
  rw [List.any_eq_true]
  constructor
  · rintro ⟨x, hx, hnone⟩
    rwa [Option.isNone_iff_eq_none.1 hnone] at hx
  · intro hmem
    exact ⟨none, hmem, rfl⟩

theorem reads?_end_eq_some {todos : List (List Part)} {prev : Option Char} {cs : List Char} :
    reads? todos prev [] = some cs ↔ none ∈ ways ⟨prev, none⟩ todos 0 ∧ cs = [] := by
  rw [reads?, ← any_isNone]
  split
  · next hany => exact ⟨fun h => ⟨hany, (Option.some.inj h).symm⟩, fun h => congrArg some h.2.symm⟩
  · next hany => exact ⟨nofun, fun h => absurd h.1 hany⟩

theorem reads?_cons_eq_some {todos : List (List Part)} {prev : Option Char} {a : Char}
    {rest cs : List Char} (h : reads? todos prev (a :: rest) = some cs) :
    (∃ ds, reads? (going (ways ⟨prev, some a⟩ todos 0)) (some a) rest = some ds ∧ cs = a :: ds) ∨
      (none ∈ ways ⟨prev, some a⟩ todos 0 ∧ cs = []) := by
  rw [reads?] at h
  rcases Option.or_eq_some_iff.1 h with h | ⟨-, h⟩
  · obtain ⟨ds, hds, rfl⟩ := Option.map_eq_some_iff.1 h
    exact Or.inl ⟨ds, hds, rfl⟩
  · split at h
    · next hany =>
      cases h
      exact Or.inr ⟨any_isNone.1 hany, rfl⟩
    · cases h

theorem exists_append_of_reads? {todos : List (List Part)} {prev : Option Char} {rest cs : List Char}
    (h : reads? todos prev rest = some cs) : ∃ more, rest = cs ++ more := by
  induction rest generalizing todos prev cs with
  | nil => exact ⟨[], by rw [(reads?_end_eq_some.1 h).2]; rfl⟩
  | cons a rest ih =>
    rcases reads?_cons_eq_some h with ⟨ds, hds, rfl⟩ | ⟨-, rfl⟩
    · obtain ⟨more, rfl⟩ := ih hds
      exact ⟨more, rfl⟩
    · exact ⟨a :: rest, rfl⟩

namespace Step

/-- What is left to be done, if the step goes on. -/
def todo? : Step → Option (List Part)
  | stop _ => none
  | go t => some t.todo

theorem map_todo?_ofThreads (c : Cursor) (threads : List Thread) (v : Places) :
    (ofThreads c threads v).map todo? = ways c.gap (threads.map Thread.todo) v := by
  induction threads generalizing v with
  | nil => rfl
  | cons t ts ih =>
    rw [ofThreads, List.map_append, ih, List.map_cons, ways, List.map_map]
    congr 1
    apply List.map_congr_left
    intro m _
    cases m <;> rfl

theorem todo_untilStop (steps : List Step) :
    (untilStop steps).1.map Thread.todo = going (steps.map todo?) := by
  induction steps with
  | nil => rfl
  | cons s more ih =>
    cases s with
    | stop mark => rfl
    | go t => rw [untilStop, List.map_cons, ih]; rfl

theorem isSome_untilStop (steps : List Step) :
    (untilStop steps).2.isSome = (steps.map todo?).any Option.isNone := by
  induction steps with
  | nil => rfl
  | cons s more ih =>
    cases s with
    | stop mark => rfl
    | go t => rw [untilStop, ih]; rfl

theorem map_stop_untilStop (steps : List Step) (offset : Nat) :
    ((untilStop steps).2.map fun mark => Hit.stop ⟨offset, mark⟩) =
      (if (steps.map todo?).any Option.isNone then some [] else none).map
        fun cs => offset + byteLength cs := by
  rw [← isSome_untilStop]
  cases (untilStop steps).2 <;> rfl

end Step

/-- **A run ends behind what its threads read.** -/
theorem stop_run (threads : List Thread) (c : Cursor) :
    (run threads c).map Hit.stop =
      (reads? (threads.map Thread.todo) c.before.head? c.rest).map (c.offset + byteLength ·) := by
  -- on the rest of the text, over which the threads are carried
  induction hrest : c.rest generalizing threads c with
  | nil =>
    have hgap : c.gap = ⟨c.before.head?, none⟩ := by rw [Cursor.gap, hrest]; rfl
    rw [run_eq_of_end threads (Cursor.next?_eq_none.2 hrest), reads?, ← hgap,
      ← Step.map_todo?_ofThreads, Option.map_map]
    exact Step.map_stop_untilStop _ c.offset
  | cons a rest ih =>
    obtain ⟨d, hnext, rfl⟩ := Cursor.exists_next? hrest
    have hgap : c.gap = ⟨c.before.head?, some a⟩ := by rw [Cursor.gap, hrest]; rfl
    have hprev : d.before.head? = some a := by rw [(Cursor.next?_eq_some.1 hnext).2]; rfl
    rw [run_eq_of_next hnext, Option.map_or, ih _ d rfl, reads?, Option.map_or, ← hgap,
      ← Step.map_todo?_ofThreads, Step.todo_untilStop, hprev, Option.map_map, Option.map_map]
    congr 1
    · congr 1
      funext cs
      rw [Function.comp_apply, Cursor.offset_next? hnext, byteLength_cons, Nat.add_assoc]
    · exact Step.map_stop_untilStop _ c.offset

/-! ## What threads see of the text before them -/

section

variable {V : Vocabulary} {todos : List (List Part)}

theorem ways_congr {g g' : Gap} (h : V.Confuses g g') (htodos : ∀ todo ∈ todos, V.Spells todo)
    (v : Places) : ways g todos v = ways g' todos v := by
  induction todos generalizing v with
  | nil => rfl
  | cons todo more ih =>
    obtain ⟨htodo, hmore⟩ := List.forall_mem_cons.1 htodos
    rw [ways, ways, Regex.exploreAll_congr h htodo, ih hmore]

/-- Behind one character or another threads read the same, if what they assert is the same. -/
theorem reads?_congr {prev prev' : Option Char} {rest : List Char}
    (h : V.Confuses ⟨prev, rest.head?⟩ ⟨prev', rest.head?⟩)
    (htodos : ∀ todo ∈ todos, V.Spells todo) : reads? todos prev rest = reads? todos prev' rest := by
  cases rest with
  | nil =>
    rw [List.head?_nil] at h
    rw [reads?, reads?, ways_congr h htodos]
  | cons a rest =>
    rw [List.head?_cons] at h
    rw [reads?, reads?, ways_congr h htodos]

/-- **What is read keeps to the vocabulary**, and so does what remains. -/
theorem spells_of_mem_ways {g : Gap} (htodos : ∀ todo ∈ todos, V.Spells todo) {v : Places}
    {left : List Part} (hleft : some left ∈ ways g todos v) :
    V.Spells left ∧ ∃ S, V.sets S = true ∧ g.next.any S.mem = true := by
  induction todos generalizing v with
  | nil => cases hleft
  | cons todo more ih =>
    obtain ⟨htodo, hmore⟩ := List.forall_mem_cons.1 htodos
    rcases List.mem_append.1 hleft with hleft | hleft
    · obtain ⟨m, hm, hmleft⟩ := List.mem_map.1 hleft
      have hmove := Regex.isOver_exploreAll g htodo v m hm
      exact ⟨hmove.todo left hmleft, hmove.reads left hmleft⟩
    · exact ih hmore hleft

theorem mem_of_mem_going {xs : List (Option (List Part))} {todo : List Part} (h : todo ∈ going xs) :
    some todo ∈ xs := by
  induction xs with
  | nil => cases h
  | cons x xs ih =>
    cases x with
    | none => cases h
    | some left =>
      rcases List.mem_cons.1 h with rfl | h
      · exact List.mem_cons_self
      · exact List.mem_cons_of_mem _ (ih h)

theorem spells_going {g : Gap} (htodos : ∀ todo ∈ todos, V.Spells todo) (v : Places) :
    ∀ todo ∈ going (ways g todos v), V.Spells todo :=
  fun _ htodo => (spells_of_mem_ways htodos (mem_of_mem_going htodo)).1

/-- **What is read is in the sets of the vocabulary.** -/
theorem mem_of_reads? (htodos : ∀ todo ∈ todos, V.Spells todo) {prev : Option Char}
    {rest cs : List Char} (h : reads? todos prev rest = some cs) :
    ∀ a ∈ cs, ∃ S, V.sets S = true ∧ S.mem a = true := by
  induction rest generalizing todos prev cs with
  | nil =>
    rw [(reads?_end_eq_some.1 h).2]
    exact List.forall_mem_nil _
  | cons a rest ih =>
    rcases reads?_cons_eq_some h with ⟨ds, hds, rfl⟩ | ⟨-, rfl⟩
    · refine List.forall_mem_cons.2 ⟨?_, ih (spells_going htodos 0) hds⟩
      -- some thread goes on, as none reads nothing
      cases hgoing : going (ways ⟨prev, some a⟩ todos 0) with
      | nil =>
        rw [hgoing, reads?_nil] at hds
        cases hds
      | cons todo more =>
        exact (spells_of_mem_ways htodos (mem_of_mem_going (hgoing ▸ List.mem_cons_self))).2
    · exact List.forall_mem_nil _

end

/-- All sets without the character. -/
def Vocabulary.avoiding (a : Char) : Vocabulary where
  sets := fun S => !S.mem a

theorem not_mem_of_reads? {r : Regex} {a : Char} (hr : r.isOver (.avoiding a) = true) {place : Nat}
    {prev : Option Char} {rest cs : List Char} (h : reads? [[⟨r, place⟩]] prev rest = some cs) :
    a ∉ cs := by
  intro hmem
  obtain ⟨S, hS, ha⟩ := mem_of_reads? (Vocabulary.spells_singleton hr place) h a hmem
  simp [Vocabulary.avoiding, ha] at hS

/-! ## Where an expression begins -/

/-- All that asks of the character before a position at most whether it is a word character. -/
def Vocabulary.unanchored : Vocabulary where
  looks
    | .textStart | .lineStart => false
    | .textEnd | .lineEnd => true
    | .wordBoundary word | .notWordBoundary word => word = .word

theorem Vocabulary.confuses_of_isWord {prev prev' : Option Char}
    (h : prev.any isWord = prev'.any isWord) (next : Option Char) :
    Vocabulary.unanchored.Confuses ⟨prev, next⟩ ⟨prev', next⟩ where
  sets := fun _ _ => rfl
  looks := by
    intro a ha
    cases a with
    | textStart | lineStart => cases ha
    | textEnd | lineEnd => rfl
    | wordBoundary word | notWordBoundary word =>
      obtain rfl : word = .word := of_decide_eq_true ha
      simp only [Assertion.holds, Gap.atWordBoundary_word, h]

section

variable {r : Regex}

theorem confuses_none_or_word (prev next : Option Char) :
    Vocabulary.unanchored.Confuses ⟨prev, next⟩ ⟨none, next⟩ ∨
      Vocabulary.unanchored.Confuses ⟨prev, next⟩ ⟨some 'a', next⟩ := by
  cases hprev : prev.any isWord with
  | false => exact Or.inl (Vocabulary.confuses_of_isWord hprev next)
  | true => exact Or.inr (Vocabulary.confuses_of_isWord (hprev.trans (by decide)) next)

/-- Behind no character or behind a word the expression can do nothing before `a`. -/
def Regex.isStuckAt (r : Regex) (a : Char) : Bool :=
  (ways ⟨none, some a⟩ [[⟨r, 0⟩]] 0).isEmpty && (ways ⟨some 'a', some a⟩ [[⟨r, 0⟩]] 0).isEmpty

/-- **Where an expression is stuck it reads nothing**, whatever stands before. -/
theorem reads?_of_isStuckAt (hr : r.isOver .unanchored = true) {a : Char} (h : r.isStuckAt a = true)
    (prev : Option Char) (rest : List Char) : reads? [[⟨r, 0⟩]] prev (a :: rest) = none := by
  obtain ⟨hnone, hword⟩ := (Bool.and_eq_true _ _).mp h
  have hways : ways ⟨prev, some a⟩ [[⟨r, 0⟩]] 0 = [] := by
    rcases confuses_none_or_word prev (some a) with hlike | hlike
    · rw [ways_congr hlike (Vocabulary.spells_singleton hr 0), List.isEmpty_iff.1 hnone]
    · rw [ways_congr hlike (Vocabulary.spells_singleton hr 0), List.isEmpty_iff.1 hword]
  rw [reads?_cons, hways]
  exact Option.or_none.trans (by rw [going_nil, reads?_nil]; rfl)

/-- Before `a` the expression can do the same behind no character and behind a word. -/
def Regex.isFreeAt (r : Regex) (a : Char) : Bool :=
  ways ⟨some 'a', some a⟩ [[⟨r, 0⟩]] 0 = ways ⟨none, some a⟩ [[⟨r, 0⟩]] 0

theorem reads?_of_isFreeAt (hr : r.isOver .unanchored = true) {a : Char} (h : r.isFreeAt a = true)
    (prev : Option Char) (rest : List Char) :
    reads? [[⟨r, 0⟩]] prev (a :: rest) = reads? [[⟨r, 0⟩]] none (a :: rest) := by
  rcases confuses_none_or_word prev (some a) with hlike | hlike
  · exact reads?_congr hlike (Vocabulary.spells_singleton hr 0)
  · rw [reads?_congr hlike (Vocabulary.spells_singleton hr 0), reads?_cons, of_decide_eq_true h, reads?_cons]

theorem reads?_of_not_isWord (hr : r.isOver .unanchored = true) {prev : Option Char}
    (hprev : prev.any isWord = false) (rest : List Char) :
    reads? [[⟨r, 0⟩]] prev rest = reads? [[⟨r, 0⟩]] none rest :=
  reads?_congr (Vocabulary.confuses_of_isWord hprev _) (Vocabulary.spells_singleton hr 0)

end

/-! ## A character and a greedy loop -/

theorem CharSet.mem_single {a h : Char} : (CharSet.single h).mem a = decide (a = h) := by
  simp only [CharSet.single, CharSet.mem]
  by_cases heq : a = h
  · subst heq
    simp
  · have hnot : ¬ (h ≤ a ∧ a ≤ h) := fun hle => heq (Char.le_antisymm hle.2 hle.1)
    simpa [heq] using hnot

theorem Regex.explore_cat_char (g : Gap) (h : Char) (r : Regex) (place : Nat) (todo : List Part)
    (k : Walk) :
    (cat (char h) r).explore g place todo k =
      .once place
        (if g.next = some h then .single (.read (⟨r, place + 1⟩ :: todo) false) else .stop) := by
  have hnext : g.next.any (CharSet.single h).mem = decide (g.next = some h) := by
    cases g.next with
    | none => rfl
    | some a => simp [CharSet.mem_single]
  simp only [explore, char, width, hnext, decide_eq_true_eq]

theorem ways_cat_char (g : Gap) (h : Char) (r : Regex) (place : Nat) :
    ways g [[⟨.cat (.char h) r, place⟩]] 0 =
      if g.next = some h then [some [⟨r, place + 1⟩]] else [] := by
  by_cases hnext : g.next = some h <;>
    simp [ways, Regex.exploreAll, Regex.explore_cat_char, Walk.once, Walk.single, Walk.stop, hnext]

theorem reads?_cat_char (h : Char) (r : Regex) (place : Nat) (prev : Option Char) (rest : List Char) :
    reads? [[⟨.cat (.char h) r, place⟩]] prev (h :: rest) =
      (reads? [[⟨r, place + 1⟩]] (some h) rest).map (h :: ·) := by
  rw [reads?, ways_cat_char, if_pos rfl, going_some, going_nil]
  exact Option.or_none

theorem exists_of_reads?_cat_char {h : Char} {r : Regex} {place : Nat} {prev : Option Char}
    {rest cs : List Char} (hcs : reads? [[⟨.cat (.char h) r, place⟩]] prev rest = some cs) :
    ∃ more ds, rest = h :: more ∧ cs = h :: ds ∧ reads? [[⟨r, place + 1⟩]] (some h) more = some ds := by
  cases rest with
  | nil =>
    rw [reads?, ways_cat_char, if_neg nofun] at hcs
    cases hcs
  | cons a more =>
    by_cases ha : a = h
    · subst ha
      rw [reads?_cat_char] at hcs
      obtain ⟨ds, hds, rfl⟩ := Option.map_eq_some_iff.1 hcs
      exact ⟨more, ds, rfl, rfl, hds⟩
    · have hnext : ¬ (⟨prev, some a⟩ : Gap).next = some h := fun heq => ha (Option.some.inj heq)
      rw [reads?, ways_cat_char, if_neg hnext, going_nil, reads?_nil] at hcs
      cases hcs

/-- A greedy loop over a set reads one more character of the set if it can, and else it ends. -/
theorem ways_star_set (g : Gap) (S : CharSet) (place : Nat) :
    ways g [[⟨.star (.set S) true, place⟩]] 0 =
      (if g.next.any S.mem then [some [⟨.star (.set S) true, place⟩]] else []) ++ [none] := by
  -- the place of the set, one behind that of the loop, has not been entered
  have hfresh : Nat.testBit 1 1 = false := by decide
  cases hnext : g.next.any S.mem <;>
    simp [ways, Regex.exploreAll, Regex.explore, Walk.once, Walk.prefer, Walk.both, Walk.single,
      Walk.stop, hfresh, hnext]

/-- **A greedy loop over a set reads as long as the characters are in the set.** -/
theorem reads?_star_set (S : CharSet) (place : Nat) (prev : Option Char) (rest : List Char) :
    reads? [[⟨.star (.set S) true, place⟩]] prev rest = some (rest.takeWhile S.mem) := by
  induction rest generalizing prev with
  | nil => rw [reads?, ways_star_set]; rfl
  | cons a rest ih =>
    rw [reads?, ways_star_set, List.takeWhile_cons, Option.any_some]
    cases S.mem a with
    | true => simp [ih]
    | false => simp

/-! ## What is less preferred -/

namespace Step

theorem ofThreads_cons (c : Cursor) (t : Thread) (ts : List Thread) (v : Places) :
    ofThreads c (t :: ts) v = (Regex.exploreAll c.gap t.todo v).1.map (t.step c.offset) ++
      ofThreads c ts (Regex.exploreAll c.gap t.todo v).2 := rfl

theorem ofThreads_append (c : Cursor) (ts us : List Thread) (v : Places) :
    ∃ w, ofThreads c (ts ++ us) v = ofThreads c ts v ++ ofThreads c us w := by
  induction ts generalizing v with
  | nil => exact ⟨v, rfl⟩
  | cons t ts ih =>
    obtain ⟨w, hw⟩ := ih (Regex.exploreAll c.gap t.todo v).2
    refine ⟨w, ?_⟩
    rw [List.cons_append, ofThreads_cons, hw, ofThreads_cons, List.append_assoc]

theorem untilStop_append_of_some {steps : List Step} {mark : Option Nat}
    (h : (untilStop steps).2 = some mark) (more : List Step) :
    untilStop (steps ++ more) = untilStop steps := by
  induction steps with
  | nil => cases h
  | cons s steps ih =>
    cases s with
    | stop mark => rfl
    | go t => rw [List.cons_append, untilStop, ih h, untilStop]

theorem untilStop_append_of_none {steps : List Step} (h : (untilStop steps).2 = none)
    (more : List Step) :
    untilStop (steps ++ more) =
      ((untilStop steps).1 ++ (untilStop more).1, (untilStop more).2) := by
  induction steps with
  | nil => rfl
  | cons s steps ih =>
    cases s with
    | stop mark => cases h
    | go t => rw [List.cons_append, untilStop, ih h, untilStop, List.cons_append]

end Step

/-- **What threads match is not changed by threads that are less preferred.** -/
theorem run_append_of_some {ts : List Thread} {c : Cursor} {hit : Hit} (h : run ts c = some hit)
    (us : List Thread) : run (ts ++ us) c = some hit := by
  induction hrest : c.rest generalizing ts us c with
  | nil =>
    have hend := Cursor.next?_eq_none.2 hrest
    rw [run_eq_of_end _ hend] at h ⊢
    obtain ⟨w, hw⟩ := Step.ofThreads_append c ts us 0
    obtain ⟨mark, hmark, rfl⟩ := Option.map_eq_some_iff.1 h
    rw [hw, Step.untilStop_append_of_some hmark, hmark]
    rfl
  | cons a rest ih =>
    obtain ⟨d, hnext, rfl⟩ := Cursor.exists_next? hrest
    rw [run_eq_of_next hnext] at h ⊢
    obtain ⟨w, hw⟩ := Step.ofThreads_append c ts us 0
    cases hstop : (Step.untilStop (Step.ofThreads c ts 0)).2 with
    | some mark => rwa [hw, Step.untilStop_append_of_some hstop]
    | none =>
      rw [hstop, Option.map_none, Option.or_none] at h
      rw [hw, Step.untilStop_append_of_none hstop, ih h _ rfl, Option.some_or]

/-! ## What a run keeps -/

/-- The thread can make the step at the position, after some way through the places. -/
def Thread.CanStep (t : Thread) (c : Cursor) (s : Step) : Prop :=
  ∃ v, ∃ m ∈ (Regex.exploreAll c.gap t.todo v).1, s = t.step c.offset m

namespace Step

theorem exists_canStep {c : Cursor} {ts : List Thread} {v : Places} {s : Step}
    (hs : s ∈ ofThreads c ts v) : ∃ t ∈ ts, t.CanStep c s := by
  induction ts generalizing v with
  | nil => cases hs
  | cons t ts ih =>
    rw [ofThreads_cons] at hs
    rcases List.mem_append.1 hs with hs | hs
    · obtain ⟨m, hm, rfl⟩ := List.mem_map.1 hs
      exact ⟨t, List.mem_cons_self, v, m, hm, rfl⟩
    · obtain ⟨u, hu, hstep⟩ := ih hs
      exact ⟨u, List.mem_cons_of_mem t hu, hstep⟩

theorem mem_of_untilStop (steps : List Step) :
    (∀ t ∈ (untilStop steps).1, go t ∈ steps) ∧ ∀ mark ∈ (untilStop steps).2, stop mark ∈ steps := by
  induction steps with
  | nil => exact ⟨List.forall_mem_nil _, nofun⟩
  | cons s steps ih =>
    obtain ⟨hgoing, hstop⟩ := ih
    cases s with
    | stop mark =>
      refine ⟨List.forall_mem_nil _, ?_⟩
      intro mark' hmark
      cases hmark
      exact List.mem_cons_self
    | go t =>
      refine ⟨List.forall_mem_cons.2 ⟨List.mem_cons_self, ?_⟩, ?_⟩
      · intro u hu
        exact List.mem_cons_of_mem _ (hgoing u hu)
      · intro mark hmark
        exact List.mem_cons_of_mem _ (hstop mark hmark)

end Step

/-- **What every step keeps holds of the match.** `P` holds of the threads at the start and is kept from one position
to the next, and where a thread with `P` ends, `Q` holds of its match. -/
theorem run_invariant {P : Cursor → Thread → Prop} {Q : Hit → Prop}
    (hstop : ∀ c t mark, P c t → t.CanStep c (.stop mark) → Q ⟨c.offset, mark⟩)
    (hgo : ∀ c d a t u, P c t → c.next? = some (a, d) → t.CanStep c (.go u) → P d u)
    {c : Cursor} {ts : List Thread} (hts : ∀ t ∈ ts, P c t) {hit : Hit} (h : run ts c = some hit) : Q hit := by
  have hends : ∀ {c ts mark}, (∀ t ∈ ts, P c t) →
      (Step.untilStop (Step.ofThreads c ts 0)).2 = some mark → Q ⟨c.offset, mark⟩ := by
    intro c ts mark hts hmark
    obtain ⟨t, ht, hstep⟩ := Step.exists_canStep ((Step.mem_of_untilStop _).2 mark hmark)
    exact hstop c t mark (hts t ht) hstep
  induction hrest : c.rest generalizing ts c with
  | nil =>
    rw [run_eq_of_end _ (Cursor.next?_eq_none.2 hrest)] at h
    obtain ⟨mark, hmark, rfl⟩ := Option.map_eq_some_iff.1 h
    exact hends hts hmark
  | cons a rest ih =>
    obtain ⟨d, hnext, rfl⟩ := Cursor.exists_next? hrest
    rw [run_eq_of_next hnext] at h
    rcases Option.or_eq_some_iff.1 h with h | ⟨-, h⟩
    · refine ih ?_ h rfl
      intro u hu
      obtain ⟨t, ht, hstep⟩ := Step.exists_canStep ((Step.mem_of_untilStop _).1 u hu)
      exact hgo c d a t u (hts t ht) hnext hstep
    · obtain ⟨mark, hmark, rfl⟩ := Option.map_eq_some_iff.1 h
      exact hends hts hmark

/-! ## Marks -/

/-- All but the first capture group. -/
def Vocabulary.unmarked : Vocabulary where
  groups := fun index => index ≠ 1

/-- The thread does not meet the first group, and its mark is the given one. -/
def Thread.Carries (mark : Option Nat) (t : Thread) : Prop :=
  t.mark = mark ∧ Vocabulary.unmarked.Spells t.todo

/-- The step hands the mark on. -/
def Step.Carries (mark : Option Nat) : Step → Prop
  | stop m => m = mark
  | go t => t.Carries mark

theorem Thread.Carries.step {mark : Option Nat} {t : Thread} (ht : t.Carries mark) {c : Cursor} {s : Step}
    (hs : t.CanStep c s) : s.Carries mark := by
  obtain ⟨v, m, hm, rfl⟩ := hs
  have hover : m.IsOver .unmarked c.gap.next := Regex.isOver_exploreAll c.gap ht.2 v m hm
  have hcloses : m.closes = false := hover.closes rfl
  cases m with
  | exit closes =>
    obtain rfl : closes = false := hcloses
    exact ht.1
  | read todo closes =>
    obtain rfl : closes = false := hcloses
    exact ⟨ht.1, hover.todo todo rfl⟩

/-- **Without the first group the mark of a match is the one that the threads had.** -/
theorem mark_run {mark : Option Nat} {ts : List Thread} (hts : ∀ t ∈ ts, t.Carries mark)
    {c : Cursor} {hit : Hit} (h : run ts c = some hit) : hit.mark = mark :=
  run_invariant (P := fun _ t => t.Carries mark) (Q := fun hit => hit.mark = mark)
    (fun _ _ _ ht hs => ht.step hs) (fun _ _ _ _ _ ht _ hs => ht.step hs) hts h

end Highlight
