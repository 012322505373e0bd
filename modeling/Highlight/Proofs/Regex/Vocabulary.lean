import Highlight.Regex.Match

/-!
# What an expression is made of

A `Vocabulary` tells the sets, the assertions and the groups that an expression may be made of. What a thread
owes is made of parts of its expression, so a vocabulary lasts for a whole run.

A walk through an expression is put together from few steps, whatever the expression. A relation between two
walks that these steps keep is `Walk.Parallel`, and such a relation holds between the walks through an
expression at two gaps (`Walk.Parallel.explore`). What is said of all expressions of a vocabulary is an
instance:

* `Regex.isOver_exploreAll`: a move reads a character of one of the sets and leaves parts that are made of the same.
* `Regex.exploreAll_congr`: what the sets and the assertions cannot tell apart the expression cannot.
-/

namespace Highlight

namespace Move

/-- What is left to be done behind the next character, if the move goes on. -/
def todo? : Move → Option (List Part)
  | exit _ => none
  | read todo _ => some todo

/-- The first capture group ends where the move is made. -/
def closes : Move → Bool
  | exit closes => closes
  | read _ closes => closes

@[simp] theorem todo?_exit (closes : Bool) : (exit closes).todo? = none := rfl

@[simp] theorem todo?_read (todo : List Part) (closes : Bool) :
    (read todo closes).todo? = some todo := rfl

@[simp] theorem todo?_after (closed : Bool) (m : Move) : (m.after closed).todo? = m.todo? := by
  cases m <;> rfl

@[simp] theorem closes_after (closed : Bool) (m : Move) :
    (m.after closed).closes = (closed || m.closes) := by
  cases m <;> rfl

end Move

theorem testBit_enter (v : Places) (place n : Nat) :
    (v ||| 1 <<< place).testBit n = (v.testBit n || decide (place = n)) := by
  rw [Nat.testBit_or, Nat.one_shiftLeft, Nat.testBit_two_pow]

/-- The same part, `n` places farther on. -/
def Part.shift (n : Nat) (part : Part) : Part :=
  ⟨part.regex, part.place + n⟩

theorem Part.map_shift_zero (todo : List Part) : todo.map (Part.shift 0) = todo :=
  List.map_id _

/-- What an expression may be made of: the sets that it reads, the assertions that it meets, and its groups. -/
structure Vocabulary where
  sets : CharSet → Bool := fun _ => true
  looks : Assertion → Bool := fun _ => true
  groups : Nat → Bool := fun _ => true

namespace Regex

/-- The expression is made of what the vocabulary has. What is passed no times at all does not count. -/
def isOver (V : Vocabulary) : Regex → Bool
  | empty => true
  | set S => V.sets S
  | look a => V.looks a
  | cat r s => r.isOver V && s.isOver V
  | alt r s => r.isOver V && s.isOver V
  | star r _ => r.isOver V
  | plus r _ => r.isOver V
  | times r n => n == 0 || r.isOver V
  | upTo r n _ => n == 0 || r.isOver V
  | group index r => V.groups index && r.isOver V

/-- Induction on an expression in which counted passes are written out, one after another. -/
@[elab_as_elim]
theorem unrolled {motive : Regex → Prop} (empty : motive .empty)
    (set : ∀ S, motive (.set S)) (look : ∀ a, motive (.look a))
    (cat : ∀ r s, motive r → motive s → motive (.cat r s))
    (alt : ∀ r s, motive r → motive s → motive (.alt r s))
    (star : ∀ r greedy, motive r → motive (.star r greedy))
    (plus : ∀ r greedy, motive r → motive (.plus r greedy))
    (timesZero : ∀ r, motive (.times r 0))
    (timesSucc : ∀ r n, motive r → motive (.times r n) → motive (.times r (n + 1)))
    (upToZero : ∀ r greedy, motive (.upTo r 0 greedy))
    (upToSucc : ∀ r n greedy, motive r → motive (.upTo r n greedy) →
      motive (.upTo r (n + 1) greedy))
    (group : ∀ index r, motive r → motive (.group index r)) (r : Regex) : motive r := by
  induction r with
  | empty => exact empty
  | set S => exact set S
  | look a => exact look a
  | cat r s ihr ihs => exact cat r s ihr ihs
  | alt r s ihr ihs => exact alt r s ihr ihs
  | star r greedy ih => exact star r greedy ih
  | plus r greedy ih => exact plus r greedy ih
  | times r n ih =>
    induction n with
    | zero => exact timesZero r
    | succ n ihn => exact timesSucc r n ih ihn
  | upTo r n greedy ih =>
    induction n with
    | zero => exact upToZero r greedy
    | succ n ihn => exact upToSucc r n greedy ih ihn
  | group index r ih => exact group index r ih

/-! The passages through the expressions that have parts, and through one more counted pass. -/

section

variable (g : Gap) (r s : Regex) (n : Nat) (greedy : Bool) (place : Nat) (todo : List Part) (k : Walk)

theorem explore_cat : (cat r s).explore g place todo k =
    r.explore g place (⟨s, place + r.width⟩ :: todo) (s.explore g (place + r.width) todo k) := rfl

theorem explore_alt : (alt r s).explore g place todo k =
    .once place (.both (r.explore g (place + 1) todo k)
      (s.explore g (place + 1 + r.width) todo k)) := rfl

theorem explore_star : (star r greedy).explore g place todo k =
    .once place (.prefer greedy
      (r.explore g (place + 1) (⟨star r greedy, place⟩ :: todo) .stop) k) := rfl

theorem explore_plus : (plus r greedy).explore g place todo k =
    r.explore g (place + 1) (⟨star r greedy, place⟩ :: todo) (.once place k) := rfl

theorem explore_times_succ : (times r (n + 1)).explore g place todo k =
    r.explore g place (⟨times r n, place + r.width⟩ :: todo)
      ((times r n).explore g (place + r.width) todo k) := rfl

theorem explore_upTo_succ : (upTo r (n + 1) greedy).explore g place todo k =
    .once place (.prefer greedy
      (r.explore g (place + 1) (⟨upTo r n greedy, place + 1 + r.width⟩ :: todo)
        ((upTo r n greedy).explore g (place + 1 + r.width) todo k)) k) := rfl

end

theorem isOver_of_times_succ {V : Vocabulary} {r : Regex} {n : Nat}
    (h : (times r (n + 1)).isOver V = true) :
    r.isOver V = true ∧ (times r n).isOver V = true := by
  have hr : r.isOver V = true := h
  simp [isOver, hr]

theorem isOver_of_upTo_succ {V : Vocabulary} {r : Regex} {n : Nat} {greedy : Bool}
    (h : (upTo r (n + 1) greedy).isOver V = true) :
    r.isOver V = true ∧ (upTo r n greedy).isOver V = true := by
  have hr : r.isOver V = true := h
  simp [isOver, hr]

end Regex

/-- What is owed is made of what the vocabulary has. -/
def Vocabulary.Spells (V : Vocabulary) (todo : List Part) : Prop :=
  ∀ part ∈ todo, part.regex.isOver V = true

theorem Vocabulary.Spells.cons {V : Vocabulary} {r : Regex} {todo : List Part} (hr : r.isOver V = true)
    (h : V.Spells todo) (place : Nat) : V.Spells (⟨r, place⟩ :: todo) :=
  List.forall_mem_cons.2 ⟨hr, h⟩

theorem Vocabulary.spells_singleton {V : Vocabulary} {r : Regex} (hr : r.isOver V = true) (place : Nat) :
    ∀ todo ∈ [[(⟨r, place⟩ : Part)]], V.Spells todo :=
  List.forall_mem_singleton.2 (.cons hr (List.forall_mem_nil _) place)

/-! ## Walks side by side -/

namespace Walk

/-- Reads the next character if it is in the set. -/
def reading (g : Gap) (S : CharSet) (todo : List Part) : Walk :=
  if g.next.any S.mem then single (.read todo false) else stop

/-- A relation between the walks at two gaps, those at the second `n` places farther on, that the steps of a walk
through an expression of the vocabulary keep. -/
structure Parallel (V : Vocabulary) (n : Nat) (g g' : Gap) (R : Walk → Walk → Prop) : Prop where
  stop : R stop stop
  exit : R (single (.exit false)) (single (.exit false))
  reading : ∀ {S todo}, V.sets S = true → V.Spells todo →
    R (reading g S todo) (reading g' S (todo.map (Part.shift n)))
  both : ∀ {w w' x x'}, R w w' → R x x' → R (both w x) (both w' x')
  once : ∀ {w w'} (place : Nat), R w w' → R (once place w) (once (place + n) w')
  after : ∀ {w w' index}, V.groups index = true → R w w' →
    R (after (index == 1) w) (after (index == 1) w')
  holds : ∀ {a}, V.looks a = true → a.holds g = a.holds g'

namespace Parallel

variable {V : Vocabulary} {n : Nat} {g g' : Gap} {R : Walk → Walk → Prop} {w w' x x' : Walk}

theorem prefer (h : Parallel V n g g' R) (hw : R w w') (hx : R x x') (first : Bool) :
    R (Walk.prefer first w x) (Walk.prefer first w' x') := by
  cases first
  · exact h.both hx hw
  · exact h.both hw hx

/-- **What the steps of a walk keep holds of the walks through an expression.** -/
theorem explore (h : Parallel V n g g' R) {r : Regex} (hr : r.isOver V = true) (place : Nat)
    {todo : List Part} (htodo : V.Spells todo) {k k' : Walk} (hk : R k k') :
    R (r.explore g place todo k) (r.explore g' (place + n) (todo.map (Part.shift n)) k') := by
  induction r using Regex.unrolled generalizing place todo k k' with
  | empty => exact hk
  | set S => exact h.once place (h.reading hr htodo)
  | look a =>
    rw [Regex.explore, Regex.explore, h.holds hr]
    split
    · exact hk
    · exact h.stop
  | cat r s ihr ihs =>
    obtain ⟨hr, hs⟩ := (Bool.and_eq_true _ _).mp hr
    rw [Regex.explore_cat, Regex.explore_cat, Nat.add_right_comm place n]
    exact ihr hr place (htodo.cons hs _) (ihs hs _ htodo hk)
  | alt r s ihr ihs =>
    obtain ⟨hr, hs⟩ := (Bool.and_eq_true _ _).mp hr
    rw [Regex.explore_alt, Regex.explore_alt, Nat.add_right_comm place n,
      Nat.add_right_comm (place + 1) n]
    exact h.once place (h.both (ihr hr _ htodo hk) (ihs hs _ htodo hk))
  | star r greedy ih =>
    rw [Regex.explore_star, Regex.explore_star, Nat.add_right_comm place n]
    exact h.once place (h.prefer (ih hr _ (htodo.cons hr _) h.stop) hk greedy)
  | plus r greedy ih =>
    have hstar : (Regex.star r greedy).isOver V = true := hr
    rw [Regex.explore_plus, Regex.explore_plus, Nat.add_right_comm place n]
    exact ih hr _ (htodo.cons hstar _) (h.once place hk)
  | timesZero r => exact hk
  | timesSucc r m ihr ihm =>
    obtain ⟨hr, hm⟩ := Regex.isOver_of_times_succ hr
    rw [Regex.explore_times_succ, Regex.explore_times_succ, Nat.add_right_comm place n]
    exact ihr hr place (htodo.cons hm _) (ihm hm _ htodo hk)
  | upToZero r greedy => exact hk
  | upToSucc r m greedy ihr ihm =>
    obtain ⟨hr, hm⟩ := Regex.isOver_of_upTo_succ hr
    rw [Regex.explore_upTo_succ, Regex.explore_upTo_succ, Nat.add_right_comm place n,
      Nat.add_right_comm (place + 1) n]
    exact h.once place (h.prefer (ihr hr _ (htodo.cons hm _) (ihm hm _ htodo hk)) hk greedy)
  | group index r ih =>
    obtain ⟨hindex, hr⟩ := (Bool.and_eq_true _ _).mp hr
    have hclosing : (Regex.group index .empty).isOver V = true := by simp [Regex.isOver, hindex]
    exact ih hr place (htodo.cons hclosing _) (h.after hindex hk)

theorem exploreAll (h : Parallel V n g g' R) {todo : List Part} (htodo : V.Spells todo) :
    R (Regex.exploreAll g todo) (Regex.exploreAll g' (todo.map (Part.shift n))) := by
  induction todo with
  | nil => exact h.exit
  | cons part todo ih =>
    obtain ⟨hpart, htodo⟩ := List.forall_mem_cons.1 htodo
    exact h.explore hpart part.place htodo (ih htodo)

end Parallel

/-! ## All moves of a walk -/

/-- All moves that the walk comes to have the property. -/
def All (P : Move → Prop) (w : Walk) : Prop :=
  ∀ v, ∀ m ∈ (w v).1, P m

namespace All

variable {P : Move → Prop} {w x : Walk}

theorem stop : All P stop := by
  intro v m hm
  cases hm

theorem single {m : Move} (h : P m) : All P (single m) := by
  intro v n hn
  rw [List.mem_singleton.1 hn]
  exact h

theorem both (hw : w.All P) (hx : x.All P) : All P (both w x) := by
  intro v m hm
  rcases List.mem_append.1 hm with hm | hm
  · exact hw v m hm
  · exact hx _ m hm

theorem prefer (hw : w.All P) (hx : x.All P) (first : Bool) : All P (Walk.prefer first w x) := by
  cases first
  · exact hx.both hw
  · exact hw.both hx

theorem once (hw : w.All P) (place : Nat) : All P (once place w) := by
  intro v m hm
  unfold Walk.once at hm
  split at hm
  · cases hm
  · exact hw _ m hm

theorem after {closed : Bool} (h : ∀ m, P m → P (m.after closed)) (hw : w.All P) :
    All P (after closed w) := by
  intro v m hm
  obtain ⟨n, hn, rfl⟩ := List.mem_map.1 hm
  exact h n (hw v n hn)

theorem imp {Q : Move → Prop} (h : ∀ m, P m → Q m) (hw : w.All P) : w.All Q :=
  fun v m hm => h m (hw v m hm)

end All

end Walk

/-- The move keeps to the vocabulary: it reads a character of one of its sets, and what it leaves is made of it. -/
structure Move.IsOver (V : Vocabulary) (next : Option Char) (m : Move) : Prop where
  closes : V.groups 1 = false → m.closes = false
  reads : ∀ todo, m.todo? = some todo → ∃ S, V.sets S = true ∧ next.any S.mem = true
  todo : ∀ todo, m.todo? = some todo → V.Spells todo

theorem Move.IsOver.after {V : Vocabulary} {next : Option Char} {m : Move} {closed : Bool}
    (hclosed : V.groups 1 = false → closed = false) (h : m.IsOver V next) :
    (m.after closed).IsOver V next where
  closes := fun hV => by rw [closes_after, hclosed hV, h.closes hV, Bool.or_false]
  reads := fun todo htodo => h.reads todo (by rwa [todo?_after] at htodo)
  todo := fun todo htodo => h.todo todo (by rwa [todo?_after] at htodo)

namespace Regex

theorem parallel_isOver (V : Vocabulary) (g : Gap) :
    Walk.Parallel V 0 g g fun w _ => w.All (Move.IsOver V g.next) where
  stop := .stop
  exit := .single ⟨fun _ => rfl, nofun, nofun⟩
  reading := by
    intro S todo hS htodo
    unfold Walk.reading
    split
    · next hnext =>
      refine .single ⟨fun _ => rfl, ?_, ?_⟩
      · rintro _ ⟨⟩
        exact ⟨S, hS, hnext⟩
      · rintro _ ⟨⟩
        exact htodo
    · exact .stop
  both := .both
  once := fun place hw => .once hw place
  after := by
    intro w _ index hindex hw
    refine .after (fun m hm => hm.after fun hV => ?_) hw
    rw [beq_eq_false_iff_ne]
    rintro rfl
    rw [hV] at hindex
    cases hindex
  holds := fun _ => rfl

/-- **A vocabulary lasts.** -/
theorem isOver_exploreAll {V : Vocabulary} (g : Gap) {todo : List Part} (h : V.Spells todo) :
    (exploreAll g todo).All (Move.IsOver V g.next) :=
  (parallel_isOver V g).exploreAll h

end Regex

/-- The sets and the assertions of the vocabulary are the same at both gaps. -/
structure Vocabulary.Confuses (V : Vocabulary) (g g' : Gap) : Prop where
  sets : ∀ S, V.sets S = true → g.next.any S.mem = g'.next.any S.mem
  looks : ∀ a, V.looks a = true → a.holds g = a.holds g'

namespace Regex

theorem parallel_eq {V : Vocabulary} {g g' : Gap} (h : V.Confuses g g') :
    Walk.Parallel V 0 g g' Eq where
  stop := rfl
  exit := rfl
  reading := by
    intro S todo hS _
    rw [Walk.reading, Walk.reading, Part.map_shift_zero, h.sets S hS]
  both := by
    rintro w _ x _ rfl rfl
    rfl
  once := by
    rintro w _ place rfl
    rfl
  after := by
    rintro w _ index - rfl
    rfl
  holds := h.looks _

/-- **A gap is seen through the sets and the assertions.** -/
theorem exploreAll_congr {V : Vocabulary} {g g' : Gap} (h : V.Confuses g g') {todo : List Part}
    (htodo : V.Spells todo) : exploreAll g todo = exploreAll g' todo := by
  have heq := (parallel_eq h).exploreAll htodo
  rwa [Part.map_shift_zero] at heq

end Regex

end Highlight
