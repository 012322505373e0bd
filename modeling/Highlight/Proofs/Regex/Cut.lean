import Highlight.Proofs.Regex.Reading

/-!
# Cutting a text off

Where a text is cut off threads cannot read on, but they can end as before, if they do not look at what follows.
So what was read up to the cut is still read (`reads?_cut`), and threads that read something of the shorter text
read something of the longer one (`isSome_reads?_append`). A newline is a cut for expressions that do not read
it, whatever they look at (`reads?_append_newline`).

The assertions of an expression with `Regex.looksFirst` are met at the place where it begins and nowhere else.
It is cut like one without assertions, but for a cut at that place (`reads?_cut_of_looksFirst`).
-/

namespace Highlight

/-- No assertions. -/
def Vocabulary.blind : Vocabulary where
  looks := fun _ => false

namespace Regex

theorem parallel_ends (g g' : Gap) : Walk.Parallel .blind 0 g g' fun w w' =>
    ∀ v, (none ∈ (w v).1.map Move.todo? ↔ none ∈ (w' v).1.map Move.todo?) ∧ (w v).2 = (w' v).2 where
  stop := fun _ => ⟨Iff.rfl, rfl⟩
  exit := fun _ => ⟨Iff.rfl, rfl⟩
  reading := by
    have hreading : ∀ (g : Gap) (S : CharSet) todo v,
        none ∉ (Walk.reading g S todo v).1.map Move.todo? ∧ (Walk.reading g S todo v).2 = v := by
      intro g S todo v
      unfold Walk.reading
      split <;> simp [Walk.single, Walk.stop]
    intro S todo _ _ v
    obtain ⟨hno, hplaces⟩ := hreading g S todo v
    obtain ⟨hno', hplaces'⟩ := hreading g' S (todo.map (Part.shift 0)) v
    exact ⟨iff_of_false hno hno', hplaces.trans hplaces'.symm⟩
  both := by
    intro w w' x x' hw hx v
    obtain ⟨hwend, hwv⟩ := hw v
    obtain ⟨hxend, hxv⟩ := hx (w v).2
    rw [hwv] at hxend hxv
    refine ⟨?_, ?_⟩
    · change none ∈ ((w v).1 ++ (x (w v).2).1).map _ ↔ none ∈ ((w' v).1 ++ (x' (w' v).2).1).map _
      rw [List.map_append, List.map_append, List.mem_append, List.mem_append, hwend, hwv, hxend]
    · change (x (w v).2).2 = (x' (w' v).2).2
      rw [hwv, hxv]
  once := by
    intro w w' place hw v
    rw [Nat.add_zero]
    unfold Walk.once
    split
    · exact ⟨Iff.rfl, rfl⟩
    · exact hw _
  after := by
    intro w w' index _ hw v
    have hsame : ∀ ms : List Move, (ms.map (Move.after (index == 1))).map Move.todo? = ms.map Move.todo? := by
      intro ms
      rw [List.map_map]
      congr 1
      funext m
      exact Move.todo?_after _ m
    refine ⟨?_, (hw v).2⟩
    change none ∈ ((w v).1.map _).map _ ↔ none ∈ ((w' v).1.map _).map _
    rw [hsame, hsame]
    exact (hw v).1
  holds := nofun

end Regex

theorem none_mem_ways {todos : List (List Part)} (htodos : ∀ todo ∈ todos, Vocabulary.blind.Spells todo)
    (g g' : Gap) (v : Places) : none ∈ ways g todos v ↔ none ∈ ways g' todos v := by
  induction todos generalizing v with
  | nil => exact Iff.rfl
  | cons todo more ih =>
    obtain ⟨htodo, hmore⟩ := List.forall_mem_cons.1 htodos
    have hends := (Regex.parallel_ends g g').exploreAll htodo v
    rw [Part.map_shift_zero] at hends
    rw [ways, ways, List.mem_append, List.mem_append, hends.1, hends.2, ih hmore]

/-- **What is read up to a cut is still read.** -/
theorem reads?_cut {todos : List (List Part)} (htodos : ∀ todo ∈ todos, Vocabulary.blind.Spells todo)
    {prev : Option Char} {cs more : List Char} (h : reads? todos prev (cs ++ more) = some cs) :
    reads? todos prev cs = some cs := by
  induction cs generalizing todos prev with
  | nil =>
    rw [reads?_end_eq_some]
    refine ⟨?_, rfl⟩
    cases more with
    | nil => exact (reads?_end_eq_some.1 h).1
    | cons a more =>
      rcases reads?_cons_eq_some h with ⟨ds, -, hds⟩ | ⟨hmem, -⟩
      · cases hds
      · exact (none_mem_ways htodos _ _ 0).1 hmem
  | cons a cs ih =>
    rcases reads?_cons_eq_some h with ⟨ds, hds, heq⟩ | ⟨-, heq⟩
    · obtain ⟨-, rfl⟩ := List.cons.inj heq
      rw [reads?_cons, ih (spells_going htodos 0) hds]
      rfl
    · cases heq

/-- **Threads that read something read something of a longer text.** -/
theorem isSome_reads?_append {todos : List (List Part)}
    (htodos : ∀ todo ∈ todos, Vocabulary.blind.Spells todo) {prev : Option Char} {cs : List Char}
    (more : List Char) (h : (reads? todos prev cs).isSome) :
    (reads? todos prev (cs ++ more)).isSome := by
  induction cs generalizing todos prev with
  | nil =>
    obtain ⟨ds, hds⟩ := Option.isSome_iff_exists.1 h
    have hmem := (reads?_end_eq_some.1 hds).1
    cases more with
    | nil => exact h
    | cons a more =>
      have hany := any_isNone.2 ((none_mem_ways htodos _ ⟨prev, some a⟩ 0).1 hmem)
      rw [List.nil_append, reads?_cons, if_pos hany, Option.isSome_or, Option.isSome_some, Bool.or_true]
  | cons a cs ih =>
    rw [reads?_cons, Option.isSome_or, Bool.or_eq_true, Option.isSome_map] at h
    rw [List.cons_append, reads?_cons, Option.isSome_or, Bool.or_eq_true, Option.isSome_map]
    exact h.imp_left (ih (spells_going htodos 0))

/-! ## Newlines -/

/-- Sets without the newline, and all assertions but the end of the text and edges of words that have newlines. -/
def Vocabulary.withinLine : Vocabulary where
  sets := fun S => !S.mem '\n'
  looks
    | .textEnd => false
    | .textStart | .lineStart | .lineEnd => true
    | .wordBoundary word | .notWordBoundary word => !word.mem '\n'

theorem Vocabulary.confuses_newline (prev : Option Char) :
    Vocabulary.withinLine.Confuses ⟨prev, some '\n'⟩ ⟨prev, none⟩ where
  sets := by
    intro S hS
    have hnot : S.mem '\n' = false := by simpa [withinLine] using hS
    simpa using hnot
  looks := by
    intro a ha
    cases a with
    | textStart | lineStart | lineEnd => rfl
    | textEnd => cases ha
    | wordBoundary word | notWordBoundary word =>
      have hword : word.mem '\n' = false := by simpa [withinLine] using ha
      simp [Assertion.holds, Gap.atWordBoundary, hword]

/-- **A newline ends what is read**, as the end of the text does. -/
theorem reads?_append_newline {todos : List (List Part)}
    (htodos : ∀ todo ∈ todos, Vocabulary.withinLine.Spells todo) (prev : Option Char)
    (cs more : List Char) : reads? todos prev (cs ++ '\n' :: more) = reads? todos prev cs := by
  induction cs generalizing todos prev with
  | nil =>
    have hstuck : going (ways ⟨prev, some '\n'⟩ todos 0) = [] := by
      rw [List.eq_nil_iff_forall_not_mem]
      intro todo htodo
      obtain ⟨-, S, hS, hmem⟩ := spells_of_mem_ways htodos (mem_of_mem_going htodo)
      rw [Option.any_some] at hmem
      simp [Vocabulary.withinLine, hmem] at hS
    rw [List.nil_append, reads?_cons, hstuck, reads?_nil, Option.map_none, Option.none_or,
      ways_congr (Vocabulary.confuses_newline prev) htodos, reads?_end]
  | cons a cs ih => rw [List.cons_append, reads?_cons, reads?_cons, ih (spells_going htodos 0)]

/-! ## Assertions that come first -/

namespace Regex

/-- The expression is an assertion. -/
def isLook : Regex → Bool
  | look _ => true
  | _ => false

/-- Assertions are met before anything is read, and not after. -/
def looksFirst : Regex → Bool
  | empty => true
  | set _ => true
  | look _ => true
  | cat r s => r.looksFirst && s.looksFirst && (r.isLook || s.isOver .blind)
  | alt r s => r.looksFirst && s.looksFirst
  | star r _ => r.isOver .blind
  | plus r _ => r.isOver .blind
  | times r n => n == 0 || r.isOver .blind
  | upTo r n _ => if n = 1 then r.looksFirst else n == 0 || r.isOver .blind
  | group _ r => r.looksFirst

/-- What the move leaves to be done is without assertions. -/
def LeavesBlind (m : Move) : Prop :=
  ∀ left, m.todo? = some left → Vocabulary.blind.Spells left

theorem leavesBlind_after {m : Move} (h : LeavesBlind m) (closed : Bool) : LeavesBlind (m.after closed) :=
  fun left hleft => h left (by rwa [Move.todo?_after] at hleft)

theorem LeavesBlind.reading {todo : List Part} (h : Vocabulary.blind.Spells todo) (g : Gap)
    (S : CharSet) : (Walk.reading g S todo).All LeavesBlind := by
  unfold Walk.reading
  split
  · refine .single ?_
    rintro left ⟨⟩
    exact h
  · exact .stop

theorem parallel_leavesBlind (g : Gap) :
    Walk.Parallel .blind 0 g g fun w _ => w.All LeavesBlind where
  stop := .stop
  exit := .single nofun
  reading := fun _ htodo => .reading htodo g _
  both := .both
  once := fun place hw => .once hw place
  after := fun _ hw => .after (fun _ hm => leavesBlind_after hm _) hw
  holds := fun _ => rfl

/-- **Behind a read there are no assertions.** Behind an expression that is itself an assertion there can be more. -/
theorem leavesBlind_explore (g : Gap) {r : Regex} (hr : r.looksFirst = true) {place : Nat}
    {todo : List Part} (htodo : r.isLook = true ∨ Vocabulary.blind.Spells todo) {k : Walk}
    (hk : k.All LeavesBlind) : (r.explore g place todo k).All LeavesBlind := by
  have hover : ∀ {r : Regex} {place : Nat} {todo : List Part} {k : Walk}, r.isOver .blind = true →
      Vocabulary.blind.Spells todo → k.All LeavesBlind → (r.explore g place todo k).All LeavesBlind :=
    fun {r place todo k} hr htodo hk =>
      @Walk.Parallel.explore .blind 0 g g _ (parallel_leavesBlind g) r hr place todo htodo k k hk
  induction r generalizing place todo k with
  | empty => exact hk
  | set S => exact .once (.reading (htodo.resolve_left Bool.false_ne_true) g S) place
  | look a =>
    rw [explore]
    split
    · exact hk
    · exact .stop
  | cat r s ihr ihs =>
    obtain ⟨hrs, hlook⟩ := (Bool.and_eq_true _ _).mp hr
    obtain ⟨hr, hs⟩ := (Bool.and_eq_true _ _).mp hrs
    have htodo := htodo.resolve_left Bool.false_ne_true
    rw [Bool.or_eq_true] at hlook
    exact ihr hr (hlook.imp_right fun hs => htodo.cons hs _) (ihs hs (Or.inr htodo) hk)
  | alt r s ihr ihs =>
    obtain ⟨hr, hs⟩ := (Bool.and_eq_true _ _).mp hr
    have htodo := htodo.resolve_left Bool.false_ne_true
    exact .once (.both (ihr hr (Or.inr htodo) hk) (ihs hs (Or.inr htodo) hk)) place
  | star r greedy _ =>
    exact hover (r := star r greedy) hr (htodo.resolve_left Bool.false_ne_true) hk
  | plus r greedy _ =>
    exact hover (r := plus r greedy) hr (htodo.resolve_left Bool.false_ne_true) hk
  | times r n _ =>
    exact hover (r := times r n) hr (htodo.resolve_left Bool.false_ne_true) hk
  | upTo r n greedy ih =>
    replace htodo := htodo.resolve_left Bool.false_ne_true
    rw [looksFirst] at hr
    split at hr
    · next hn =>
      subst hn
      rw [explore_upTo_succ]
      have hleft : Vocabulary.blind.Spells (⟨upTo r 0 greedy, place + 1 + r.width⟩ :: todo) :=
        htodo.cons rfl _
      exact .once (.prefer (ih hr (Or.inr hleft) hk) hk greedy) place
    · exact hover (r := upTo r n greedy) hr htodo hk
  | group index r ih =>
    have htodo := htodo.resolve_left Bool.false_ne_true
    exact ih hr (Or.inr (htodo.cons rfl _)) (.after (fun _ hm => leavesBlind_after hm _) hk)

end Regex

theorem reads?_cut_of_looksFirst {r : Regex} (hr : r.looksFirst = true) {place : Nat}
    {prev : Option Char} {a : Char} {cs more : List Char}
    (h : reads? [[⟨r, place⟩]] prev (a :: (cs ++ more)) = some (a :: cs)) :
    reads? [[⟨r, place⟩]] prev (a :: cs) = some (a :: cs) := by
  have hblind : ∀ todo ∈ going (ways ⟨prev, some a⟩ [[⟨r, place⟩]] 0), Vocabulary.blind.Spells todo := by
    have hexit : (Walk.single (.exit false)).All Regex.LeavesBlind := .single fun _ h => nomatch h
    intro todo htodo
    obtain ⟨m, hm, heq⟩ := List.mem_map.1 (by simpa [ways] using mem_of_mem_going htodo)
    exact Regex.leavesBlind_explore _ hr (Or.inr (List.forall_mem_nil _)) hexit 0 m hm todo
      heq
  rcases reads?_cons_eq_some h with ⟨ds, hds, heq⟩ | ⟨-, heq⟩
  · obtain ⟨-, rfl⟩ := List.cons.inj heq
    rw [reads?_cons, reads?_cut hblind hds]
    rfl
  · cases heq

end Highlight
