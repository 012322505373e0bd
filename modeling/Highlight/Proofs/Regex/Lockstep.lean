import Highlight.Proofs.Regex.Alternatives
import Highlight.Proofs.Regex.Apart
import Highlight.Proofs.Regex.Backtrack

/-!
# All ways of matching side by side

A run carries all ways of matching over the text at once and enters a place once at each position. If the passes of
all loops read, it ends where matching one way after another does (`Regex.map_stop_matchHere`).

For this the parts of an expression are told apart by what threads come to that owe them: `ends?` is the end of
their match. Threads are alternatives, and a place that is not come back to can as well be left unentered. So the
threads that owe a part, and those that owe what the part is made of, have the same end (`ends?_prefer`).
-/

namespace Highlight

open Regex

/-- The end of the most preferred match of threads that owe `todos`. -/
def ends? (todos : List (List Part)) (c : Cursor) : Option Nat :=
  (reads? todos c.before.head? c.rest).map (c.offset + byteLength ·)

theorem map_stop_run (threads : List Thread) (c : Cursor) :
    (run threads c).map Hit.stop = ends? (threads.map Thread.todo) c :=
  stop_run threads c

@[simp] theorem ends?_nil (c : Cursor) : ends? [] c = none := by
  rw [ends?, reads?_nil, Option.map_none]

theorem ends?_of_end {c : Cursor} (h : c.next? = none) (todos : List (List Part)) :
    ends? todos c = if none ∈ ways c.gap todos 0 then some c.offset else none := by
  have hrest := Cursor.next?_eq_none.1 h
  have hgap : c.gap = ⟨c.before.head?, none⟩ := by rw [Cursor.gap, hrest]; rfl
  rw [ends?, hrest, reads?, hgap]
  simp only [any_isNone]
  split <;> rfl

theorem ends?_of_next {c d : Cursor} {a : Char} (h : c.next? = some (a, d)) (todos : List (List Part)) :
    ends? todos c = (ends? (going (ways c.gap todos 0)) d).or
      (if none ∈ ways c.gap todos 0 then some c.offset else none) := by
  obtain ⟨hrest, hbefore⟩ := Cursor.next?_eq_some.1 h
  have hgap : c.gap = ⟨c.before.head?, some a⟩ := by rw [Cursor.gap, hrest]; rfl
  have hprev : d.before.head? = some a := by rw [hbefore]; rfl
  rw [ends?, ends?, hrest, reads?, Option.map_or, hgap, hprev, Option.map_map]
  congr 1
  · congr 1
    funext cs
    rw [Function.comp_apply, byteLength_cons, Cursor.offset_next? h, Nat.add_assoc]
  · simp only [any_isNone]
    split <;> rfl

theorem ends?_congr {c : Cursor} {todos todos' : List (List Part)}
    (h : ways c.gap todos 0 = ways c.gap todos' 0) : ends? todos c = ends? todos' c := by
  cases hnext : c.next? with
  | none => rw [ends?_of_end hnext, ends?_of_end hnext, h]
  | some next => rw [ends?_of_next hnext, ends?_of_next hnext, h]

theorem ways_singleton (g : Gap) (todo : List Part) :
    ways g [todo] 0 = (exploreAll g todo 0).1.map Move.todo? :=
  List.append_nil _

theorem exploreAll_cons (g : Gap) (r : Regex) (place : Nat) (todo : List Part) :
    exploreAll g (⟨r, place⟩ :: todo) = r.explore g place todo (exploreAll g todo) := rfl

theorem Regex.explore_set (g : Gap) (S : CharSet) (place : Nat) (todo : List Part) (k : Walk) :
    (set S).explore g place todo k = .once place (Walk.reading g S todo) := rfl

theorem Regex.explore_look (g : Gap) (a : Assertion) (place : Nat) (todo : List Part) (k : Walk) :
    (look a).explore g place todo k = if a.holds g then k else .stop := rfl

theorem Walk.once_zero (place : Nat) (w : Walk) : once place w 0 = w (0 ||| 1 <<< place) := by
  unfold once
  rw [Nat.zero_testBit, if_neg Bool.false_ne_true]

theorem ends?_of_exploreAll_eq {c : Cursor} {todo todo' : List Part}
    (h : exploreAll c.gap todo = exploreAll c.gap todo') : ends? [todo] c = ends? [todo'] c :=
  ends?_congr (by rw [ways_singleton, ways_singleton, h])

theorem ends?_append {N : Chart} {ts us : List (List Part)} (hts : ∀ todo ∈ ts, chartedAll N todo)
    (hus : ∀ todo ∈ us, chartedAll N todo) (c : Cursor) :
    ends? (ts ++ us) c = (ends? ts c).or (ends? us c) := by
  have hthreads : ∀ todos : List (List Part), (todos.map (Thread.mk · none)).map Thread.todo = todos :=
    fun todos => by rw [List.map_map]; exact List.map_id todos
  have hrun := run_append (c := c) (List.forall_mem_map.2 hts : ∀ t ∈ ts.map (Thread.mk · none), _)
    (List.forall_mem_map.2 hus : ∀ t ∈ us.map (Thread.mk · none), _)
  rw [← hthreads (ts ++ us), ← map_stop_run, List.map_append, hrun, Option.map_or, map_stop_run,
    map_stop_run, hthreads, hthreads]

/-! ## What threads owe, part by part -/

theorem ends?_nothing (c : Cursor) : ends? [[]] c = some c.offset := by
  have hways : ways c.gap [[]] 0 = [none] := rfl
  cases hnext : c.next? with
  | none => rw [ends?_of_end hnext, hways, if_pos List.mem_cons_self]
  | some next =>
    rw [ends?_of_next hnext, hways, going_none, ends?_nil, if_pos List.mem_cons_self, Option.none_or]

theorem ends?_of_ways_eq_nil {c : Cursor} {todos : List (List Part)} (h : ways c.gap todos 0 = []) :
    ends? todos c = none := by
  have hnil : ways c.gap todos 0 = ways c.gap [] 0 := h
  rw [ends?_congr hnil, ends?_nil]

theorem ends?_set (S : CharSet) (place : Nat) (todo : List Part) (c : Cursor) :
    ends? [⟨set S, place⟩ :: todo] c = (c.over? S.mem).bind (ends? [todo] ·) := by
  have hways : ways c.gap [⟨set S, place⟩ :: todo] 0 =
      if c.gap.next.any S.mem then [some todo] else [] := by
    rw [ways_singleton, exploreAll_cons, explore_set, Walk.once_zero, Walk.reading]
    cases c.gap.next.any S.mem <;> rfl
  rw [Cursor.over?]
  cases hnext : c.next? with
  | none =>
    have hgap : c.gap.next = none := by rw [Cursor.gap, Cursor.next?_eq_none.1 hnext]; rfl
    rw [hgap] at hways
    exact ends?_of_ways_eq_nil hways
  | some next =>
    obtain ⟨a, d⟩ := next
    have hgap : c.gap.next = some a := by rw [Cursor.gap, (Cursor.next?_eq_some.1 hnext).1]; rfl
    rw [hgap, Option.any_some] at hways
    dsimp only
    split
    · next hS =>
      rw [if_pos hS] at hways
      rw [ends?_of_next hnext, hways, going_some, going_nil, if_neg (by simp), Option.or_none]
      rfl
    · next hS =>
      rw [if_neg hS] at hways
      exact ends?_of_ways_eq_nil hways

theorem ends?_look (a : Assertion) (place : Nat) (todo : List Part) (c : Cursor) :
    ends? [⟨look a, place⟩ :: todo] c = if a.holds c.gap then ends? [todo] c else none := by
  split
  · next ha => exact ends?_of_exploreAll_eq (by rw [exploreAll_cons, explore_look, if_pos ha])
  · next ha =>
    refine ends?_of_ways_eq_nil ?_
    rw [ways_singleton, exploreAll_cons, explore_look, if_neg ha]
    rfl

theorem ends?_closing (index place : Nat) (todo : List Part) (c : Cursor) :
    ends? [⟨group index empty, place⟩ :: todo] c = ends? [todo] c := by
  refine ends?_congr ?_
  have hafter : Move.todo? ∘ Move.after (index == 1) = Move.todo? := funext (Move.todo?_after _)
  rw [ways_singleton, ways_singleton, exploreAll_cons]
  change ((exploreAll c.gap todo 0).1.map (Move.after _)).map Move.todo? = _
  rw [List.map_map, hafter]

/-- **A place that is not come back to divides a thread into two.** -/
theorem ends?_prefer {N : Chart} {todo t u : List Part} (place : Nat) (first : Bool) {c : Cursor}
    (h : exploreAll c.gap todo =
      .once place (.prefer first (exploreAll c.gap t) (exploreAll c.gap u)))
    (ht : ¬ firstAll t place) (hu : ¬ firstAll u place) (htN : chartedAll N t) (huN : chartedAll N u) :
    ends? [todo] c = prefer first (ends? [t] c) (ends? [u] c) := by
  have hboth : ∀ {t u : List Part}, exploreAll c.gap todo =
      .once place (.both (exploreAll c.gap t) (exploreAll c.gap u)) → ¬ firstAll t place →
      ¬ firstAll u place → chartedAll N t → chartedAll N u →
      ends? [todo] c = (ends? [t] c).or (ends? [u] c) := by
    intro t u h ht hu htN huN
    have hconfined : (Walk.both (exploreAll c.gap t) (exploreAll c.gap u)).Confined (· ≠ place) := by
      refine .both (confined_exploreAll _ ?_) (confined_exploreAll _ ?_)
      · rintro i hi rfl
        exact ht hi
      · rintro i hi rfl
        exact hu hi
    -- the walk does not see that the place has been entered
    have hmoves := (hconfined (0 ||| 1 <<< place) 0 fun i hi => by
      rw [testBit_enter, decide_eq_false (Ne.symm hi), Bool.or_false]).1
    rw [← ends?_append (List.forall_mem_singleton.2 htN) (List.forall_mem_singleton.2 huN)]
    refine ends?_congr ?_
    rw [ways_singleton, h, Walk.once_zero, hmoves]
    change ((exploreAll c.gap t 0).1 ++ (exploreAll c.gap u (exploreAll c.gap t 0).2).1).map _ = _
    rw [List.map_append, ← List.append_nil (List.map Move.todo? (exploreAll c.gap u _).1)]
    rfl
  cases first
  · exact hboth h hu ht huN htN
  · exact hboth h ht hu htN huN

section

variable {N : Chart} {r s : Regex} {n place : Nat} {greedy : Bool} {todo : List Part}

theorem ends?_alt (hN : Apart N) (h : (alt r s).Charted N place todo) (htodo : chartedAll N todo)
    (c : Cursor) : ends? [⟨alt r s, place⟩ :: todo] c =
      (ends? [⟨r, place + 1⟩ :: todo] c).or (ends? [⟨s, place + 1 + r.width⟩ :: todo] c) := by
  obtain ⟨hplace, hr, hs⟩ := h
  have hapart := hN place
  rw [hplace, beyond, not_or] at hapart
  exact ends?_prefer place true rfl hapart.1 hapart.2 ⟨hr, htodo⟩ ⟨hs, htodo⟩

theorem ends?_star (hN : Apart N) (hn : r.nullable = false) (h : (star r greedy).Charted N place todo)
    (htodo : chartedAll N todo) (c : Cursor) : ends? [⟨star r greedy, place⟩ :: todo] c =
      prefer greedy (ends? [⟨r, place + 1⟩ :: ⟨star r greedy, place⟩ :: todo] c) (ends? [todo] c) := by
  have hstar := h
  obtain ⟨hplace, hr⟩ := h
  have hapart := hN place
  rw [hplace, beyond, not_or] at hapart
  refine ends?_prefer place greedy ?_ ?_ hapart.2 ⟨hr, hstar, htodo⟩ htodo
  · rw [exploreAll_cons, explore_star, exploreAll_cons _ r,
      explore_eq_of_not_nullable _ hn _ _ (exploreAll c.gap (⟨star r greedy, place⟩ :: todo)) .stop]
  · rintro (hfirst | ⟨hnull, -⟩)
    · exact hapart.1 hfirst
    · rw [hn] at hnull
      cases hnull

theorem ends?_plus (hn : r.nullable = false) (c : Cursor) :
    ends? [⟨plus r greedy, place⟩ :: todo] c =
      ends? [⟨r, place + 1⟩ :: ⟨star r greedy, place⟩ :: todo] c := by
  refine ends?_of_exploreAll_eq ?_
  rw [exploreAll_cons, explore_plus, exploreAll_cons]
  exact explore_eq_of_not_nullable _ hn ..

theorem ends?_upTo_succ (hN : Apart N) (h : (upTo r (n + 1) greedy).Charted N place todo)
    (htodo : chartedAll N todo) (c : Cursor) : ends? [⟨upTo r (n + 1) greedy, place⟩ :: todo] c =
      prefer greedy (ends? [⟨r, place + 1⟩ :: ⟨upTo r n greedy, place + 1 + r.width⟩ :: todo] c)
        (ends? [todo] c) := by
  obtain ⟨hplace, hr, hmore⟩ := h
  have hapart := hN place
  rw [hplace, beyond, not_or] at hapart
  exact ends?_prefer place greedy rfl hapart.1 hapart.2 ⟨hr, hmore, htodo⟩ htodo

theorem ends?_star_eq_backtrack (hN : Apart N) (hn : r.nullable = false)
    (hpass : ∀ {place todo}, r.Charted N place todo → chartedAll N todo → ∀ c,
      ends? [⟨r, place⟩ :: todo] c = r.backtrack (ends? [todo] ·) c)
    (h : (star r greedy).Charted N place todo) (htodo : chartedAll N todo) (c : Cursor) :
    ends? [⟨star r greedy, place⟩ :: todo] c = (star r greedy).backtrack (ends? [todo] ·) c := by
  -- on the characters that are left, as a pass reads
  induction hlength : c.rest.length using Nat.strongRecOn generalizing c with
  | ind m ih =>
    subst hlength
    rw [ends?_star hN hn h htodo, hpass h.2 ⟨h, htodo⟩, backtrack_star hn]
    congr 1
    exact backtrack_congr fun d hd => ih _ (length_rest_lt_of_leads hn hd) d rfl

/-- **What threads owe they come to one way after another**, if the passes of all loops read. -/
theorem ends?_eq_backtrack (hN : Apart N) (hsolid : r.isSolid = true) (h : r.Charted N place todo)
    (htodo : chartedAll N todo) (c : Cursor) :
    ends? [⟨r, place⟩ :: todo] c = r.backtrack (ends? [todo] ·) c := by
  induction r using unrolled generalizing place todo c with
  | empty => exact ends?_of_exploreAll_eq rfl
  | set S => exact ends?_set S place todo c
  | look a => exact ends?_look a place todo c
  | cat r s ihr ihs =>
    obtain ⟨hsr, hss⟩ := (Bool.and_eq_true _ _).mp hsolid
    have hcat : ends? [⟨cat r s, place⟩ :: todo] c =
        ends? [⟨r, place⟩ :: ⟨s, place + r.width⟩ :: todo] c := ends?_of_exploreAll_eq rfl
    rw [hcat, ihr hsr h.1 ⟨h.2, htodo⟩, backtrack_cat, funext (ihs hss h.2 htodo)]
  | alt r s ihr ihs =>
    obtain ⟨hsr, hss⟩ := (Bool.and_eq_true _ _).mp hsolid
    rw [ends?_alt hN h htodo, ihr hsr h.2.1 htodo, ihs hss h.2.2 htodo, backtrack_alt]
  | star r greedy ih =>
    obtain ⟨hn, hsr⟩ := isSolid_of_star hsolid
    exact ends?_star_eq_backtrack hN hn (ih hsr) h htodo c
  | plus r greedy ih =>
    obtain ⟨hn, hsr⟩ := isSolid_of_plus hsolid
    have hstar : (star r greedy).Charted N place todo := h
    rw [ends?_plus hn, ih hsr h.2 ⟨hstar, htodo⟩, backtrack_plus,
      funext (ends?_star_eq_backtrack hN hn (ih hsr) hstar htodo)]
  | timesZero r => exact ends?_of_exploreAll_eq rfl
  | timesSucc r n ihr ihn =>
    have hcat : ends? [⟨times r (n + 1), place⟩ :: todo] c =
        ends? [⟨r, place⟩ :: ⟨times r n, place + r.width⟩ :: todo] c := ends?_of_exploreAll_eq rfl
    rw [hcat, ihr hsolid h.1 ⟨h.2, htodo⟩, backtrack_times_succ, funext (ihn hsolid h.2 htodo)]
  | upToZero r greedy => exact ends?_of_exploreAll_eq rfl
  | upToSucc r n greedy ihr ihn =>
    rw [ends?_upTo_succ hN h htodo, ihr hsolid h.2.1 ⟨h.2.2, htodo⟩, backtrack_upTo_succ,
      funext (ihn hsolid h.2.2 htodo)]
  | group index r ih =>
    have hopen : ends? [⟨group index r, place⟩ :: todo] c =
        ends? [⟨r, place⟩ :: ⟨group index empty, place⟩ :: todo] c := ends?_of_exploreAll_eq rfl
    rw [hopen, ih hsolid h ⟨trivial, htodo⟩, funext (ends?_closing index place todo)]
    rfl

end

theorem ends?_eq {r : Regex} (hr : r.isSolid = true) (c : Cursor) :
    ends? [[⟨r, 0⟩]] c = r.backtrack (fun d => some d.offset) c := by
  obtain ⟨N, hN, hapart⟩ := exists_apart hr 0
  rw [ends?_eq_backtrack hapart hr hN trivial, funext ends?_nothing]

/-- **Matching all ways side by side is matching one way after another.** -/
theorem Regex.map_stop_matchHere {r : Regex} (hr : r.isSolid = true) (c : Cursor) :
    (r.matchHere c).map Hit.stop = r.backtrack (fun d => some d.offset) c := by
  rw [matchHere, map_stop_run, ← ends?_eq hr]
  rfl

end Highlight
