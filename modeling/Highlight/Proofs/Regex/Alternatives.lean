import Highlight.Proofs.Regex.Account
import Highlight.Proofs.Regex.Reading

/-!
# Threads are alternatives

A place is entered once at each position, and so a thread can be kept from going where a preferred one has gone.
If the preferred one matches nothing this is no loss, as the other would match nothing there either: threads
that match nothing can be left out (`run_append_of_none`). Together with what is known of threads that match,
the match of threads is that of the first ones if they match, and else that of the others (`run_append`).
-/

namespace Highlight

open Regex

theorem Account.moves_ofThreads (g : Gap) (todos : List (List Part)) :
    (Account.ofThreads g todos).moves = ways g todos 0 := by
  have hways : ∀ v, (exploreEach g todos v).1.map Move.todo? = ways g todos v := by
    induction todos with
    | nil => intro v; rfl
    | cons todo more ih =>
      intro v
      rw [ways, ← ih]
      change ((exploreAll g todo v).1 ++ (exploreEach g more (exploreAll g todo v).2).1).map _ = _
      exact List.map_append
  exact hways 0

/-! ## Threads that lead nowhere -/

namespace Step

theorem todo?_step (t : Thread) (offset : Nat) (m : Move) : (t.step offset m).todo? = m.todo? := by
  cases m <;> rfl

theorem filter_ofThreads {N : Chart} {A : Account} {c : Cursor} {dead : List (List Part)}
    (hA : ∀ n, A.entered.testBit n = true → Settled c.gap A (N n))
    (hdead : ∀ todo ∈ dead, coveredAll c.gap A todo) {ts : List Thread}
    (hts : ∀ t ∈ ts, chartedAll N t.todo) {v v' : Places} (hv : A.Hides v v') :
    (ofThreads c ts v).filter (fun s => s.todo? ∉ A.moves) =
      (ofThreads c (ts.filter fun t => t.todo ∉ dead) v').filter (fun s => s.todo? ∉ A.moves) := by
  have hmap : ∀ (t : Thread) (ms : List Move), (ms.map (t.step c.offset)).filter (fun s => s.todo? ∉ A.moves) =
      (ms.filter fun m => m.todo? ∉ A.moves).map (t.step c.offset) := by
    intro t ms
    rw [List.filter_map]
    congr 1
    apply List.filter_congr
    intro m _
    rw [Function.comp_apply, todo?_step]
  induction ts generalizing v v' with
  | nil => rfl
  | cons t ts ih =>
    obtain ⟨ht, hts⟩ := List.forall_mem_cons.1 hts
    have hheeds := heeds_exploreAll hA ht
    rw [ofThreads_cons, List.filter_append, hmap, List.filter_cons]
    by_cases hmem : t.todo ∈ dead
    · have hwithin := hheeds.within (hdead _ hmem)
      rw [if_neg (by simpa using hmem), hwithin.filter_eq_nil, List.map_nil, List.nil_append]
      exact ih hts ((hwithin v).2.trans hv)
    · obtain ⟨hmoves, hplaces⟩ := hheeds.blind v v' hv
      rw [if_pos (by simpa using hmem), ofThreads_cons, List.filter_append, hmap, hmoves, ih hts hplaces]

theorem untilStop_filter {p : Option (List Part) → Bool} (hp : p none = true) (steps : List Step) :
    untilStop (steps.filter fun s => p s.todo?) =
      ((untilStop steps).1.filter (fun t => p (some t.todo)), (untilStop steps).2) := by
  induction steps with
  | nil => rfl
  | cons s steps ih =>
    cases s with
    | stop mark =>
      have hs : p (stop mark).todo? = true := hp
      rw [List.filter_cons, if_pos hs]
      rfl
    | go t =>
      have hs : (go t).todo? = some t.todo := rfl
      rw [List.filter_cons, hs, untilStop, List.filter_cons]
      split
      · rw [untilStop, ih]
      · rw [ih]

end Step

theorem going_eq_of_not_mem {xs : List (Option (List Part))} (h : none ∉ xs) :
    (going xs).map some = xs := by
  induction xs with
  | nil => rfl
  | cons x xs ih =>
    cases x with
    | none => exact absurd List.mem_cons_self h
    | some todo => rw [going_some, List.map_cons, ih fun hx => h (List.mem_cons_of_mem _ hx)]

theorem charted_untilStop {N : Chart} {c : Cursor} {ts : List Thread}
    (hts : ∀ t ∈ ts, chartedAll N t.todo) (v : Places) :
    ∀ t ∈ (Step.untilStop (Step.ofThreads c ts v)).1, chartedAll N t.todo := by
  intro u hu
  obtain ⟨t, ht, w, m, hm, hstep⟩ := Step.exists_canStep ((Step.mem_of_untilStop _).1 u hu)
  have htodo : m.todo? = some u.todo := by
    rw [← Step.todo?_step t c.offset m, ← hstep]
    rfl
  exact charted_exploreAll c.gap (hts t ht) w m hm u.todo htodo

/-- One step with and without threads that lead nowhere, of which none ends at the position. -/
theorem untilStop_filter_ofThreads {N : Chart} {ts us : List Thread} {c : Cursor}
    (hts : ∀ t ∈ ts, chartedAll N t.todo) (hus : ∀ t ∈ us, chartedAll N t.todo)
    (hnone : (Step.untilStop (Step.ofThreads c ts 0)).2 = none) :
    let dead := (Step.untilStop (Step.ofThreads c ts 0)).1.map Thread.todo
    let left := Step.ofThreads c (us.filter fun t => t.todo ∉ ts.map Thread.todo) 0
    (Step.untilStop (Step.ofThreads c us 0)).2 = (Step.untilStop left).2 ∧
      (Step.untilStop (Step.ofThreads c us 0)).1.filter (fun t => t.todo ∉ dead) =
        (Step.untilStop left).1.filter (fun t => t.todo ∉ dead) := by
  intro dead left
  have htodos : ∀ todo ∈ ts.map Thread.todo, chartedAll N todo := List.forall_mem_map.2 hts
  have hmoves : (Account.ofThreads c.gap (ts.map Thread.todo)).moves =
      (Step.ofThreads c ts 0).map Step.todo? := by
    rw [Account.moves_ofThreads, Step.map_todo?_ofThreads]
  have hend : none ∉ (Step.ofThreads c ts 0).map Step.todo? := by
    intro hmem
    have hany := Step.isSome_untilStop (Step.ofThreads c ts 0)
    rw [hnone, List.any_eq_true.2 ⟨none, hmem, rfl⟩] at hany
    cases hany
  have hsame := Step.filter_ofThreads (c := c) (Account.settled_ofThreads htodos)
    (Account.covered_ofThreads htodos) hus (Account.Hides.refl 0)
  rw [hmoves] at hsame
  have hp : decide (none ∉ (Step.ofThreads c ts 0).map Step.todo?) = true := decide_eq_true hend
  have hus' := Step.untilStop_filter (p := fun x => x ∉ (Step.ofThreads c ts 0).map Step.todo?) hp
    (Step.ofThreads c us 0)
  have hleft := Step.untilStop_filter (p := fun x => x ∉ (Step.ofThreads c ts 0).map Step.todo?) hp left
  rw [hsame] at hus'
  obtain ⟨hgoing, hstop⟩ := Prod.mk.inj (hus'.symm.trans hleft)
  have hdead : ∀ todo, some todo ∈ (Step.ofThreads c ts 0).map Step.todo? ↔ todo ∈ dead := by
    intro todo
    rw [← going_eq_of_not_mem hend, ← Step.todo_untilStop, List.mem_map]
    simp [dead]
  simp only [hdead] at hgoing
  exact ⟨hstop, hgoing⟩

/-- **Threads that lead nowhere can be left out.** -/
theorem run_filter {N : Chart} {ts us : List Thread} {c : Cursor}
    (hts : ∀ t ∈ ts, chartedAll N t.todo) (hus : ∀ t ∈ us, chartedAll N t.todo)
    (hnone : run ts c = none) :
    run us c = run (us.filter fun t => t.todo ∉ ts.map Thread.todo) c := by
  have hleft : ∀ t ∈ us.filter (fun t => t.todo ∉ ts.map Thread.todo), chartedAll N t.todo :=
    fun t ht => hus t (List.mem_filter.1 ht).1
  induction hrest : c.rest generalizing ts us c with
  | nil =>
    have hend := Cursor.next?_eq_none.2 hrest
    rw [run_eq_of_end _ hend, Option.map_eq_none_iff] at hnone
    rw [run_eq_of_end _ hend, run_eq_of_end _ hend, (untilStop_filter_ofThreads hts hus hnone).1]
  | cons a rest ih =>
    obtain ⟨d, hnext, rfl⟩ := Cursor.exists_next? hrest
    rw [run_eq_of_next hnext, Option.or_eq_none_iff] at hnone
    obtain ⟨hdead, hstop⟩ := hnone
    rw [Option.map_eq_none_iff] at hstop
    obtain ⟨hhere, hgoing⟩ := untilStop_filter_ofThreads hts hus hstop
    have hlead : ∀ ws : List Thread, (∀ t ∈ ws, chartedAll N t.todo) →
        run (Step.untilStop (Step.ofThreads c ws 0)).1 d =
          run ((Step.untilStop (Step.ofThreads c ws 0)).1.filter fun t =>
            t.todo ∉ (Step.untilStop (Step.ofThreads c ts 0)).1.map Thread.todo) d := by
      intro ws hws
      exact ih (charted_untilStop hts 0) (charted_untilStop hws 0) hdead
        (fun t ht => charted_untilStop hws 0 t (List.mem_filter.1 ht).1) rfl
    rw [run_eq_of_next hnext, run_eq_of_next hnext, hhere, hlead us hus, hlead _ hleft, hgoing]

/-- **What fails is as if it were not there.** -/
theorem run_append_of_none {N : Chart} {ts us : List Thread} {c : Cursor}
    (hts : ∀ t ∈ ts, chartedAll N t.todo) (hus : ∀ t ∈ us, chartedAll N t.todo)
    (hnone : run ts c = none) : run (ts ++ us) c = run us c := by
  have hfilter : ts.filter (fun t => t.todo ∉ ts.map Thread.todo) = [] := by
    rw [List.filter_eq_nil_iff]
    intro t ht hnot
    exact of_decide_eq_true hnot (List.mem_map_of_mem ht)
  rw [run_filter hts (List.forall_mem_append.2 ⟨hts, hus⟩) hnone, List.filter_append, hfilter,
    List.nil_append, ← run_filter hts hus hnone]

/-- **Threads are alternatives**, the first of which is preferred. -/
theorem run_append {N : Chart} {ts us : List Thread} {c : Cursor}
    (hts : ∀ t ∈ ts, chartedAll N t.todo) (hus : ∀ t ∈ us, chartedAll N t.todo) :
    run (ts ++ us) c = (run ts c).or (run us c) := by
  cases hrun : run ts c with
  | none => rw [run_append_of_none hts hus hrun, Option.none_or]
  | some hit => rw [run_append_of_some hrun, Option.some_or]

end Highlight
