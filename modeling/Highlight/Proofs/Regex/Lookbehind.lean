import Highlight.Proofs.Regex.Alternatives
import Highlight.Proofs.Regex.Shift

/-!
# Context before a token

A look-behind expression begins with its context: the start of the text or a character of a set, and behind it
the token. `behind C r` is this form, `(^|C)(?:r)`. `tokenHere r c` is the match of the token at `c`, with `c`
as the end of the context.

The main statement is `matchHere_behind`: at the start of the text the token is preferred that begins there, and
else it begins behind the next character, if this is one of `C`. Both ways can be open at the start of the text
only. The first one goes through the token with its places, and so it could keep the second one from places of
the token; but threads are alternatives (`run_append`).
-/

namespace Highlight

namespace Step

theorem untilStop_map_go (ts : List Thread) : untilStop (ts.map go) = (ts, none) := by
  induction ts with
  | nil => rfl
  | cons t ts ih => rw [List.map_cons, untilStop, ih]

theorem ofThreads_singleton (c : Cursor) (t : Thread) (v : Places) :
    ofThreads c [t] v = (Regex.exploreAll c.gap t.todo v).1.map (t.step c.offset) :=
  List.append_nil _

end Step

theorem run_congr {ts us : List Thread} {c : Cursor}
    (h : Step.ofThreads c ts 0 = Step.ofThreads c us 0) : run ts c = run us c := by
  cases hnext : c.next? with
  | none => rw [run_eq_of_end _ hnext, run_eq_of_end _ hnext, h]
  | some next => rw [run_eq_of_next hnext, run_eq_of_next hnext, h]

theorem run_of_append_go {N : Chart} {threads ts us : List Thread} {c : Cursor}
    (hts : ∀ t ∈ ts, Regex.chartedAll N t.todo) (hus : ∀ t ∈ us, Regex.chartedAll N t.todo)
    (hsteps : Step.ofThreads c threads 0 = Step.ofThreads c ts 0 ++ us.map Step.go) :
    run threads c = (run ts c).or (c.next?.bind fun (_, d) => run us d) := by
  cases hstop : (Step.untilStop (Step.ofThreads c ts 0)).2 with
  | some mark =>
    -- a thread ends here, which is preferred to the others
    have hboth := Step.untilStop_append_of_some hstop (us.map Step.go)
    cases hnext : c.next? with
    | none => simp [run_eq_of_end _ hnext, hsteps, hboth, hstop]
    | some next =>
      obtain ⟨a, d⟩ := next
      simp [run_eq_of_next hnext, hsteps, hboth, hstop]
  | none =>
    have hboth := Step.untilStop_append_of_none hstop (us.map Step.go)
    rw [Step.untilStop_map_go] at hboth
    cases hnext : c.next? with
    | none => simp [run_eq_of_end _ hnext, hsteps, hboth, hstop]
    | some next =>
      obtain ⟨a, d⟩ := next
      simp [run_eq_of_next hnext, hsteps, hboth, hstop, run_append (charted_untilStop hts 0) hus]

namespace Regex

/-- A token behind its context: `(^|C)(?:r)` -/
def behind (C : CharSet) (r : Regex) : Regex :=
  cat (group 1 (alt (look .textStart) (set C))) r

/-- The match of a token where its context ends. -/
def tokenHere (r : Regex) (c : Cursor) : Option Hit :=
  run [⟨[⟨r, 2⟩], some c.offset⟩] c

/-- How the form is gone through: by the start of the text into the token, or over a character of context. -/
theorem exploreAll_behind (g : Gap) (C : CharSet) (r : Regex) :
    exploreAll g [⟨behind C r, 0⟩] =
      .once 0 (.both (if g.prev.isNone then .after true (exploreAll g [⟨r, 2⟩]) else .stop)
        (.once 1 (.reading g C [⟨group 1 empty, 0⟩, ⟨r, 2⟩]))) := rfl

theorem exploreAll_context (g : Gap) (r : Regex) :
    exploreAll g [⟨group 1 empty, 0⟩, ⟨r, 2⟩] = .after true (exploreAll g [⟨r, 2⟩]) := rfl

theorem step_read (t : Thread) (offset : Nat) (todo : List Part) :
    t.step offset (.read todo false) = .go ⟨todo, t.mark⟩ := rfl

theorem step_after (todo todo' : List Part) (mark : Option Nat) (offset : Nat) (m : Move) :
    Thread.step ⟨todo, mark⟩ offset (m.after true) =
      Thread.step ⟨todo', some offset⟩ offset m := by
  cases m <;> simp [Thread.step, Move.after]

theorem exploreAll_token (g : Gap) (r : Regex) :
    (exploreAll g [⟨r, 2⟩] 1).1 = (exploreAll g [⟨r, 2⟩] 0).1 ∧
      (exploreAll g [⟨r, 2⟩] 1).2.testBit 1 = false := by
  have hone : Places.Displaced 2 0 1 := by
    intro i
    have hbit : (0 ||| 1 <<< 0 : Places).testBit (i + 2) = _ := testBit_enter 0 0 (i + 2)
    simpa using hbit
  have hzero : Places.Displaced 2 0 0 := fun i => by rw [Nat.zero_testBit, Nat.zero_testBit]
  obtain ⟨hm, -, hbelow⟩ := displaced_exploreAll 2 g [⟨r, 0⟩] 0 1 hone
  obtain ⟨hm', -, -⟩ := displaced_exploreAll 2 g [⟨r, 0⟩] 0 0 hzero
  exact ⟨hm.trans hm'.symm, (hbelow 1 (by decide)).trans (by decide)⟩

/-- What the expression can do at a position: what the token can, at the start of the text, and read context. -/
theorem ofThreads_behind (C : CharSet) (r : Regex) (mark : Option Nat) (c : Cursor) :
    Step.ofThreads c [⟨[⟨behind C r, 0⟩], mark⟩] 0 =
      (if c.before = [] then Step.ofThreads c [⟨[⟨r, 2⟩], some c.offset⟩] 0 else []) ++
        List.map Step.go (if c.rest.head?.any C.mem then [⟨[⟨group 1 empty, 0⟩, ⟨r, 2⟩], mark⟩]
          else []) := by
  obtain ⟨hmoves, hbit⟩ := exploreAll_token c.gap r
  have hstart : c.gap.prev.isNone = decide (c.before = []) := by
    cases hc : c.before <;> simp [Cursor.gap, hc]
  have hnext : c.gap.next = c.rest.head? := rfl
  have hfresh : Nat.testBit 1 1 = false := by decide
  rw [Step.ofThreads_singleton, exploreAll_behind, Step.ofThreads_singleton, hstart]
  by_cases hbefore : c.before = [] <;> by_cases hC : c.rest.head?.any C.mem = true <;>
    simp [Walk.once, Walk.both, Walk.after, Walk.stop, Walk.reading, Walk.single, hbefore, hC, hnext,
      hmoves, hbit, hfresh, step_after _ [⟨r, 2⟩], step_read]

theorem run_context (r : Regex) (mark : Option Nat) (c : Cursor) :
    run [⟨[⟨group 1 empty, 0⟩, ⟨r, 2⟩], mark⟩] c = tokenHere r c := by
  apply run_congr
  rw [Step.ofThreads_singleton, Step.ofThreads_singleton, exploreAll_context]
  simp [Walk.after, step_after _ [⟨r, 2⟩]]

/-- **Context is the start of the text, which is preferred, or one character.** -/
theorem matchHere_behind (C : CharSet) (r : Regex) (c : Cursor) :
    (behind C r).matchHere c =
      (if c.before = [] then tokenHere r c else none).or
        (c.next?.bind fun (a, d) => if C.mem a then tokenHere r d else none) := by
  obtain ⟨N, hN, -⟩ := exists_charted r 2 [] fun _ => []
  have htoken : ∀ t ∈ if c.before = [] then [(⟨[⟨r, 2⟩], some c.offset⟩ : Thread)] else [],
      chartedAll N t.todo := by
    split
    · exact List.forall_mem_singleton.2 ⟨hN, trivial⟩
    · exact List.forall_mem_nil _
  have hcontext : ∀ t ∈ if c.rest.head?.any C.mem then
      [(⟨[⟨group 1 empty, 0⟩, ⟨r, 2⟩], none⟩ : Thread)] else [], chartedAll N t.todo := by
    split
    · exact List.forall_mem_singleton.2 ⟨trivial, hN, trivial⟩
    · exact List.forall_mem_nil _
  rw [matchHere, run_of_append_go htoken hcontext]
  · congr 1
    · split
      · rfl
      · exact run_nil c
    · cases hnext : c.next? with
      | none => rfl
      | some next =>
        obtain ⟨a, d⟩ := next
        rw [Option.bind_some, Option.bind_some, (Cursor.next?_eq_some.1 hnext).1, List.head?_cons,
          Option.any_some]
        dsimp only
        split
        · exact run_context r none d
        · exact run_nil d
  · rw [ofThreads_behind]
    congr 1
    split <;> rfl

theorem mark_tokenHere {r : Regex} (hr : r.isOver .unmarked = true) {c : Cursor} {hit : Hit}
    (hhit : tokenHere r c = some hit) : hit.mark = some c.offset :=
  mark_run (List.forall_mem_singleton.2 ⟨rfl, .cons hr (List.forall_mem_nil _) 2⟩) hhit

end Regex

end Highlight
