import Highlight.Proofs.Regex.Alternatives
import Highlight.Proofs.Regex.Leads

/-!
# Where something can be read

Threads keep off places that have been entered, and behind a thread that ends the less preferred ones are given up. No
way through an expression is lost by this: the account of what is come to at a gap has a move on each way that
leads somewhere from there (`Regex.leads_account`), and so the threads that are left behind the next character
lead there too.

The main statement is `isSome_reads?_iff`: an expression reads something exactly where it leads somewhere.
-/

namespace Highlight

open Regex

/-- A move of the account leads from the position to another one. -/
def Account.Leads (A : Account) (c d : Cursor) : Prop :=
  ∃ m : Move, m.todo? ∈ A.moves ∧ m.Leads c d

/-- What follows from leaving a loop follows from its passes, if each pass that does not move on can be left out. -/
theorem of_loop {R : Cursor → Cursor → Prop} {c e : Cursor} {P : Prop}
    (h : Relation.ReflTransGen R c e) (hleave : e = c → P)
    (hpass : ∀ f, R c f → Relation.ReflTransGen R f e → (f = c → P) → P) : P := by
  have hfrom : ∀ b, Relation.ReflTransGen R b e → b = c → P := by
    intro b hb
    induction hb using Relation.ReflTransGen.head_induction_on with
    | refl => exact hleave
    | head hfirst hmore ih =>
      rintro rfl
      exact hpass _ hfirst hmore ih
  exact hfrom c h rfl

namespace Regex

section

variable {N : Chart} {A : Account} {c d : Cursor}

/-- **An account has a move on each way through an expression**, if it has one on each way that is not moved on before
the expression is left. -/
theorem leads_account (hA : ∀ n, A.entered.testBit n = true → Settled c.gap A (N n)) {r : Regex}
    {place : Nat} {todo : List Part} (hr : r.Charted N place todo)
    (hcovered : r.Covered c.gap A place (coveredAll c.gap A todo)) {e : Cursor} (hlead : r.Leads c e)
    (hrest : leadsAll todo e d) (hleave : e = c → coveredAll c.gap A todo → A.Leads c d) :
    A.Leads c d := by
  induction r using unrolled generalizing place todo e with
  | empty => exact hleave hlead.symm hcovered
  | set S =>
    obtain ⟨a, hnext, ha⟩ := hlead
    have hmove := hA place hcovered
    have hhead : c.gap.next = some a := by
      rw [Cursor.gap, (Cursor.next?_eq_some.1 hnext).1, List.head?_cons]
    rw [hr, Settled, hhead] at hmove
    exact ⟨.read todo false, hmove ha, a, e, hnext, hrest⟩
  | look a =>
    obtain ⟨rfl, ha⟩ := hlead
    exact hleave rfl (hcovered ha)
  | cat r s ihr ihs =>
    obtain ⟨f, hf, hs⟩ := hlead
    refine ihr hr.1 hcovered hf ⟨e, hs, hrest⟩ ?_
    rintro rfl hcovered
    exact ihs hr.2 hcovered hs hrest hleave
  | alt r s ihr ihs =>
    obtain ⟨hN, hr, hs⟩ := hr
    have hbody := hA place hcovered
    rw [hN] at hbody
    rcases hlead with hlead | hlead
    · exact ihr hr hbody.1 hlead hrest hleave
    · exact ihs hs hbody.2 hlead hrest hleave
  | star r greedy ih =>
    obtain ⟨hN, hr⟩ := hr
    have hbody := hA place hcovered
    rw [hN] at hbody
    refine of_loop hlead (fun he => hleave he hbody.2) fun f hf hmore hagain => ?_
    exact ih hr hbody.1 hf ⟨e, hmore, hrest⟩ fun hfc _ => hagain hfc
  | plus r greedy ih =>
    obtain ⟨hN, hr⟩ := hr
    obtain ⟨f, hf, hmore⟩ := hlead
    refine ih hr hcovered hf ⟨e, hmore, hrest⟩ ?_
    rintro rfl hentered
    -- behind a pass that has read nothing the loop is entered like any other
    have hbody := hA place hentered
    rw [hN] at hbody
    refine of_loop hmore (fun he => hleave he hbody.2) fun f hf hmore hagain => ?_
    exact ih hr hbody.1 hf ⟨e, hmore, hrest⟩ fun hfc _ => hagain hfc
  | timesZero r => exact hleave hlead.symm hcovered
  | timesSucc r n ihr ihn =>
    obtain ⟨f, hf, hn⟩ := hlead
    refine ihr hr.1 hcovered hf ⟨e, hn, hrest⟩ ?_
    rintro rfl hcovered
    exact ihn hr.2 hcovered hn hrest hleave
  | upToZero r greedy => exact hleave hlead.symm hcovered
  | upToSucc r n greedy ihr ihn =>
    obtain ⟨hN, hr, hn⟩ := hr
    have hbody := hA place hcovered
    rw [hN] at hbody
    rcases hlead with rfl | ⟨f, hf, hmore⟩
    · exact hleave rfl hbody.2
    · refine ihr hr hbody.1 hf ⟨e, hmore, hrest⟩ ?_
      rintro rfl hcovered
      exact ihn hn hcovered hmore hrest hleave
  | group index r ih => exact ih hr hcovered hlead ⟨e, rfl, hrest⟩ hleave

theorem leadsAll_account (hA : ∀ n, A.entered.testBit n = true → Settled c.gap A (N n))
    {todo : List Part} (htodo : chartedAll N todo) (hcovered : coveredAll c.gap A todo)
    (hlead : leadsAll todo c d) : A.Leads c d := by
  induction todo with
  | nil => exact ⟨.exit false, hcovered, hlead⟩
  | cons part todo ih =>
    obtain ⟨e, hr, hrest⟩ := hlead
    refine leads_account hA htodo.1 hcovered hr hrest ?_
    rintro rfl hcovered
    exact ih htodo.2 hcovered hrest

end

end Regex

/-! ## What threads lead to -/

theorem charted_of_mem_ways {N : Chart} {g : Gap} {todos : List (List Part)}
    (htodos : ∀ todo ∈ todos, chartedAll N todo) {v : Places} {left : List Part}
    (hleft : some left ∈ ways g todos v) : chartedAll N left := by
  induction todos generalizing v with
  | nil => cases hleft
  | cons todo more ih =>
    obtain ⟨htodo, hmore⟩ := List.forall_mem_cons.1 htodos
    rcases List.mem_append.1 hleft with hleft | hleft
    · obtain ⟨m, hm, hmleft⟩ := List.mem_map.1 hleft
      exact charted_exploreAll g htodo v m hm left hmleft
    · exact ih hmore hleft

/-- **Threads go on wherever one of them leads.** -/
theorem exists_way_of_leads {N : Chart} {todos : List (List Part)} {c d : Cursor} {todo : List Part}
    (htodos : ∀ todo ∈ todos, chartedAll N todo) (htodo : todo ∈ todos) (hlead : leadsAll todo c d) :
    ∃ m : Move, m.todo? ∈ ways c.gap todos 0 ∧ m.Leads c d := by
  rw [← Account.moves_ofThreads]
  exact leadsAll_account (Account.settled_ofThreads htodos) (htodos todo htodo)
    (Account.covered_ofThreads htodos todo htodo) hlead

/-- **Where one of the threads leads somewhere something is read.** -/
theorem isSome_reads?_of_leadsAll {N : Chart} {todos : List (List Part)} {c d : Cursor}
    {todo : List Part} (htodos : ∀ todo ∈ todos, chartedAll N todo) (htodo : todo ∈ todos)
    (hlead : leadsAll todo c d) : (reads? todos c.before.head? c.rest).isSome := by
  -- on the rest of the text, over which the threads are carried
  induction hrest : c.rest generalizing todos todo c with
  | nil =>
    obtain ⟨m, hm, hmlead⟩ := exists_way_of_leads htodos htodo hlead
    have hgap : c.gap = ⟨c.before.head?, none⟩ := by rw [Cursor.gap, hrest]; rfl
    cases m with
    | exit closes =>
      rw [hgap] at hm
      rw [reads?_end, if_pos (any_isNone.2 hm), Option.isSome_some]
    | read left closes =>
      obtain ⟨a, e, hnext, -⟩ := hmlead
      rw [Cursor.next?_eq_none.2 hrest] at hnext
      cases hnext
  | cons a rest ih =>
    obtain ⟨e, hnext, rfl⟩ := Cursor.exists_next? hrest
    have hgap : c.gap = ⟨c.before.head?, some a⟩ := by rw [Cursor.gap, hrest]; rfl
    have hprev : e.before.head? = some a := by rw [(Cursor.next?_eq_some.1 hnext).2]; rfl
    rw [reads?_cons, Option.isSome_or, Bool.or_eq_true, Option.isSome_map, ← hgap, ← hprev]
    by_cases hend : none ∈ ways c.gap todos 0
    · exact Or.inr (by rw [if_pos (any_isNone.2 hend)]; rfl)
    · obtain ⟨m, hm, hmlead⟩ := exists_way_of_leads htodos htodo hlead
      cases m with
      | exit closes => exact absurd hm hend
      | read left closes =>
        obtain ⟨b, f, hbnext, hleft⟩ := hmlead
        obtain ⟨rfl, rfl⟩ := Prod.mk.inj (Option.some.inj (hnext.symm.trans hbnext))
        have hgoing : left ∈ going (ways c.gap todos 0) := by
          rw [← going_eq_of_not_mem hend] at hm
          obtain ⟨left', hleft', heq⟩ := List.mem_map.1 hm
          rwa [← Option.some.inj heq]
        exact Or.inl (ih (fun left hleft => charted_of_mem_ways htodos (mem_of_mem_going hleft))
          hgoing hleft rfl)

/-- **An expression reads something exactly where it leads somewhere.** -/
theorem isSome_reads?_iff {r : Regex} {place : Nat} {c : Cursor} :
    (reads? [[⟨r, place⟩]] c.before.head? c.rest).isSome ↔ ∃ d, r.Leads c d := by
  constructor
  · intro h
    obtain ⟨cs, hcs⟩ := Option.isSome_iff_exists.1 h
    obtain ⟨d, hlead, -⟩ := exists_leads_of_reads? hcs
    exact ⟨d, hlead⟩
  · rintro ⟨d, hlead⟩
    obtain ⟨N, hN, -⟩ := exists_charted r place [] fun _ => []
    exact isSome_reads?_of_leadsAll (List.forall_mem_singleton.2 ⟨hN, trivial⟩)
      (List.mem_singleton_self _) ⟨d, hlead, rfl⟩

end Highlight
