import Highlight.Proofs.Regex.Reading
import Mathlib.Logic.Relation

/-!
# Where an expression leads

Without its preferences an expression is a relation between the positions of a text: `r.Leads c d` says that
some way of matching begins at `c` and ends at `d`. Whatever threads read, one of them leads over it
(`leads_of_reads?`). So what is read can be told from the parts of the expression, by the rules of relations.
-/

namespace Highlight

namespace Regex

/-- Some way of matching leads from one position to the other. -/
def Leads : Regex → Cursor → Cursor → Prop
  | empty => Eq
  | set S => fun c d => ∃ a, c.next? = some (a, d) ∧ S.mem a = true
  | look a => fun c d => c = d ∧ a.holds c.gap = true
  | cat r s => Relation.Comp r.Leads s.Leads
  | alt r s => fun c d => r.Leads c d ∨ s.Leads c d
  | star r _ => Relation.ReflTransGen r.Leads
  | plus r _ => Relation.Comp r.Leads (Relation.ReflTransGen r.Leads)
  | times r n => n.rec Eq fun _ => Relation.Comp r.Leads
  | upTo r n _ => n.rec Eq fun _ more c d => c = d ∨ Relation.Comp r.Leads more c d
  | group _ r => r.Leads

/-- Parts lead from one position to the other, one after another. -/
def leadsAll : List Part → Cursor → Cursor → Prop
  | [] => Eq
  | part :: todo => Relation.Comp part.regex.Leads (leadsAll todo)

theorem precedes_of_star {R : Cursor → Cursor → Prop} (hR : ∀ c d, R c d → c.Precedes d) {c d : Cursor}
    (h : Relation.ReflTransGen R c d) : c.Precedes d := by
  induction h with
  | refl => exact .refl c
  | tail _ hstep hbefore => exact hbefore.trans (hR _ _ hstep)

theorem precedes_of_leads {r : Regex} {c d : Cursor} (h : r.Leads c d) : c.Precedes d := by
  have hself : ∀ {c d : Cursor}, c = d → c.Precedes d := by
    rintro c _ rfl
    exact .refl c
  induction r using unrolled generalizing c d with
  | empty => exact hself h
  | set S =>
    obtain ⟨a, hnext, -⟩ := h
    exact Cursor.precedes_next? hnext
  | look a => exact hself h.1
  | cat r s ihr ihs =>
    obtain ⟨e, hr, hs⟩ := h
    exact (ihr hr).trans (ihs hs)
  | alt r s ihr ihs => exact h.elim ihr ihs
  | star r greedy ih => exact precedes_of_star (fun _ _ => ih) h
  | plus r greedy ih =>
    obtain ⟨e, hr, hstar⟩ := h
    exact (ih hr).trans (precedes_of_star (fun _ _ => ih) hstar)
  | timesZero r => exact hself h
  | timesSucc r n ihr ihn =>
    obtain ⟨e, hr, hn⟩ := h
    exact (ihr hr).trans (ihn hn)
  | upToZero r greedy => exact hself h
  | upToSucc r n greedy ihr ihn =>
    rcases h with hleave | ⟨e, hr, hn⟩
    · exact hself hleave
    · exact (ihr hr).trans (ihn hn)
  | group index r ih => exact ih h

theorem length_rest_lt_of_leads {r : Regex} (hr : r.nullable = false) {c d : Cursor} (h : r.Leads c d) :
    d.rest.length < c.rest.length := by
  induction r using unrolled generalizing c d with
  | empty => cases hr
  | set S =>
    obtain ⟨a, hnext, -⟩ := h
    exact Cursor.length_next? hnext
  | look a => cases hr
  | cat r s ihr ihs =>
    obtain ⟨e, he, hd⟩ := h
    have hce := (precedes_of_leads he).length_rest_le
    have hed := (precedes_of_leads hd).length_rest_le
    rcases (Bool.and_eq_false_iff).1 hr with hr | hs
    · exact Nat.lt_of_le_of_lt hed (ihr hr he)
    · exact Nat.lt_of_lt_of_le (ihs hs hd) hce
  | alt r s ihr ihs =>
    obtain ⟨hr, hs⟩ := (Bool.or_eq_false_iff).1 hr
    exact h.elim (ihr hr) (ihs hs)
  | star r greedy _ => cases hr
  | plus r greedy ih =>
    obtain ⟨e, he, hstar⟩ := h
    have hed := (precedes_of_star (fun _ _ => precedes_of_leads) hstar).length_rest_le
    exact Nat.lt_of_le_of_lt hed (ih hr he)
  | timesZero r => cases hr
  | timesSucc r n ihr _ =>
    obtain ⟨e, he, hd⟩ := h
    have hmore : (times r n).Leads e d := hd
    exact Nat.lt_of_le_of_lt (precedes_of_leads hmore).length_rest_le (ihr hr he)
  | upToZero r greedy => cases hr
  | upToSucc r n greedy _ _ => cases hr
  | group index r ih => exact ih hr h

theorem leads_char {a : Char} {c d : Cursor} (h : (char a).Leads c d) : c.next? = some (a, d) := by
  obtain ⟨b, hnext, hb⟩ := h
  obtain rfl : b = a := of_decide_eq_true (CharSet.mem_single ▸ hb)
  exact hnext

end Regex

open Regex

/-- The move leads to a position: it ends at once, or what it leaves leads there from behind the next character. -/
def Move.Leads (c : Cursor) : Move → Cursor → Prop
  | exit _ => fun d => c = d
  | read todo _ => fun d => ∃ a e, c.next? = some (a, e) ∧ leadsAll todo e d

theorem Move.leads_after {c d : Cursor} {m : Move} {closed : Bool} :
    (m.after closed).Leads c d ↔ m.Leads c d := by
  cases m <;> rfl

namespace Regex

/-- **A walk through an expression leads nowhere that the expression does not**, if this is so behind it. -/
theorem leads_explore {c : Cursor} {r : Regex} {place : Nat} {todo : List Part} {k : Walk}
    (hk : k.All fun m => ∀ d, m.Leads c d → leadsAll todo c d) :
    (r.explore c.gap place todo k).All fun m =>
      ∀ d, m.Leads c d → leadsAll (⟨r, place⟩ :: todo) c d := by
  induction r using unrolled generalizing place todo k with
  | empty => exact hk.imp fun m hm d hd => ⟨c, rfl, hm d hd⟩
  | set S =>
    refine .once ?_ place
    split
    · next hS =>
      refine .single ?_
      rintro d ⟨a, e, hnext, hd⟩
      have hhead : c.gap.next = some a := by
        rw [Cursor.gap, (Cursor.next?_eq_some.1 hnext).1, List.head?_cons]
      rw [hhead] at hS
      exact ⟨e, ⟨a, hnext, hS⟩, hd⟩
    · exact .stop
  | look a =>
    rw [explore]
    split
    · next ha => exact hk.imp fun m hm d hd => ⟨c, ⟨rfl, ha⟩, hm d hd⟩
    · exact .stop
  | cat r s ihr ihs =>
    refine (ihr (ihs hk)).imp fun m hm d hd => ?_
    obtain ⟨e, hr, f, hs, hf⟩ := hm d hd
    exact ⟨f, ⟨e, hr, hs⟩, hf⟩
  | alt r s ihr ihs =>
    refine .once (.both ((ihr hk).imp fun m hm d hd => ?_) ((ihs hk).imp fun m hm d hd => ?_)) place
    · obtain ⟨e, hr, he⟩ := hm d hd
      exact ⟨e, Or.inl hr, he⟩
    · obtain ⟨e, hs, he⟩ := hm d hd
      exact ⟨e, Or.inr hs, he⟩
  | star r greedy ih =>
    refine .once (.prefer ((ih .stop).imp fun m hm d hd => ?_) (hk.imp fun m hm d hd => ?_) greedy)
      place
    · obtain ⟨e, hr, f, hstar, hf⟩ := hm d hd
      exact ⟨f, .head hr hstar, hf⟩
    · exact ⟨c, .refl, hm d hd⟩
  | plus r greedy ih =>
    have hleave : (Walk.once place k).All fun m => ∀ d, m.Leads c d →
        leadsAll (⟨star r greedy, place⟩ :: todo) c d :=
      (hk.once place).imp fun m hm d hd => ⟨c, .refl, hm d hd⟩
    refine (ih hleave).imp fun m hm d hd => ?_
    obtain ⟨e, hr, f, hstar, hf⟩ := hm d hd
    exact ⟨f, ⟨e, hr, hstar⟩, hf⟩
  | timesZero r => exact hk.imp fun m hm d hd => ⟨c, rfl, hm d hd⟩
  | timesSucc r n ihr ihn =>
    refine (ihr (ihn hk)).imp fun m hm d hd => ?_
    obtain ⟨e, hr, f, hn, hf⟩ := hm d hd
    exact ⟨f, ⟨e, hr, hn⟩, hf⟩
  | upToZero r greedy => exact hk.imp fun m hm d hd => ⟨c, rfl, hm d hd⟩
  | upToSucc r n greedy ihr ihn =>
    rw [explore_upTo_succ]
    refine .once (.prefer ((ihr (ihn hk)).imp fun m hm d hd => ?_) (hk.imp fun m hm d hd => ?_) greedy)
      place
    · obtain ⟨e, hr, f, hn, hf⟩ := hm d hd
      exact ⟨f, Or.inr ⟨e, hr, hn⟩, hf⟩
    · exact ⟨c, Or.inl rfl, hm d hd⟩
  | group index r ih =>
    have hclosing : (Walk.after (index == 1) k).All fun m => ∀ d, m.Leads c d →
        leadsAll (⟨group index empty, place⟩ :: todo) c d :=
      .after (fun m hm d hd => hm d (Move.leads_after.1 hd)) (hk.imp fun m hm d hd => ⟨c, rfl, hm d hd⟩)
    refine (ih hclosing).imp fun m hm d hd => ?_
    obtain ⟨e, hr, f, rfl, hf⟩ := hm d hd
    exact ⟨e, hr, hf⟩

theorem leads_exploreAll (c : Cursor) (todo : List Part) :
    (exploreAll c.gap todo).All fun m => ∀ d, m.Leads c d → leadsAll todo c d := by
  induction todo with
  | nil => exact .single fun _ hd => hd
  | cons part todo ih => exact leads_explore ih

end Regex

theorem leads_of_mem_ways {todos : List (List Part)} {c d : Cursor} {v : Places} {m : Move}
    (hm : m.todo? ∈ ways c.gap todos v) (hd : m.Leads c d) : ∃ todo ∈ todos, leadsAll todo c d := by
  induction todos generalizing v with
  | nil => cases hm
  | cons todo more ih =>
    rcases List.mem_append.1 hm with hm | hm
    · obtain ⟨m', hm', heq⟩ := List.mem_map.1 hm
      have hsame : m'.Leads c d := by
        cases m <;> cases m' <;> simp_all [Move.Leads]
      exact ⟨todo, List.mem_cons_self, leads_exploreAll c todo v m' hm' d hsame⟩
    · obtain ⟨todo', htodo', hlead⟩ := ih hm
      exact ⟨todo', List.mem_cons_of_mem _ htodo', hlead⟩

/-- **What threads read one of them leads over.** -/
theorem leads_of_reads? {todos : List (List Part)} {c : Cursor} {cs : List Char}
    (h : reads? todos c.before.head? c.rest = some cs) :
    ∃ todo ∈ todos, ∃ d, leadsAll todo c d ∧ c.rest = cs ++ d.rest ∧
      d.before = cs.reverse ++ c.before := by
  have hend : none ∈ ways c.gap todos 0 → ∃ todo ∈ todos, leadsAll todo c c :=
    fun hmem => leads_of_mem_ways (m := .exit false) hmem rfl
  induction hrest : c.rest generalizing todos c cs with
  | nil =>
    have hgap : c.gap = ⟨c.before.head?, none⟩ := by rw [Cursor.gap, hrest]; rfl
    rw [hrest, reads?_end_eq_some, ← hgap] at h
    obtain ⟨hmem, rfl⟩ := h
    obtain ⟨todo, htodo, hlead⟩ := hend hmem
    exact ⟨todo, htodo, c, hlead, hrest.symm, rfl⟩
  | cons a rest ih =>
    obtain ⟨e, hnext, rfl⟩ := Cursor.exists_next? hrest
    have hgap : c.gap = ⟨c.before.head?, some a⟩ := by rw [Cursor.gap, hrest]; rfl
    have hbefore := (Cursor.next?_eq_some.1 hnext).2
    have hprev : e.before.head? = some a := by rw [hbefore]; rfl
    rw [hrest] at h
    rcases reads?_cons_eq_some h with ⟨ds, hds, rfl⟩ | ⟨hmem, rfl⟩
    · rw [← hgap, ← hprev] at hds
      obtain ⟨left, hleft, d, hlead, hd, hdb⟩ := ih hds
        (fun hmem => leads_of_mem_ways (m := .exit false) hmem rfl) rfl
      obtain ⟨todo, htodo, hto⟩ := leads_of_mem_ways (m := .read left false)
        (mem_of_mem_going hleft) ⟨a, e, hnext, hlead⟩
      exact ⟨todo, htodo, d, hto, by rw [hd]; rfl, by rw [hdb, hbefore]; simp⟩
    · rw [← hgap] at hmem
      obtain ⟨todo, htodo, hlead⟩ := hend hmem
      exact ⟨todo, htodo, c, hlead, hrest.symm, rfl⟩

theorem exists_leads_of_reads? {r : Regex} {place : Nat} {c : Cursor} {cs : List Char}
    (h : reads? [[⟨r, place⟩]] c.before.head? c.rest = some cs) :
    ∃ d, r.Leads c d ∧ c.rest = cs ++ d.rest := by
  obtain ⟨todo, htodo, d, hlead, hrest, -⟩ := leads_of_reads? h
  rw [List.mem_singleton.1 htodo] at hlead
  obtain ⟨e, hr, rfl⟩ := hlead
  exact ⟨e, hr, hrest⟩

end Highlight
