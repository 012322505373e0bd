import Highlight.Proofs.Regex.Leads

/-!
# Expressions of finitely many texts

Without loops, and with sets that are given character by character, the texts that an expression can read are
told by its form (`Regex.texts?`). Without assertions it leads over each of them, wherever it stands
(`Regex.leadsOver_of_mem_texts`). Not all of them need be read, since some way of matching may always be
preferred to the one that reads a text. `threadsBehind` are the threads that are left when a text has been read.
Where none is left, nothing that goes over the text is read (`threadsBehind_ne_nil`).
-/

namespace Highlight

/-! ## The texts of an expression -/

/-- The characters of a set that is given character by character. -/
def CharSet.chars? : CharSet → Option (List Char)
  | range first last => if first = last then some [first] else none
  | union a b => do return (← a.chars?) ++ (← b.chars?)
  | _ => none

theorem CharSet.mem_chars {S : CharSet} {cs : List Char} (h : S.chars? = some cs) {a : Char}
    (ha : S.mem a = true) : a ∈ cs := by
  induction S generalizing cs with
  | range first last =>
    rw [chars?] at h
    split at h
    · next heq =>
      cases h
      subst heq
      rw [List.mem_singleton]
      exact of_decide_eq_true (mem_single ▸ ha)
    · cases h
  | union S T ihS ihT =>
    obtain ⟨us, hus, h⟩ := Option.bind_eq_some_iff.1 h
    obtain ⟨vs, hvs, h⟩ := Option.bind_eq_some_iff.1 h
    cases h
    rcases (Bool.or_eq_true _ _).mp ha with ha | ha
    · exact List.mem_append_left vs (ihS hus ha)
    · exact List.mem_append_right us (ihT hvs ha)
  | inter S T | diff S T | compl S | fold S => cases h

theorem CharSet.mem_of_mem_chars {S : CharSet} {cs : List Char} (h : S.chars? = some cs) {a : Char}
    (ha : a ∈ cs) : S.mem a = true := by
  induction S generalizing cs with
  | range first last =>
    rw [chars?] at h
    split at h
    · next heq =>
      cases h
      subst heq
      rw [List.mem_singleton.1 ha]
      exact mem_single.trans (decide_eq_true rfl)
    · cases h
  | union S T ihS ihT =>
    obtain ⟨us, hus, h⟩ := Option.bind_eq_some_iff.1 h
    obtain ⟨vs, hvs, h⟩ := Option.bind_eq_some_iff.1 h
    cases h
    rw [mem, Bool.or_eq_true]
    exact (List.mem_append.1 ha).imp (ihS hus) (ihT hvs)
  | inter S T | diff S T | compl S | fold S => cases h

namespace Regex

/-- Each of the first texts with each of the second ones behind it. -/
def both (us vs : List (List Char)) : List (List Char) :=
  us.flatMap fun u => vs.map (u ++ ·)

theorem append_mem_both {us vs : List (List Char)} {u v : List Char} (hu : u ∈ us) (hv : v ∈ vs) :
    u ++ v ∈ both us vs :=
  List.mem_flatMap.2 ⟨u, hu, List.mem_map.2 ⟨v, hv, rfl⟩⟩

theorem mem_both {us vs : List (List Char)} {w : List Char} (h : w ∈ both us vs) :
    ∃ u ∈ us, ∃ v ∈ vs, w = u ++ v := by
  obtain ⟨u, hu, hw⟩ := List.mem_flatMap.1 h
  obtain ⟨v, hv, rfl⟩ := List.mem_map.1 hw
  exact ⟨u, hu, v, hv, rfl⟩

/-- The texts that an expression can read, if its form tells them. -/
def texts? : Regex → Option (List (List Char))
  | empty => some [[]]
  | set S => S.chars?.map (·.map ([·]))
  | look _ => some [[]]
  | cat r s => do return both (← r.texts?) (← s.texts?)
  | alt r s => do return (← r.texts?) ++ (← s.texts?)
  | star _ _ => none
  | plus _ _ => none
  | times r n => do
    let us ← r.texts?
    return n.rec [[]] fun _ more => both us more
  | upTo r n _ => do
    let us ← r.texts?
    return n.rec [[]] fun _ more => [] :: both us more
  | group _ r => r.texts?

/-- **An expression leads over its texts only.** -/
theorem mem_texts_of_leads {r : Regex} {us : List (List Char)} (h : r.texts? = some us) {c d : Cursor}
    (hlead : r.Leads c d) : ∃ u ∈ us, c.rest = u ++ d.rest := by
  induction r generalizing us c d with
  | empty =>
    cases h
    obtain rfl : c = d := hlead
    exact ⟨[], List.mem_singleton_self [], rfl⟩
  | set S =>
    obtain ⟨cs, hcs, rfl⟩ := Option.map_eq_some_iff.1 h
    obtain ⟨a, hnext, ha⟩ := hlead
    exact ⟨[a], List.mem_map_of_mem (CharSet.mem_chars hcs ha), (Cursor.next?_eq_some.1 hnext).1⟩
  | look a =>
    cases h
    obtain ⟨rfl, -⟩ := hlead
    exact ⟨[], List.mem_singleton_self [], rfl⟩
  | cat r s ihr ihs =>
    obtain ⟨us, hus, h⟩ := Option.bind_eq_some_iff.1 h
    obtain ⟨vs, hvs, h⟩ := Option.bind_eq_some_iff.1 h
    cases h
    obtain ⟨e, hr, hs⟩ := hlead
    obtain ⟨u, hu, hce⟩ := ihr hus hr
    obtain ⟨v, hv, hed⟩ := ihs hvs hs
    exact ⟨u ++ v, append_mem_both hu hv, by rw [hce, hed, List.append_assoc]⟩
  | alt r s ihr ihs =>
    obtain ⟨us, hus, h⟩ := Option.bind_eq_some_iff.1 h
    obtain ⟨vs, hvs, h⟩ := Option.bind_eq_some_iff.1 h
    cases h
    rcases hlead with hlead | hlead
    · obtain ⟨u, hu, hcd⟩ := ihr hus hlead
      exact ⟨u, List.mem_append_left vs hu, hcd⟩
    · obtain ⟨v, hv, hcd⟩ := ihs hvs hlead
      exact ⟨v, List.mem_append_right us hv, hcd⟩
  | star r greedy _ => cases h
  | plus r greedy _ => cases h
  | times r n ih =>
    obtain ⟨us, hus, heq⟩ := Option.bind_eq_some_iff.1 h
    cases heq
    clear h
    induction n generalizing c with
    | zero =>
      obtain rfl : c = d := hlead
      exact ⟨[], List.mem_singleton_self [], rfl⟩
    | succ n ihn =>
      obtain ⟨e, hr, hn⟩ := hlead
      obtain ⟨u, hu, hce⟩ := ih hus hr
      obtain ⟨v, hv, hed⟩ := ihn hn
      exact ⟨u ++ v, append_mem_both hu hv, by rw [hce, hed, List.append_assoc]⟩
  | upTo r n greedy ih =>
    obtain ⟨us, hus, heq⟩ := Option.bind_eq_some_iff.1 h
    cases heq
    clear h
    induction n generalizing c with
    | zero =>
      obtain rfl : c = d := hlead
      exact ⟨[], List.mem_singleton_self [], rfl⟩
    | succ n ihn =>
      rcases hlead with rfl | ⟨e, hr, hn⟩
      · exact ⟨[], List.mem_cons_self, rfl⟩
      · obtain ⟨u, hu, hce⟩ := ih hus hr
        obtain ⟨v, hv, hed⟩ := ihn hn
        exact ⟨u ++ v, List.mem_cons_of_mem _ (append_mem_both hu hv),
          by rw [hce, hed, List.append_assoc]⟩
  | group index r ih => exact ih h hlead

end Regex

/-- Expressions that demand nothing of the positions that they are passed at. -/
def Vocabulary.lookless : Vocabulary where
  looks := fun _ => false

/-- The relation leads over the text, wherever it stands. -/
def LeadsOver (R : Cursor → Cursor → Prop) (u : List Char) : Prop :=
  ∀ before rest, R (.behind before (u ++ rest)) (.behind (before ++ u) rest)

namespace LeadsOver

variable {R S : Cursor → Cursor → Prop} {u v : List Char}

theorem nil (hR : ∀ c, R c c) : LeadsOver R [] := by
  intro before rest
  rw [List.append_nil]
  exact hR _

theorem comp (hR : LeadsOver R u) (hS : LeadsOver S v) : LeadsOver (Relation.Comp R S) (u ++ v) := by
  intro before rest
  rw [List.append_assoc, ← List.append_assoc before]
  exact ⟨_, hR before (v ++ rest), hS (before ++ u) rest⟩

theorem of_set {S : CharSet} {a : Char} (ha : S.mem a = true) : LeadsOver (Regex.set S).Leads [a] :=
  fun before rest => ⟨a, Cursor.next?_behind before a rest, ha⟩

end LeadsOver

/-- **An expression that demands nothing leads over each of its texts.** -/
theorem Regex.leadsOver_of_mem_texts {r : Regex} (hr : r.isOver .lookless = true)
    {us : List (List Char)} (h : r.texts? = some us) {u : List Char} (hu : u ∈ us) :
    LeadsOver r.Leads u := by
  induction r generalizing us u with
  | empty =>
    cases h
    rw [List.mem_singleton.1 hu]
    exact .nil fun _ => rfl
  | set S =>
    obtain ⟨cs, hcs, rfl⟩ := Option.map_eq_some_iff.1 h
    obtain ⟨a, ha, rfl⟩ := List.mem_map.1 hu
    exact .of_set (CharSet.mem_of_mem_chars hcs ha)
  | look a => cases hr
  | cat r s ihr ihs =>
    obtain ⟨hr, hs⟩ := (Bool.and_eq_true _ _).mp hr
    obtain ⟨us, hus, h⟩ := Option.bind_eq_some_iff.1 h
    obtain ⟨vs, hvs, h⟩ := Option.bind_eq_some_iff.1 h
    cases h
    obtain ⟨v, hv, w, hw, rfl⟩ := mem_both hu
    exact .comp (ihr hr hus hv) (ihs hs hvs hw)
  | alt r s ihr ihs =>
    obtain ⟨hr, hs⟩ := (Bool.and_eq_true _ _).mp hr
    obtain ⟨us, hus, h⟩ := Option.bind_eq_some_iff.1 h
    obtain ⟨vs, hvs, h⟩ := Option.bind_eq_some_iff.1 h
    cases h
    intro before rest
    rcases List.mem_append.1 hu with hu | hu
    · exact Or.inl (ihr hr hus hu before rest)
    · exact Or.inr (ihs hs hvs hu before rest)
  | star r greedy _ => cases h
  | plus r greedy _ => cases h
  | times r n ih =>
    obtain ⟨vs, hvs, heq⟩ := Option.bind_eq_some_iff.1 h
    cases heq
    clear h
    induction n generalizing u with
    | zero =>
      rw [List.mem_singleton.1 hu]
      exact .nil fun _ => rfl
    | succ n ihn =>
      have hpass : r.isOver .lookless = true := by simpa [isOver] using hr
      have hmore : (times r n).isOver .lookless = true := by simp [isOver, hpass]
      obtain ⟨v, hv, w, hw, rfl⟩ := mem_both hu
      exact .comp (ih hpass hvs hv) (ihn hmore hw)
  | upTo r n greedy ih =>
    obtain ⟨vs, hvs, heq⟩ := Option.bind_eq_some_iff.1 h
    cases heq
    clear h
    induction n generalizing u with
    | zero =>
      rw [List.mem_singleton.1 hu]
      exact .nil fun _ => rfl
    | succ n ihn =>
      have hpass : r.isOver .lookless = true := by simpa [isOver] using hr
      have hmore : (upTo r n greedy).isOver .lookless = true := by simp [isOver, hpass]
      rcases List.mem_cons.1 hu with rfl | hu
      · exact .nil fun _ => Or.inl rfl
      · obtain ⟨v, hv, w, hw, rfl⟩ := mem_both hu
        have hpasses := LeadsOver.comp (ih hpass hvs hv) (ihn hmore hw)
        exact fun before rest => Or.inr (hpasses before rest)
  | group index r ih =>
    obtain ⟨-, hr⟩ := (Bool.and_eq_true _ _).mp hr
    exact ih hr h hu

/-- The expression demands nothing, and the text is one of those that it can read. -/
def Regex.spells (r : Regex) (u : List Char) : Bool :=
  r.isOver .lookless && r.texts?.any (u ∈ ·)

theorem Regex.leadsOver_of_spells {r : Regex} {u : List Char} (h : r.spells u = true) :
    LeadsOver r.Leads u := by
  obtain ⟨hr, hu⟩ := (Bool.and_eq_true _ _).mp h
  obtain ⟨us, hus, hu⟩ := Option.any_eq_true .. |>.1 hu
  exact leadsOver_of_mem_texts hr hus (of_decide_eq_true hu)

theorem mem_texts_of_reads? {r : Regex} {us : List (List Char)} (h : r.texts? = some us) {place : Nat}
    {prev : Option Char} {rest cs : List Char} (hreads : reads? [[⟨r, place⟩]] prev rest = some cs) :
    cs ∈ us := by
  obtain ⟨c, rfl, rfl⟩ : ∃ c : Cursor, c.before.head? = prev ∧ c.rest = rest :=
    ⟨⟨prev.toList, rest, _, rfl⟩, by cases prev <;> rfl, rfl⟩
  obtain ⟨d, hlead, hrest⟩ := exists_leads_of_reads? hreads
  obtain ⟨u, hu, hcd⟩ := Regex.mem_texts_of_leads h hlead
  rwa [List.append_cancel_right (hrest.symm.trans hcd)]

/-! ## Threads behind a text -/

/-- What the threads that are left behind a text owe. -/
def threadsBehind (todos : List (List Part)) (prev : Option Char) : List Char → List (List Part)
  | [] => todos
  | a :: cs => threadsBehind (going (ways ⟨prev, some a⟩ todos 0)) (some a) cs

/-- **What is read leaves threads behind each text that it begins with.** -/
theorem threadsBehind_ne_nil {todos : List (List Part)} {prev : Option Char} {cs rest more : List Char}
    (h : reads? todos prev rest = some (cs ++ more)) : threadsBehind todos prev cs ≠ [] := by
  induction cs generalizing todos prev rest with
  | nil =>
    rw [threadsBehind]
    rintro rfl
    rw [reads?_nil] at h
    cases h
  | cons a cs ih =>
    cases rest with
    | nil => cases (reads?_end_eq_some.1 h).2
    | cons b rest =>
      rcases reads?_cons_eq_some h with ⟨ds, hds, heq⟩ | ⟨-, heq⟩
      · obtain ⟨rfl, rfl⟩ := List.cons.inj heq
        exact ih hds
      · cases heq

/-- Whatever stands before it, the expression leaves no threads behind the text. -/
def Regex.isGivenUp (r : Regex) (cs : List Char) : Bool :=
  (threadsBehind [[⟨r, 0⟩]] none cs).isEmpty && (threadsBehind [[⟨r, 0⟩]] (some 'a') cs).isEmpty

theorem ne_of_isGivenUp {r : Regex} (hr : r.isOver .unanchored = true) {cs : List Char}
    (h : r.isGivenUp cs = true) {prev : Option Char} {rest : List Char} :
    reads? [[⟨r, 0⟩]] prev rest ≠ some cs := by
  intro hreads
  obtain ⟨hnone, hword⟩ := (Bool.and_eq_true _ _).mp h
  have hall : reads? [[⟨r, 0⟩]] prev rest = some (cs ++ []) := by rwa [List.append_nil]
  refine threadsBehind_ne_nil hall ?_
  cases cs with
  | nil => exact List.isEmpty_iff.1 hnone
  | cons a cs =>
    rw [threadsBehind] at hnone hword ⊢
    rcases confuses_none_or_word prev (some a) with hlike | hlike
    · rw [ways_congr hlike (Vocabulary.spells_singleton hr 0), List.isEmpty_iff.1 hnone]
    · rw [ways_congr hlike (Vocabulary.spells_singleton hr 0), List.isEmpty_iff.1 hword]

end Highlight
