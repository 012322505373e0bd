import Highlight.Token.Basic
import Mathlib.Data.List.Chain

/-!
# Joining plain text

`join` builds a list newest token first and merges what it can with the newest token. Read from the front, a token is
put before the list that the later tokens make: `attach` merges it with the first of them, and `join_cons` says that
this comes to the same.

* `join_join_append_cons_join`: the parts of a list can be joined beforehand.
* `isChain_join`: no token of the result continues the one before it.
* `join_map`: a change that tokens are joined after as before does not matter for the list.
* `filter_join`, `values_join`: the tokens that are not plain stay as they are, and the values make up the same text.
* `exists_sameStart_of_mem_join`: what the result holds begins as something that was given.
-/

namespace Highlight.Token

theorem continues_iff {last t : Token} :
    continues last t = true ↔
      t.kind = .plain ∧ last.kind = .plain ∧ last.span.stop = t.span.start := by
  simp [continues, isPlain, and_assoc]

/-- Puts a token in front of a list; plain text that the list continues becomes part of its first token. -/
def attach (t : Token) : List Token → List Token
  | [] => [t]
  | u :: us => if continues t u then extend t u :: us else t :: u :: us

theorem continues_extend {t u v : Token} (htu : continues t u = true) :
    continues (extend t u) v = continues u v := by
  obtain ⟨hu, ht, -⟩ := continues_iff.1 htu
  simp [continues, extend, isPlain, ht, hu]

theorem extend_extend (t u v : Token) : extend (extend t u) v = extend t (extend u v) := by
  simp [extend, String.append_assoc]

theorem attach_extend {t u : Token} (htu : continues t u = true) (us : List Token) :
    attach (extend t u) us = attach t (attach u us) := by
  cases us with
  | nil => simp [attach, htu]
  | cons v vs =>
    by_cases huv : continues u v = true
    · have htuv : continues (extend t u) v = true := (continues_extend htu).trans huv
      have ht : continues t (extend u v) = true := htu
      simp [attach, huv, htuv, ht, extend_extend]
    · have htuv : ¬ continues (extend t u) v = true := by rwa [continues_extend htu]
      simp [attach, huv, htuv, htu]

theorem attach_attach_of_not {t u : Token} (htu : ¬ continues t u = true) (us : List Token) :
    attach t (attach u us) = t :: attach u us := by
  cases us with
  | nil => simp [attach, htu]
  | cons v vs =>
    by_cases huv : continues u v = true
    · have ht : ¬ continues t (extend u v) = true := htu
      simp [attach, huv, ht]
    · simp [attach, huv, htu]

theorem reverse_foldl_push (ts : List Token) (t : Token) (older : List Token) :
    (ts.foldl push (t :: older)).reverse = older.reverse ++ attach t (join ts) := by
  induction ts generalizing t older with
  | nil => simp [join, attach]
  | cons u us ih =>
    have hjoin : join (u :: us) = attach u (join us) := by
      rw [join, List.foldl_cons]
      exact (ih u []).trans (List.nil_append _)
    rw [List.foldl_cons, hjoin, push]
    by_cases htu : continues t u = true
    · rw [if_pos htu, ih, attach_extend htu]
    · rw [if_neg htu, ih, attach_attach_of_not htu, List.reverse_cons, List.append_assoc]
      rfl

/-- **Read from the front**, a token is put before what the later tokens make. -/
theorem join_cons (t : Token) (ts : List Token) : join (t :: ts) = attach t (join ts) := by
  rw [join, List.foldl_cons]
  exact (reverse_foldl_push ts t []).trans (List.nil_append _)

theorem join_join_append (ts us : List Token) : join (join ts ++ us) = join (ts ++ us) := by
  induction ts with
  | nil => rfl
  | cons t ts ih =>
    rw [List.cons_append, join_cons, join_cons, ← ih]
    cases join ts with
    | nil => exact join_cons t us
    | cons u us' =>
      rw [attach]
      split
      · next htu => rw [List.cons_append, List.cons_append, join_cons, join_cons, attach_extend htu]
      · rw [List.cons_append, join_cons]

theorem join_join (ts : List Token) : join (join ts) = join ts := by
  have h := join_join_append ts []
  rwa [List.append_nil, List.append_nil] at h

theorem join_append_join (ts us : List Token) : join (ts ++ join us) = join (ts ++ us) := by
  induction ts with
  | nil => exact join_join us
  | cons t ts ih => rw [List.cons_append, List.cons_append, join_cons, join_cons, ih]

theorem join_join_append_cons_join (ts : List Token) (t : Token) (us : List Token) :
    join (join ts ++ t :: join us) = join (ts ++ t :: us) := by
  rw [join_join_append, List.append_cons, join_append_join, ← List.append_cons]

theorem join_eq_self {ts : List Token} (h : ∀ t ∈ ts, t.isPlain = false) : join ts = ts := by
  induction ts with
  | nil => rfl
  | cons t ts ih =>
    obtain ⟨ht, hts⟩ := List.forall_mem_cons.1 h
    rw [join_cons, ih hts]
    cases ts with
    | nil => rfl
    | cons u us => simp [attach, continues, ht]

/-! ## What has been joined -/

theorem isChain_attach {t : Token} {us : List Token} (h : us.IsChain fun t u => ¬ continues t u = true) :
    (attach t us).IsChain fun t u => ¬ continues t u = true := by
  cases us with
  | nil => exact List.isChain_singleton t
  | cons u us =>
    rw [attach]
    split
    · next htu =>
      cases us with
      | nil => exact List.isChain_singleton _
      | cons v vs =>
        rw [List.isChain_cons_cons] at h ⊢
        rwa [continues_extend htu]
    · next htu => exact List.isChain_cons_cons.2 ⟨htu, h⟩

/-- **Nothing is left to join** in a list that has been joined. -/
theorem isChain_join (ts : List Token) : (join ts).IsChain fun t u => ¬ continues t u = true := by
  induction ts with
  | nil => exact List.isChain_nil
  | cons t ts ih =>
    rw [join_cons]
    exact isChain_attach ih

/-! ## Changing the tokens -/

section

variable {f : Token → Token}

theorem attach_map (hcontinues : ∀ t u, continues (f t) (f u) = continues t u)
    (hextend : ∀ t u, extend (f t) (f u) = f (extend t u)) (t : Token) (us : List Token) :
    attach (f t) (us.map f) = (attach t us).map f := by
  cases us with
  | nil => rfl
  | cons u us =>
    rw [List.map_cons, attach, attach, hcontinues, hextend]
    split <;> rfl

/-- **A change of all tokens** that they join after as before can be made before or after they are joined. -/
theorem join_map (hcontinues : ∀ t u, continues (f t) (f u) = continues t u)
    (hextend : ∀ t u, extend (f t) (f u) = f (extend t u)) (ts : List Token) :
    join (ts.map f) = (join ts).map f := by
  induction ts with
  | nil => rfl
  | cons t ts ih => rw [List.map_cons, join_cons, join_cons, ih, attach_map hcontinues hextend]

end

/-! ## What becomes of the tokens -/

theorem filter_attach (t : Token) (us : List Token) :
    (attach t us).filter (fun u => !u.isPlain) = (t :: us).filter (fun u => !u.isPlain) := by
  cases us with
  | nil => rfl
  | cons u us =>
    rw [attach]
    split
    · next htu =>
      obtain ⟨hu, ht, -⟩ := continues_iff.1 htu
      simp [extend, isPlain, hu, ht]
    · rfl

/-- **The tokens that are not plain stay as they are.** -/
theorem filter_join (ts : List Token) :
    (join ts).filter (fun t => !t.isPlain) = ts.filter (fun t => !t.isPlain) := by
  induction ts with
  | nil => rfl
  | cons t ts ih =>
    rw [join_cons, filter_attach, List.filter_cons, List.filter_cons, ih]

theorem values_attach (t : Token) (us : List Token) :
    String.join ((attach t us).map value) = t.value ++ String.join (us.map value) := by
  cases us with
  | nil => rw [attach, List.map_singleton, String.join_cons]; rfl
  | cons u us =>
    rw [attach]
    split
    · rw [List.map_cons, List.map_cons, String.join_cons, String.join_cons, ← String.append_assoc]
      rfl
    · rw [List.map_cons, String.join_cons]

/-- **The values make up the same text.** -/
theorem values_join (ts : List Token) :
    String.join ((join ts).map value) = String.join (ts.map value) := by
  induction ts with
  | nil => rfl
  | cons t ts ih => rw [join_cons, values_attach, ih, List.map_cons, String.join_cons]

theorem mem_join_of_not_isPlain {t : Token} (ht : t.isPlain = false) {ts : List Token} :
    t ∈ join ts ↔ t ∈ ts := by
  have h : ∀ us : List Token, t ∈ us ↔ t ∈ us.filter fun t => !t.isPlain := by
    intro us
    rw [List.mem_filter]
    exact ⟨fun hm => ⟨hm, by rw [ht]; rfl⟩, And.left⟩
  rw [h, filter_join, ← h]

/-- Both tokens begin at one place and agree but for their ends. -/
structure SameStart (t u : Token) : Prop where
  kind : t.kind = u.kind
  label : t.label = u.label
  start : t.span.start = u.span.start
  children : t.children = u.children

/-- **What the result holds begins as something that was given.** -/
theorem exists_sameStart_of_mem_join {t : Token} {ts : List Token} (h : t ∈ join ts) :
    ∃ u ∈ ts, SameStart t u := by
  induction ts generalizing t with
  | nil => cases h
  | cons v vs ih =>
    rw [join_cons] at h
    have hself : t ∈ join vs → ∃ u ∈ v :: vs, SameStart t u := by
      intro hm
      obtain ⟨u, hu, hsame⟩ := ih hm
      exact ⟨u, List.mem_cons_of_mem v hu, hsame⟩
    cases hj : join vs with
    | nil =>
      rw [hj, attach, List.mem_singleton] at h
      exact ⟨v, List.mem_cons_self, by rw [h]; exact ⟨rfl, rfl, rfl, rfl⟩⟩
    | cons w ws =>
      rw [hj, attach] at h
      rw [hj] at hself
      split at h
      · rcases List.mem_cons.1 h with rfl | h
        · exact ⟨v, List.mem_cons_self, rfl, rfl, rfl, rfl⟩
        · exact hself (List.mem_cons_of_mem w h)
      · rcases List.mem_cons.1 h with rfl | h
        · exact ⟨t, List.mem_cons_self, rfl, rfl, rfl, rfl⟩
        · exact hself h

end Highlight.Token
