import Highlight.Proofs.Token.Join
import Mathlib.Data.List.SplitBy

/-!
# Runs of plain tokens

Plain tokens of which each begins where the one before it ends are a `Run`, and so is any token alone. A list falls into
maximal runs in exactly one way (`existsUnique_maximalRuns`), and to join the list is to put one token in the place of
each of them (`MaximalRuns.join_eq`).

Whether a token goes on with a run is told by the end of the last token in it. Nothing is asked of the spans: they may
be empty, overlap, or go back in the text.
-/

namespace Highlight.Token

/-- Both tokens are plain, and the second begins where the first ends. -/
def Touches (t u : Token) : Prop :=
  t.kind = .plain ∧ u.kind = .plain ∧ t.span.stop = u.span.start

theorem touches_iff {t u : Token} : Touches t u ↔ continues t u = true := by
  rw [continues_iff]
  exact and_left_comm

/-- A token alone, or plain tokens of which each touches the next. -/
structure Run where
  first : Token
  more : List Token
  touching : (first :: more).IsChain Touches

namespace Run

def tokens (r : Run) : List Token :=
  r.first :: r.more

theorem tokens_ne_nil (r : Run) : r.tokens ≠ [] :=
  List.cons_ne_nil _ _

def last (r : Run) : Token :=
  r.tokens.getLast r.tokens_ne_nil

/-- The token in the place of a run: its first token, with the values of all, up to the end of the last. -/
def token (r : Run) : Token :=
  { r.first with
    value := String.join (r.tokens.map Token.value)
    span := ⟨r.first.span.start, r.last.span.stop⟩ }

theorem tokens_injective : Function.Injective tokens := by
  intro r s h
  obtain ⟨t, ts, hts⟩ := r
  obtain ⟨u, us, hus⟩ := s
  obtain ⟨rfl, rfl⟩ := List.cons.inj h
  rfl

def single (t : Token) : Run :=
  ⟨t, [], List.isChain_singleton t⟩

@[simp] theorem token_single (t : Token) : (single t).token = t := by
  obtain ⟨kind, label, value, span, children⟩ := t
  simp [single, token, tokens, last, String.join_cons]

/-- The run with one more token in front. -/
def cons (t : Token) (r : Run) (h : Touches t r.first) : Run :=
  ⟨t, r.tokens, List.isChain_cons_cons.2 ⟨h, r.touching⟩⟩

section

variable {t : Token} {r : Run} (h : Touches t r.first)

theorem tokens_cons : (cons t r h).tokens = t :: r.tokens := rfl

@[simp] theorem last_cons : (cons t r h).last = r.last :=
  List.getLast_cons_cons

theorem token_cons : (cons t r h).token = extend t r.token := by
  rw [token, tokens_cons, last_cons, List.map_cons, String.join_cons]
  rfl

end

theorem kind_of_mem {t u : Token} {ts : List Token} (h : (t :: u :: ts).IsChain Touches) {v : Token}
    (hv : v ∈ t :: u :: ts) : v.kind = .plain := by
  induction ts generalizing t u with
  | nil =>
    obtain ⟨ht, hu, -⟩ := (List.isChain_cons_cons.1 h).1
    simp only [List.mem_cons, List.not_mem_nil, or_false] at hv
    rcases hv with rfl | rfl
    · exact ht
    · exact hu
  | cons w ws ih =>
    obtain ⟨⟨ht, -, -⟩, hmore⟩ := List.isChain_cons_cons.1 h
    rcases List.mem_cons.1 hv with rfl | hv
    · exact ht
    · exact ih hmore hv

/-- **A run is one token, which stands for itself, or all of it is plain.** -/
theorem tokens_eq_or_plain (r : Run) : r.tokens = [r.token] ∨ ∀ t ∈ r.tokens, t.kind = .plain := by
  obtain ⟨t, ts, hts⟩ := r
  cases ts with
  | nil => exact Or.inl (congrArg (fun u => [u]) (token_single t).symm)
  | cons u us => exact Or.inr fun v hv => kind_of_mem hts hv

end Run

/-- The list falls into the runs, and no run goes on with the next one. -/
structure MaximalRuns (ts : List Token) (runs : List Run) : Prop where
  tokens : runs.flatMap Run.tokens = ts
  maximal : runs.IsChain fun r s => ¬ Touches r.last s.first

namespace MaximalRuns

variable {ts : List Token} {runs : List Run}

/-- The maximal runs are the parts that the list is split into where a token does not continue the one before it. -/
theorem splitBy_eq (h : MaximalRuns ts runs) : ts.splitBy continues = runs.map Run.tokens := by
  rw [List.splitBy_eq_iff]
  refine ⟨?_, ?_, ?_, ?_⟩
  · rw [← List.flatMap_def, h.tokens]
  · intro hnil
    obtain ⟨r, -, hr⟩ := List.mem_map.1 hnil
    exact r.tokens_ne_nil hr
  · intro us hus
    obtain ⟨r, -, rfl⟩ := List.mem_map.1 hus
    exact r.touching.imp fun t u htu => touches_iff.1 htu
  · rw [List.isChain_map]
    refine h.maximal.imp fun r s hrs => ⟨r.tokens_ne_nil, s.tokens_ne_nil, ?_⟩
    rw [touches_iff, Bool.not_eq_true] at hrs
    exact hrs

theorem eq {runs' : List Run} (h : MaximalRuns ts runs) (h' : MaximalRuns ts runs') : runs = runs' :=
  Run.tokens_injective.list_map (h.splitBy_eq.symm.trans h'.splitBy_eq)

end MaximalRuns

theorem exists_maximalRuns (ts : List Token) :
    ∃ runs, MaximalRuns ts runs ∧ join ts = runs.map Run.token := by
  induction ts with
  | nil => exact ⟨[], ⟨rfl, List.isChain_nil⟩, rfl⟩
  | cons t ts ih =>
    obtain ⟨runs, ⟨htokens, hmaximal⟩, hjoin⟩ := ih
    rw [join_cons, hjoin]
    cases runs with
    | nil =>
      refine ⟨[.single t], ⟨?_, List.isChain_singleton _⟩, ?_⟩
      · rw [← htokens]
        rfl
      · simp [attach]
    | cons r rs =>
      have hcontinues : continues t r.token = continues t r.first := rfl
      rw [List.map_cons, attach, hcontinues]
      by_cases h : Touches t r.first
      · -- the token goes in front of the first run, and what is behind it stays behind the same last token
        refine ⟨.cons t r h :: rs, ⟨?_, ?_⟩, ?_⟩
        · rw [List.flatMap_cons, Run.tokens_cons, List.cons_append, ← List.flatMap_cons, htokens]
        · rw [List.isChain_cons] at hmaximal ⊢
          rwa [Run.last_cons]
        · rw [if_pos (touches_iff.1 h), List.map_cons, Run.token_cons]
      · refine ⟨.single t :: r :: rs, ⟨?_, ?_⟩, ?_⟩
        · rw [List.flatMap_cons, htokens]
          rfl
        · exact List.isChain_cons_cons.2 ⟨h, hmaximal⟩
        · rw [if_neg (mt touches_iff.2 h), List.map_cons, Run.token_single, List.map_cons]

/-- **A list falls into maximal runs in one way.** -/
theorem existsUnique_maximalRuns (ts : List Token) : ∃! runs, MaximalRuns ts runs := by
  obtain ⟨runs, h, -⟩ := exists_maximalRuns ts
  exact ⟨runs, h, fun _ h' => h'.eq h⟩

/-- **Joining puts one token in the place of each maximal run.** -/
theorem MaximalRuns.join_eq {ts : List Token} {runs : List Run} (h : MaximalRuns ts runs) :
    join ts = runs.map Run.token := by
  obtain ⟨runs', h', hjoin⟩ := exists_maximalRuns ts
  rw [hjoin, h.eq h']

end Highlight.Token
