import Highlight.Proofs.Partition
import Highlight.Proofs.Rescan
import Mathlib.Data.List.Perm.Subperm

/-!
# How tokens nest

Dividing the texts of greedy tokens again gives these tokens children and does nothing else
(`Grammar.tokenize_withoutChildren`).

Below a token its rule is left out, so along a path of a token tree no kind is met twice, and all but the last are
kinds of greedy rules. There are only so many of these (`Grammar.length_above_le`), which bounds the depth of the
trees. `Grammar.nested_of_occurs` collects what holds of a token and the tokens above it.
-/

namespace Highlight

/-- The token without what is below it. -/
def Token.withoutChildren (t : Token) : Token :=
  { t with children := [] }

theorem Token.join_map_withoutChildren (ts : List Token) :
    join (ts.map withoutChildren) = (join ts).map withoutChildren :=
  join_map (f := withoutChildren) (fun _ _ => rfl) (fun _ _ => rfl) ts

theorem Piece.withoutChildren_token (base : Nat) (children : Entry → List Token) (p : Piece) :
    (p.token base children).withoutChildren = p.token base fun _ => [] := by
  rw [Token.withoutChildren, token, token]
  cases p.claim <;> rfl

theorem tokensBy_false (entries : List Entry) (base : Nat) (text : List Char) :
    tokensBy cutAfresh false entries base text =
      (tokensBy cutAfresh true entries base text).map Token.withoutChildren := by
  rw [tokensBy_eq, tokensBy_eq, ← Token.join_map_withoutChildren, List.map_map]
  congr 1
  apply List.map_congr_left
  intro p _
  exact (Piece.withoutChildren_token base (childrenBy true entries base p) p).symm

/-- **Rescanning adds children and nothing else.** Without it the tokens are those at the top with it, and there are
none below them. -/
theorem Grammar.tokenize_withoutChildren (g : Grammar) (source : String) :
    g.tokenize source false = (g.tokenize source true).map Token.withoutChildren ∧
      (g.tokenize source false).map (fun t => (t.kind, t.label, t.value, t.span)) =
        (g.tokenize source true).map (fun t => (t.kind, t.label, t.value, t.span)) ∧
      ∀ above t, Token.Occurs (g.tokenize source false) above t → above = [] ∧ t.children = [] := by
  have htokens : g.tokenize source false = (g.tokenize source true).map Token.withoutChildren := by
    rw [tokenize_eq, tokenize_eq, tokensBy_false]
  refine ⟨htokens, ?_, ?_⟩
  · rw [htokens, List.map_map]
    rfl
  · intro above t h
    induction h with
    | top h =>
      rw [htokens] at h
      obtain ⟨u, -, rfl⟩ := List.mem_map.1 h
      exact ⟨rfl, rfl⟩
    | child _ h ih =>
      rw [ih.2] at h
      cases h

/-- The string `"t"` stands without the tokens of its text if nothing is divided again. -/
theorem Moonli.tokenize_string_withoutChildren :
    ∃ t, Token.Occurs (Moonli.grammar.tokenize "\"t\"" false) [] t ∧ t.kind = .string ∧
      t.children = [] := by
  have hfirst : ∃ t ∈ Moonli.grammar.tokenize "\"t\"" false, t.kind = .string := by
    decide +kernel
  obtain ⟨t, ht, hkind⟩ := hfirst
  exact ⟨t, .top ht, hkind,
    ((Grammar.tokenize_withoutChildren Moonli.grammar "\"t\"").2.2 [] t (.top ht)).2⟩

/-! ## The tokens above a token -/

theorem exists_greedy_of_mem {rescan : Bool} {entries : List Entry} {base : Nat} {text : List Char}
    {t : Token} (hentries : ∀ e ∈ entries, e.kind ≠ .plain)
    (h : t ∈ tokensBy cutAfresh rescan entries base text) (hchildren : t.children ≠ []) :
    ∃ e ∈ entries, e.kind = t.kind ∧ e.pattern.greedy = true := by
  obtain ⟨e, b, v, w, -, -, -, hclaim, rfl⟩ := exists_claim?_of_mem hentries h fun _ => hchildren
  exact ⟨e, (of_claim? hclaim).1, rfl, greedy_of_childrenBy_ne_nil hchildren⟩

/-- The rule has a greedy pattern. -/
def Rule.isGreedy (rule : Rule) : Bool :=
  rule.patterns.any fun x => x.2.greedy

namespace Grammar

/-- The kinds whose tokens may have children. -/
def greedyKinds (g : Grammar) : List Kind :=
  (g.rules.filter fun r => r.2.isGreedy).map Prod.fst

theorem mem_greedyKinds {g : Grammar} {e : Entry} (he : e ∈ g.entries)
    (hgreedy : e.pattern.greedy = true) : e.kind ∈ g.greedyKinds := by
  obtain ⟨⟨kind, rule⟩, hrule, hmem⟩ := List.mem_flatMap.1 he
  obtain ⟨x, hx, rfl⟩ := List.mem_map.1 hmem
  have hany : rule.isGreedy = true := List.any_eq_true.2 ⟨x, hx, hgreedy⟩
  exact List.mem_map.2 ⟨(kind, rule), List.mem_filter.2 ⟨hrule, hany⟩, rfl⟩

variable {g : Grammar} {source : String} {rescan : Bool} {above : List Token} {t : Token}

theorem exists_greedy_of_mem_above (h : Token.Occurs (g.tokenize source rescan) above t)
    {k : Kind} (hk : k ∈ above.map Token.kind) :
    ∃ e ∈ g.entries, e.kind = k ∧ e.pattern.greedy = true := by
  induction h with
  | top _ => cases hk
  | @child above parent t hparent h ih =>
    rcases List.mem_cons.1 hk with rfl | hk
    · obtain ⟨e, he, hkind, hgreedy⟩ := exists_greedy_of_mem (kind_ne_plain_of_withoutAll _)
        (mem_run_of_occurs hparent) (List.ne_nil_of_mem h)
      exact ⟨e, mem_of_mem_withoutAll he, hkind, hgreedy⟩
    · exact ih hk

/-- **A token is plain, with no name and no children, or due to an entry** of a rule that is not above it. -/
theorem plain_or_produced (h : Token.Occurs (g.tokenize source rescan) above t) :
    (t.kind = .plain ∧ t.label = none ∧ t.children = []) ∨
      ∃ e ∈ withoutAll g.entries (above.map Token.kind), g.Produces source above e t ∧
        t.kind = e.kind ∧ t.label = e.label := by
  obtain ⟨p, hp, ⟨hkind, hlabel, hstart, hchildren⟩, -⟩ :=
    exists_piece_of_mem (kind_ne_plain_of_withoutAll _) (mem_run_of_occurs h)
  cases hclaim : p.claim with
  | none =>
    rw [Piece.token, hclaim] at hkind hlabel hchildren
    exact Or.inl ⟨hkind, hlabel, hchildren⟩
  | some e =>
    rw [Piece.token, hclaim] at hkind hlabel
    refine Or.inr ⟨e, mem_of_claim_cutAfresh hp hclaim, ⟨p, ?_, hclaim, hstart⟩, hkind, hlabel⟩
    rwa [cutRemembering_eq]

/-- **No kind is met again below a token of that kind.** -/
theorem kind_not_mem_above (h : Token.Occurs (g.tokenize source rescan) above t) :
    t.kind ∉ above.map Token.kind := by
  intro hmem
  rcases plain_or_produced h with ⟨hplain, -⟩ | ⟨e, he, -, hkind, -⟩
  · obtain ⟨e, he, hkind, -⟩ := exists_greedy_of_mem_above h hmem
    exact kind_ne_plain he (hkind.trans hplain)
  · have hleft := (List.mem_filter.1 he).2
    rw [decide_eq_true_eq, ← hkind] at hleft
    exact hleft hmem

theorem nodup_kinds_above (h : Token.Occurs (g.tokenize source rescan) above t) :
    (above.map Token.kind).Nodup := by
  induction h with
  | top _ => exact List.nodup_nil
  | child hparent _ ih => exact List.nodup_cons.2 ⟨kind_not_mem_above hparent, ih⟩

/-- **The depth of the trees is bounded** by the number of rules with a greedy pattern. -/
theorem length_above_le (h : Token.Occurs (g.tokenize source rescan) above t) :
    above.length ≤ (g.rules.filter fun r => r.2.isGreedy).length := by
  have hsubset : above.map Token.kind ⊆ g.greedyKinds := by
    intro k hk
    obtain ⟨e, he, rfl, hgreedy⟩ := exists_greedy_of_mem_above h hk
    exact mem_greedyKinds he hgreedy
  have hle := (List.subperm_of_subset (nodup_kinds_above h) hsubset).length_le
  rwa [greedyKinds, List.length_map, List.length_map] at hle

/-! ## Which tokens have children -/

theorem children_ne_nil_iff (h : Token.Occurs (g.tokenize source true) above t) {e : Entry}
    (he : g.Produces source above e t) : t.children ≠ [] ↔ e.pattern.greedy = true := by
  rw [(children_of_produces h he).2, Bool.true_and]
  by_cases hgreedy : e.pattern.greedy = true
  · rw [if_pos hgreedy]
    -- tokens that tile a text which is not empty are not empty
    refine iff_of_true (fun hnil => ?_) hgreedy
    have hcover := tiles_tokensBy true (withoutAll g.entries ((t :: above).map Token.kind))
      t.span.start t.value.toList
    rw [hnil] at hcover
    exact (tiles_self_of_occurs h).1 hcover
  · rw [if_neg hgreedy]
    exact iff_of_false (fun hne => hne rfl) hgreedy

/-- How a token stands below the tokens `above` in the trees of a text that was divided with rescanning. -/
structure Nested (g : Grammar) (source : String) (above : List Token) (t : Token) : Prop where
  kind_not_mem : t.kind ∉ above.map Token.kind
  plain : t.kind = .plain → t.label = none ∧ t.children = []
  produced : t.kind ≠ .plain →
    ∃ e ∈ g.entries, g.Produces source above e t ∧ t.kind = e.kind ∧ t.label = e.label
  children_ne_nil_iff : ∀ e, g.Produces source above e t → (t.children ≠ [] ↔ e.pattern.greedy = true)
  /-- The levels of the trees, that of the token counted, are one more than the greedy rules at most. -/
  levels : (t :: above).length ≤ 1 + (g.rules.filter fun r => r.2.isGreedy).length

theorem nested_of_occurs (h : Token.Occurs (g.tokenize source true) above t) :
    g.Nested source above t where
  kind_not_mem := kind_not_mem_above h
  plain := by
    intro hplain
    rcases plain_or_produced h with ⟨-, hspec⟩ | ⟨e, he, -, hkind, -⟩
    · exact hspec
    · exact absurd (hkind.symm.trans hplain) (kind_ne_plain_of_withoutAll _ e he)
  produced := by
    intro hplain
    rcases plain_or_produced h with ⟨hkind, -⟩ | ⟨e, he, hproduced⟩
    · exact absurd hkind hplain
    · exact ⟨e, mem_of_mem_withoutAll he, hproduced⟩
  children_ne_nil_iff := fun _ he => children_ne_nil_iff h he
  levels := by
    have hle := length_above_le h
    rw [List.length_cons]
    omega

end Grammar

theorem Token.exists_occurs_of_mem_leaves {ts above : List Token} {t u : Token} (h : Occurs ts above t)
    (hu : u ∈ t.leaves) : ∃ above, Occurs ts above u := by
  induction t using Token.induction generalizing above with
  | h t ih =>
    rw [leaves_eq] at hu
    split at hu
    · rw [List.mem_singleton.1 hu]
      exact ⟨above, h⟩
    · obtain ⟨v, hv, hu⟩ := List.mem_flatMap.1 hu
      exact ih v hv (.child h hv) hu

/-- **How tokens nest.** With rescanning each token is plain, with no name and no children, or due to an entry of the
table, with children exactly if the entry is greedy. No token has the kind of one above it, the trees are not deeper
than there are greedy rules, and no leaf is due to a greedy entry. -/
theorem Grammar.nested_tokenize (g : Grammar) (source : String) :
    (∀ above t, Token.Occurs (g.tokenize source true) above t → g.Nested source above t) ∧
      ∀ u ∈ Token.flatten (g.tokenize source true),
        (∃ above, Token.Occurs (g.tokenize source true) above u) ∧
          ∀ above e, Token.Occurs (g.tokenize source true) above u →
            g.Produces source above e u → e.pattern.greedy = false := by
  refine ⟨fun _ _ h => nested_of_occurs h, ?_⟩
  intro u hu
  obtain ⟨t, ht, hleaf⟩ := List.mem_flatMap.1 hu
  refine ⟨Token.exists_occurs_of_mem_leaves (.top ht) hleaf, ?_⟩
  intro above e hoccurs he
  have hnil := Token.children_of_mem_leaves hleaf
  rw [← Bool.not_eq_true, ← children_ne_nil_iff hoccurs he]
  exact fun hne => hne hnil

/-- In `r"'a'"` a word stands in a character in a string in a regular expression: as deep as the three greedy rules
of the table allow. -/
theorem Moonli.nested_word_in_char :
    ∃ above t, Token.Occurs (Moonli.grammar.tokenize "r\"'a'\"" true) above t ∧
      (t :: above).length = 1 + (Moonli.grammar.rules.filter fun r => r.2.isGreedy).length ∧
      Moonli.grammar.Nested "r\"'a'\"" above t := by
  have hpath : ∃ p ∈ Moonli.grammar.tokenize "r\"'a'\"" true, ∃ q ∈ p.children, ∃ r ∈ q.children,
      0 < r.children.length := by
    decide +kernel
  obtain ⟨p, hp, q, hq, r, hr, hlength⟩ := hpath
  obtain ⟨t, ht⟩ := List.exists_mem_of_length_pos hlength
  have hoccurs := ((Token.Occurs.top hp).child hq |>.child hr).child ht
  refine ⟨[r, q, p], t, hoccurs, ?_, ?_⟩
  · exact (by decide +kernel : 4 = 1 + (Moonli.grammar.rules.filter fun r => r.2.isGreedy).length)
  · exact (Grammar.nested_tokenize Moonli.grammar "r\"'a'\"").1 [r, q, p] t hoccurs

end Highlight
