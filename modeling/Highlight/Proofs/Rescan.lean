import Highlight.Moonli.Basic
import Highlight.Proofs.Tokenize

/-!
# Rescanning is compositional

The text of a greedy token is divided again by the table without the rules of its own kind and of the kinds around it.
`Grammar.withoutKinds` is that table as a table in its own right, and `Grammar.Produces` tells which entry a token at
some depth is due to. The main statement: what the rescan of a greedy token gives is what the smaller table gives for
the token's text alone, moved to where the token begins.
-/

namespace Highlight

namespace Grammar

/-- The table without the rules of the given kinds. -/
def withoutKinds (g : Grammar) (kinds : List Kind) : Grammar where
  language := g.language
  rules := g.rules.filter fun r => r.1 ∉ kinds
  nodup := g.nodup.sublist (List.filter_sublist.map _)
  wellFormed := fun r hr => g.wellFormed r (List.mem_filter.1 hr).1

theorem entries_withoutKinds (g : Grammar) (kinds : List Kind) :
    (g.withoutKinds kinds).entries = withoutAll g.entries kinds := by
  simp only [entries, withoutAll, withoutKinds]
  induction g.rules with
  | nil => rfl
  | cons r rules ih =>
    obtain ⟨kind, rule⟩ := r
    rw [List.flatMap_cons, List.filter_append, ← ih]
    -- the rows of a rule share its kind, so they are all kept or all left out
    have hrow : ∀ e ∈ rule.patterns.map fun x => (⟨kind, x.1, x.2⟩ : Entry), e.kind = kind := by
      intro e he
      obtain ⟨x, -, rfl⟩ := List.mem_map.1 he
      rfl
    by_cases hkind : kind ∈ kinds
    · have hnone : (rule.patterns.map fun x => (⟨kind, x.1, x.2⟩ : Entry)).filter
          (fun e => decide (e.kind ∉ kinds)) = [] := by
        rw [List.filter_eq_nil_iff]
        intro e he
        simpa [hrow e he] using hkind
      rw [hnone, List.filter_cons_of_neg (by simpa using hkind), List.nil_append]
    · have hall : (rule.patterns.map fun x => (⟨kind, x.1, x.2⟩ : Entry)).filter
          (fun e => decide (e.kind ∉ kinds)) = rule.patterns.map fun x => ⟨kind, x.1, x.2⟩ := by
        rw [List.filter_eq_self]
        intro e he
        simpa [hrow e he] using hkind
      rw [hall, List.filter_cons_of_pos (by simpa using hkind), List.flatMap_cons]

/-- Below the tokens `above` of a text, `t` is the token of a piece that `e` claims. -/
def Produces (g : Grammar) (source : String) (above : List Token) (e : Entry) (t : Token) : Prop :=
  ∃ p ∈ cutRemembering (withoutAll g.entries (above.map Token.kind))
      (Token.textBelow source.toList above),
    p.claim = some e ∧ t.span.start = Token.baseBelow 0 above + p.start

/-- A token is all of the piece that it is due to, and its children are those of the piece. -/
theorem children_of_produces {g : Grammar} {source : String} {rescan : Bool} {above : List Token}
    {e : Entry} {t : Token} (ht : Token.Occurs (g.tokenize source rescan) above t)
    (he : g.Produces source above e t) :
    t.kind = e.kind ∧ t.children =
      if rescan && e.pattern.greedy then
        tokensBy cutAfresh rescan (withoutAll g.entries ((t :: above).map Token.kind))
          t.span.start t.value.toList
      else [] := by
  obtain ⟨p, hp, hclaim, hstart⟩ := he
  rw [cutRemembering_eq] at hp
  obtain ⟨q, hq, hsame, hwhole⟩ :=
    exists_piece_of_mem (kind_ne_plain_of_withoutAll _) (mem_run_of_occurs ht)
  have hqp : q.start = p.start := by
    have hq' := hsame.start
    simp only [Piece.token] at hq'
    omega
  obtain rfl := eq_of_start_eq hq hp hqp
  have htoken := hwhole (by simp [hclaim])
  have hkind : t.kind = e.kind := by simp [htoken, Piece.token, hclaim]
  refine ⟨hkind, ?_⟩
  rw [List.map_cons, ← without_withoutAll, hkind, htoken]
  simp [Piece.token, hclaim, childrenBy, String.toList_ofList]

/-- **Rescanning is compositional.** The children of a token that a greedy entry produced, at any depth, are the
tokens of its text by the table without its kind and the kinds above it, moved to where the token begins. -/
theorem children_eq_tokenize {g : Grammar} {source : String} {above : List Token} {e : Entry}
    {t : Token} (ht : Token.Occurs (g.tokenize source true) above t)
    (he : g.Produces source above e t) (hgreedy : e.pattern.greedy = true) :
    t.children = ((g.withoutKinds ((t :: above).map Token.kind)).tokenize t.value true).map
      (Token.shift t.span.start) := by
  obtain ⟨-, hchildren⟩ := children_of_produces ht he
  rw [hchildren, hgreedy, tokenize_eq, entries_withoutKinds, ← tokensBy_add, Nat.zero_add]
  rfl

end Grammar

/-- In `r"t"` the string inside the regular expression, itself inside a greedy token, is divided as it is alone by the
table without both rules. -/
theorem Moonli.children_of_string_in_regex :
    ∃ p ∈ Moonli.grammar.tokenize "r\"t\"" true, ∃ t ∈ p.children, ∃ e ∈ Moonli.grammar.entries,
      Moonli.grammar.Produces "r\"t\"" [p] e t ∧ e.pattern.greedy = true ∧
      t.children = ((Moonli.grammar.withoutKinds [t.kind, p.kind]).tokenize t.value true).map
        (Token.shift t.span.start) := by
  have h : ∃ p ∈ Moonli.grammar.tokenize "r\"t\"" true, ∃ t ∈ p.children,
      ∃ e ∈ Moonli.grammar.entries,
        (∃ q ∈ cutRemembering (withoutAll Moonli.grammar.entries [p.kind]) p.value.toList,
          q.claim = some e ∧ t.span.start = p.span.start + q.start) ∧
        e.pattern.greedy = true := by
    decide +kernel
  obtain ⟨p, hp, t, ht, e, he, hproduces, hgreedy⟩ := h
  exact ⟨p, hp, t, ht, e, he, hproduces, hgreedy,
    Grammar.children_eq_tokenize (.child (.top hp) ht) hproduces hgreedy⟩

end Highlight
