import Highlight.Moonli.Basic
import Mathlib.Data.List.Nodup

/-!
# Building grammars

A grammar is built from rules that are added one after another. An addition is refused for the first of four faults
(`Grammar.Refuses`, `Grammar.fault?_eq_some_iff`), and any other one puts the rule behind those of the table
(`Grammar.add_eq_ok_iff`). So by induction on the rules either all of them are taken as they are, or the first one that
offends against the table of those before it is refused (`Grammar.addAll_cases`).

`Grammar.addAll_empty` collects what this comes to: which lists of rules make a grammar (`WellFormedRules`), what is
reported for the others, and that the grammar shows its rules alike in each of its views (`Grammar.Keeps`).
-/

namespace Highlight

/-- The pattern is a look-behind expression, and no capture group ends its context. -/
def Pattern.LacksContext (p : Pattern) : Prop :=
  ∃ r, p.matcher = .regex r ∧ p.lookbehind = true ∧ r.hasGroup = false

theorem Pattern.not_isUsable_iff {p : Pattern} : ¬ p.IsUsable ↔ p.LacksContext := by
  obtain ⟨matcher, lookbehind, greedy⟩ := p
  cases matcher with
  | regex r => simp [IsUsable, LacksContext]
  | blockComment => simp [IsUsable, LacksContext]

theorem Rule.patterns_eq_nil_iff {rule : Rule} : rule.patterns = [] ↔ rule = .composite [] := by
  cases rule with
  | simple p => simp [patterns]
  | composite alternatives => simp [patterns]

/-- Rules that can stand in one table: none is for plain text, each is for a kind of its own, each composite has an
alternative, and each look-behind expression has a capture group. -/
structure WellFormedRules (rules : List (Kind × Rule)) : Prop where
  not_plain : ∀ r ∈ rules, r.1 ≠ .plain
  nodup : (rules.map Prod.fst).Nodup
  not_empty : ∀ r ∈ rules, r.2 ≠ .composite []
  has_context : ∀ r ∈ rules, ∀ x ∈ r.2.patterns, ¬ x.2.LacksContext

namespace Grammar

variable {g g' : Grammar} {kind : Kind} {rule : Rule} {f : Failure}

theorem wellFormedRules (g : Grammar) : WellFormedRules g.rules where
  not_plain := fun r hr => (g.wellFormed r hr).not_plain
  nodup := g.nodup
  not_empty := by
    intro r hr hempty
    exact (g.wellFormed r hr).patterns_ne_nil (Rule.patterns_eq_nil_iff.2 hempty)
  has_context := by
    intro r hr x hx hlacks
    exact Pattern.not_isUsable_iff.2 hlacks ((g.wellFormed r hr).usable x hx)

theorem eq_of_rules_eq (hlanguage : g.language = g'.language) (hrules : g.rules = g'.rules) : g = g' := by
  obtain ⟨language, rules, _, _⟩ := g
  obtain ⟨language', rules', _, _⟩ := g'
  cases hlanguage
  cases hrules
  rfl

/-! ## One addition -/

/-- The failure for a rule that offends against a table with the rules `before`. Of several faults the first one
counts: a rule for plain text, a kind that has its rule already, no patterns, a context without a group. -/
inductive Refuses (before : List (Kind × Rule)) (kind : Kind) (rule : Rule) : Failure → Prop
  | plain (hkind : kind = .plain) :
      Refuses before kind rule (.invalidPattern kind.name "plain is reserved for unmatched text")
  | duplicate (hkind : kind ≠ .plain) (hold : kind ∈ before.map Prod.fst) :
      Refuses before kind rule (.duplicateRule kind.name)
  | empty (hkind : kind ≠ .plain) (hnew : kind ∉ before.map Prod.fst) (hempty : rule = .composite []) :
      Refuses before kind rule (.emptyRule kind.name)
  | context (hkind : kind ≠ .plain) (hnew : kind ∉ before.map Prod.fst) (hne : rule ≠ .composite [])
      (hlacks : ∃ x ∈ rule.patterns, x.2.LacksContext) :
      Refuses before kind rule
        (.invalidPattern kind.name "lookbehind pattern needs a capture group for its context")

/-- **The fault of a rule is the first of the four.** -/
theorem fault?_eq_some_iff : g.fault? kind rule = some f ↔ Refuses g.rules kind rule f := by
  have hlacks : (¬ ∀ x ∈ rule.patterns, x.2.IsUsable) ↔ ∃ x ∈ rule.patterns, x.2.LacksContext := by
    simp only [not_forall, exists_prop, Pattern.not_isUsable_iff]
  unfold fault?
  constructor
  · intro h
    split at h
    · next hplain =>
      cases h
      exact .plain hplain
    · next hplain =>
      split at h
      · next hold =>
        cases h
        exact .duplicate hplain hold
      · next hnew =>
        split at h
        · next hnil =>
          cases h
          exact .empty hplain hnew (Rule.patterns_eq_nil_iff.1 hnil)
        · next hne =>
          split at h
          · cases h
          · next husable =>
            cases h
            exact .context hplain hnew (mt Rule.patterns_eq_nil_iff.2 hne) (hlacks.1 husable)
  · intro h
    cases h with
    | plain hplain => rw [if_pos hplain]
    | duplicate hplain hold => rw [if_neg hplain, if_pos (show kind ∈ g.kinds from hold)]
    | empty hplain hnew hempty =>
      rw [if_neg hplain, if_neg (show kind ∉ g.kinds from hnew), if_pos (Rule.patterns_eq_nil_iff.2 hempty)]
    | context hplain hnew hne hcontext =>
      rw [if_neg hplain, if_neg (show kind ∉ g.kinds from hnew), if_neg (mt Rule.patterns_eq_nil_iff.1 hne),
        if_neg (hlacks.2 hcontext)]

theorem add_eq_error_iff : g.add kind rule = .error f ↔ g.fault? kind rule = some f := by
  unfold add
  split
  · next f' hfault => simp [hfault]
  · next hfault => simp [hfault]

theorem add_eq_ok_iff : g.add kind rule = .ok g' ↔
    g.fault? kind rule = none ∧ g'.language = g.language ∧ g'.rules = g.rules ++ [(kind, rule)] := by
  unfold add
  split
  · next f hfault => simp [hfault]
  · next hfault =>
    constructor
    · rintro ⟨⟩
      exact ⟨hfault, rfl, rfl⟩
    · rintro ⟨-, hlanguage, hrules⟩
      exact congrArg Except.ok (eq_of_rules_eq hlanguage.symm hrules.symm)

/-! ## Many additions -/

theorem addAll_append (g : Grammar) (before after : List (Kind × Rule)) :
    g.addAll (before ++ after) = g.addAll before >>= fun g => g.addAll after :=
  List.foldlM_append

theorem addAll_cons (g : Grammar) (kind : Kind) (rule : Rule) (after : List (Kind × Rule)) :
    g.addAll ((kind, rule) :: after) = g.add kind rule >>= fun g => g.addAll after :=
  List.foldlM_cons

/-- **All that additions come to**: the rules are taken in their order, or the first one that offends against those
before it is refused. -/
theorem addAll_cases (g : Grammar) (rules : List (Kind × Rule)) :
    (∃ g', g.addAll rules = .ok g' ∧ g'.language = g.language ∧ g'.rules = g.rules ++ rules) ∨
      ∃ before kind rule after f, rules = before ++ (kind, rule) :: after ∧
        WellFormedRules (g.rules ++ before) ∧ Refuses (g.rules ++ before) kind rule f ∧
        g.addAll rules = .error f := by
  induction rules generalizing g with
  | nil => exact Or.inl ⟨g, rfl, rfl, (List.append_nil _).symm⟩
  | cons r rules ih =>
    obtain ⟨kind, rule⟩ := r
    rw [addAll_cons]
    cases hadd : g.add kind rule with
    | error f =>
      refine Or.inr ⟨[], kind, rule, rules, f, rfl, ?_, ?_, rfl⟩
      · rw [List.append_nil]
        exact g.wellFormedRules
      · rw [List.append_nil]
        exact fault?_eq_some_iff.1 (add_eq_error_iff.1 hadd)
    | ok h =>
      obtain ⟨-, hlanguage, hrules⟩ := add_eq_ok_iff.1 hadd
      rcases ih h with ⟨g', hok, hlanguage', hrules'⟩ | ⟨before, k, r, after, f, hsplit, hwell, hrefuses, herror⟩
      · refine Or.inl ⟨g', hok, hlanguage'.trans hlanguage, ?_⟩
        rw [hrules', hrules, List.append_assoc, List.singleton_append]
      · rw [hrules, List.append_assoc, List.singleton_append] at hwell hrefuses
        exact Or.inr ⟨(kind, rule) :: before, k, r, after, f, by rw [hsplit, List.cons_append], hwell, hrefuses,
          herror⟩

/-- Behind a rule that is refused no rules make up for it. -/
theorem Refuses.not_wellFormedRules {before : List (Kind × Rule)} (h : Refuses before kind rule f)
    (after : List (Kind × Rule)) : ¬ WellFormedRules (before ++ (kind, rule) :: after) := by
  intro hwell
  have hmem : (kind, rule) ∈ before ++ (kind, rule) :: after := by simp
  cases h with
  | plain hkind => exact hwell.not_plain _ hmem hkind
  | duplicate _ hold =>
    have hnodup := hwell.nodup
    rw [List.map_append, List.map_cons, List.nodup_append] at hnodup
    exact hnodup.2.2 kind hold kind List.mem_cons_self rfl
  | empty _ _ hempty => exact hwell.not_empty _ hmem hempty
  | context _ _ _ hlacks =>
    obtain ⟨x, hx, hcontext⟩ := hlacks
    exact hwell.has_context _ hmem x hx hcontext

theorem addAll_empty_eq_ok_iff {language : String} {rules : List (Kind × Rule)} :
    (empty language).addAll rules = .ok g ↔
      WellFormedRules rules ∧ g.language = language ∧ g.rules = rules := by
  rcases (empty language).addAll_cases rules with
    ⟨g', hok, hlanguage, hrules⟩ | ⟨before, kind, rule, after, f, hsplit, -, hrefuses, herror⟩
  · obtain rfl : g'.language = language := hlanguage
    obtain rfl : g'.rules = rules := hrules
    rw [hok]
    constructor
    · rintro ⟨⟩
      exact ⟨g.wellFormedRules, rfl, rfl⟩
    · rintro ⟨-, hlanguage, hrules⟩
      exact congrArg Except.ok (eq_of_rules_eq hlanguage.symm hrules.symm)
  · rw [herror]
    refine iff_of_false nofun fun h => ?_
    exact hrefuses.not_wellFormedRules after (hsplit ▸ h.1)

theorem exists_addAll_empty_iff {language : String} {rules : List (Kind × Rule)} :
    (∃ g, (empty language).addAll rules = .ok g) ↔ WellFormedRules rules := by
  constructor
  · rintro ⟨g, hg⟩
    exact (addAll_empty_eq_ok_iff.1 hg).1
  · intro h
    rcases (empty language).addAll_cases rules with ⟨g, hg, -⟩ | ⟨_, _, _, after, _, rfl, -, hrefuses, -⟩
    · exact ⟨g, hg⟩
    · exact absurd h (hrefuses.not_wellFormedRules after)

theorem addAll_empty_eq_error_iff {language : String} {rules : List (Kind × Rule)} :
    (empty language).addAll rules = .error f ↔
      ∃ before kind rule after, rules = before ++ (kind, rule) :: after ∧ WellFormedRules before ∧
        Refuses before kind rule f := by
  constructor
  · intro hf
    rcases (empty language).addAll_cases rules with
      ⟨g, hg, -⟩ | ⟨before, kind, rule, after, f', hsplit, hwell, hrefuses, hf'⟩
    · rw [hf] at hg
      cases hg
    · rw [hf] at hf'
      cases hf'
      exact ⟨before, kind, rule, after, hsplit, hwell, hrefuses⟩
  · rintro ⟨before, kind, rule, after, rfl, hwell, hrefuses⟩
    obtain ⟨g, hg⟩ : ∃ g, (empty language).addAll before = .ok g := exists_addAll_empty_iff.2 hwell
    obtain ⟨-, -, rfl⟩ := addAll_empty_eq_ok_iff.1 hg
    have hadd := add_eq_error_iff.2 (fault?_eq_some_iff.2 hrefuses)
    rw [addAll_append, hg]
    change g.addAll ((kind, rule) :: after) = .error f
    rw [addAll_cons, hadd]
    rfl

/-! ## The views of a grammar -/

/-- The grammar has the given rules in their order, and each of its views tells so. -/
structure Keeps (g : Grammar) (language : String) (rules : List (Kind × Rule)) : Prop where
  language_eq : g.language = language
  kinds_eq : g.kinds = rules.map Prod.fst
  rule?_eq_some_iff : ∀ kind rule, g.rule? kind = some rule ↔ (kind, rule) ∈ rules
  rule?_eq_none_iff : ∀ kind, g.rule? kind = none ↔ ∀ r ∈ rules, r.1 ≠ kind
  /-- The pattern of a simple rule has no name, and that of an alternative has the name of the alternative. -/
  entries_eq : g.entries = rules.flatMap fun (kind, rule) =>
    match rule with
    | .simple p => [⟨kind, none, p⟩]
    | .composite alternatives => alternatives.map fun (name, p) => ⟨kind, some name, p⟩

theorem rule?_eq_some_iff_mem (g : Grammar) (kind : Kind) (rule : Rule) :
    g.rule? kind = some rule ↔ (kind, rule) ∈ g.rules := by
  unfold rule?
  constructor
  · intro h
    obtain ⟨⟨k, r⟩, hfind, rfl⟩ := Option.map_eq_some_iff.1 h
    obtain rfl : k = kind := by simpa using List.find?_some hfind
    exact List.mem_of_find?_eq_some hfind
  · intro h
    cases hfind : g.rules.find? fun r => r.1 = kind with
    | none => exact absurd (decide_eq_true rfl) (List.find?_eq_none.1 hfind _ h)
    | some r =>
      have hkind : r.1 = kind := by simpa using List.find?_some hfind
      -- there is one rule for a kind
      have hsame := List.inj_on_of_nodup_map g.nodup (List.mem_of_find?_eq_some hfind) h hkind
      rw [hsame]
      rfl

theorem keeps (g : Grammar) : g.Keeps g.language g.rules where
  language_eq := rfl
  kinds_eq := rfl
  rule?_eq_some_iff := g.rule?_eq_some_iff_mem
  rule?_eq_none_iff := by
    intro kind
    rw [rule?, Option.map_eq_none_iff, List.find?_eq_none]
    simp only [decide_eq_true_eq, ne_eq]
  entries_eq := by
    unfold entries
    congr 1
    funext ⟨kind, rule⟩
    cases rule with
    | simple p => rfl
    | composite alternatives => exact List.map_map

/-- **A grammar is built from exactly the lists of rules that can stand in one table**, and it keeps them as they are
given. Of any other list the first rule that offends against those before it is reported, for the first of its
faults. -/
theorem addAll_empty (language : String) (rules : List (Kind × Rule)) :
    ((∃ g, (empty language).addAll rules = .ok g) ↔ WellFormedRules rules) ∧
      (∀ f, (empty language).addAll rules = .error f ↔
        ∃ before kind rule after, rules = before ++ (kind, rule) :: after ∧ WellFormedRules before ∧
          Refuses before kind rule f) ∧
      ∀ g, (empty language).addAll rules = .ok g → g.Keeps language rules := by
  refine ⟨exists_addAll_empty_iff, fun f => addAll_empty_eq_error_iff, ?_⟩
  intro g hg
  obtain ⟨-, rfl, rfl⟩ := addAll_empty_eq_ok_iff.1 hg
  exact g.keeps

end Grammar

/-- The rules of moonli make its table. A second rule for comments would be refused as such, though it has no
alternatives either and a rule for plain text follows it. -/
theorem Moonli.addAll_rules :
    (∃ g, (Grammar.empty "moonli").addAll Moonli.rules = .ok g ∧ g.Keeps "moonli" Moonli.rules) ∧
      (Grammar.empty "demo").addAll [(.comment, Moonli.comment), (.comment, .composite []), (.plain, Moonli.string)] =
        .error (.duplicateRule "comment") := by
  constructor
  · obtain ⟨hok, -, hkeeps⟩ := Grammar.addAll_empty "moonli" Moonli.rules
    obtain ⟨g, hg⟩ := hok.2 Moonli.grammar.wellFormedRules
    exact ⟨g, hg, hkeeps g hg⟩
  · refine ((Grammar.addAll_empty "demo" _).2.1 _).2
      ⟨[(.comment, Moonli.comment)], .comment, .composite [], [(.plain, Moonli.string)], rfl, ?_, ?_⟩
    · have hwell := Moonli.grammar.wellFormedRules
      refine ⟨fun r hr => ?_, List.nodup_singleton _, fun r hr => ?_, fun r hr => ?_⟩
      all_goals
        rw [List.mem_singleton.1 hr]
      · exact nofun
      · exact nofun
      · exact hwell.has_context _ List.mem_cons_self
    · exact .duplicate nofun (List.mem_cons_self)

end Highlight
