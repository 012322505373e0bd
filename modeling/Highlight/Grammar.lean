import Highlight.Failure
import Highlight.Pattern.Basic
import Highlight.Token.Kind

/-!
# Grammars

A grammar is a table of rules for a language. A rule gives a kind its pattern, or several named alternatives. The order
counts: the patterns of a grammar are tried from the first to the last.

The table is well formed by its type. Rules are added one after another, and `add` tells what is wrong with the first
rule that would break it (`fault?_eq_none_iff`).
-/

namespace Highlight

inductive Rule
  | simple (p : Pattern)
  /-- Named alternatives, tried in order. -/
  | composite (alternatives : List (String × Pattern))
  deriving DecidableEq, Repr

namespace Rule

/-- The patterns of a rule with their names. -/
def patterns : Rule → List (Option String × Pattern)
  | simple p => [(none, p)]
  | composite alternatives => alternatives.map fun (name, p) => (some name, p)

end Rule

/-- The context of a look-behind expression ends with a capture group, so it has to have one. -/
def Pattern.IsUsable (p : Pattern) : Prop :=
  match p.matcher with
  | .regex r => p.lookbehind = true → r.hasGroup = true
  | .blockComment => True

instance (p : Pattern) : Decidable p.IsUsable := by
  unfold Pattern.IsUsable
  split <;> infer_instance

/-- A rule for a kind can stand in a table. -/
structure Rule.WellFormed (kind : Kind) (rule : Rule) : Prop where
  not_plain : kind ≠ .plain
  patterns_ne_nil : rule.patterns ≠ []
  usable : ∀ p ∈ rule.patterns, p.2.IsUsable

theorem Rule.wellFormed_iff (kind : Kind) (rule : Rule) :
    rule.WellFormed kind ↔
      kind ≠ .plain ∧ rule.patterns ≠ [] ∧ ∀ p ∈ rule.patterns, p.2.IsUsable :=
  ⟨fun h => ⟨h.not_plain, h.patterns_ne_nil, h.usable⟩, fun h => ⟨h.1, h.2.1, h.2.2⟩⟩

instance (kind : Kind) (rule : Rule) : Decidable (rule.WellFormed kind) :=
  decidable_of_iff _ (rule.wellFormed_iff kind).symm

structure Grammar where
  language : String
  rules : List (Kind × Rule)
  nodup : (rules.map Prod.fst).Nodup
  wellFormed : ∀ r ∈ rules, r.2.WellFormed r.1

/-- A pattern of a table, with the kind of its rule and its name in the rule. -/
structure Entry where
  kind : Kind
  label : Option String
  pattern : Pattern
  deriving DecidableEq, Repr

namespace Grammar

/-- The table of a language without rules. -/
def empty (language : String) : Grammar where
  language := language
  rules := []
  nodup := List.nodup_nil
  wellFormed := fun _ h => absurd h List.not_mem_nil

def kinds (g : Grammar) : List Kind :=
  g.rules.map Prod.fst

/-- The rule of a kind. -/
def rule? (g : Grammar) (kind : Kind) : Option Rule :=
  (g.rules.find? fun r => r.1 = kind).map Prod.snd

/-- The patterns of the table, the first to be tried first. -/
def entries (g : Grammar) : List Entry :=
  g.rules.flatMap fun (kind, rule) => rule.patterns.map fun (label, p) => ⟨kind, label, p⟩

/-- What is wrong with a rule that is added to the table. -/
def fault? (g : Grammar) (kind : Kind) (rule : Rule) : Option Failure :=
  if kind = .plain then some (.invalidPattern kind.name "plain is reserved for unmatched text")
  else if kind ∈ g.kinds then some (.duplicateRule kind.name)
  else if rule.patterns = [] then some (.emptyRule kind.name)
  else if ∀ p ∈ rule.patterns, p.2.IsUsable then none
  else some (.invalidPattern kind.name "lookbehind pattern needs a capture group for its context")

theorem fault?_eq_none_iff (g : Grammar) (kind : Kind) (rule : Rule) :
    g.fault? kind rule = none ↔ kind ∉ g.kinds ∧ rule.WellFormed kind := by
  rw [fault?]
  by_cases hplain : kind = .plain
  · rw [if_pos hplain]
    exact ⟨nofun, fun h => absurd hplain h.2.not_plain⟩
  by_cases hnew : kind ∈ g.kinds
  · rw [if_neg hplain, if_pos hnew]
    exact ⟨nofun, fun h => absurd hnew h.1⟩
  by_cases hne : rule.patterns = []
  · rw [if_neg hplain, if_neg hnew, if_pos hne]
    exact ⟨nofun, fun h => absurd hne h.2.patterns_ne_nil⟩
  by_cases husable : ∀ p ∈ rule.patterns, p.2.IsUsable
  · rw [if_neg hplain, if_neg hnew, if_neg hne, if_pos husable]
    exact ⟨fun _ => ⟨hnew, hplain, hne, husable⟩, fun _ => rfl⟩
  · rw [if_neg hplain, if_neg hnew, if_neg hne, if_neg husable]
    exact ⟨nofun, fun h => absurd h.2.usable husable⟩

/-- Adds a rule behind those of the table. -/
def add (g : Grammar) (kind : Kind) (rule : Rule) : Except Failure Grammar :=
  match h : g.fault? kind rule with
  | some f => .error f
  | none => .ok
    { language := g.language
      rules := g.rules ++ [(kind, rule)]
      nodup := by
        have hnew := ((g.fault?_eq_none_iff kind rule).1 h).1
        rw [List.map_append, List.nodup_append]
        refine ⟨g.nodup, by simp, fun a ha b hb hab => hnew ?_⟩
        rw [List.map_singleton, List.mem_singleton] at hb
        exact (show a = kind from hab.trans hb) ▸ ha
      wellFormed := by
        have hrule := ((g.fault?_eq_none_iff kind rule).1 h).2
        intro r hr
        rcases List.mem_append.1 hr with hr | hr
        · exact g.wellFormed r hr
        · rw [List.mem_singleton.1 hr]
          exact hrule }

/-- Adds rules in their order, up to the first that is at fault. -/
def addAll (g : Grammar) (rules : List (Kind × Rule)) : Except Failure Grammar :=
  rules.foldlM (fun g (kind, rule) => g.add kind rule) g

end Grammar

end Highlight
