import Highlight.Lexer
import Highlight.Proofs.Token.Runs

/-!
# Tokens that are read by hand

Whoever reads tokens by hand moves a lexer on and pushes tokens, in any order. What the lexer holds in the end are the
pushed tokens in their order, joined (`finish_performAll`); it does not matter how far it was moved, nor in which text.

The result is a `NormalForm` of what was pushed: one token in the place of each maximal run of plain tokens that touch,
and every other token as it was. To push a normal form gives it back.
-/

namespace Highlight

namespace Lexer

/-- What is done with a lexer by hand. -/
inductive Call
  | advance (bytes : Nat)
  | push (t : Token)

def Call.token? : Call → Option Token
  | advance _ => none
  | push t => some t

/-- The tokens that are pushed, in their order. -/
def pushed (calls : List Call) : List Token :=
  calls.filterMap Call.token?

def perform (l : Lexer) : Call → Lexer
  | .advance bytes => l.advance bytes
  | .push t => l.push t

def performAll (l : Lexer) (calls : List Call) : Lexer :=
  calls.foldl perform l

theorem tokens_performAll (l : Lexer) (calls : List Call) :
    (l.performAll calls).tokens = (pushed calls).foldl Token.push l.tokens := by
  induction calls generalizing l with
  | nil => rfl
  | cons call calls ih =>
    have hmore : (l.performAll (call :: calls)).tokens =
        (pushed calls).foldl Token.push (l.perform call).tokens := ih (l.perform call)
    rw [hmore]
    cases call with
    | advance bytes => rfl
    | push t => rfl

/-- **What is pushed is joined**, whatever else is done. -/
theorem finish_performAll (source : String) (calls : List Call) :
    ((ofText source).performAll calls).finish = Token.join (pushed calls) := by
  rw [finish, tokens_performAll]
  rfl

theorem finish_foldl_push (ts : List Token) (source : String) :
    (ts.foldl push (ofText source)).finish = Token.join ts := by
  have hpushed : pushed (ts.map .push) = ts := by
    rw [pushed, List.filterMap_map]
    exact List.filterMap_some
  have hcalls : ts.foldl push (ofText source) = (ofText source).performAll (ts.map .push) := by
    rw [performAll, List.foldl_map]
    rfl
  rw [hcalls, finish_performAll, hpushed]

end Lexer

namespace Token

/-- The tokens `us` are the normal form of the tokens `ts`. -/
structure NormalForm (ts us : List Token) : Prop where
  /-- There is one way to divide the tokens into maximal runs. -/
  existsUnique_runs : ∃! runs, MaximalRuns ts runs
  /-- One token stands for each run of plain tokens that touch, and every other token is left as it is. -/
  eq_map_token : ∀ runs, MaximalRuns ts runs → us = runs.map Run.token ∧
    ∀ r ∈ runs, r.tokens = [r.token] ∨ ∀ t ∈ r.tokens, t.kind = .plain
  /-- The tokens that are not plain keep their order. -/
  others : us.filter (fun t => !t.isPlain) = ts.filter (fun t => !t.isPlain)
  values : String.join (us.map value) = String.join (ts.map value)
  /-- No plain token touches the next one. -/
  apart : us.IsChain fun t u => ¬ Touches t u

theorem normalForm_join (ts : List Token) : NormalForm ts (join ts) where
  existsUnique_runs := existsUnique_maximalRuns ts
  eq_map_token := fun _ h => ⟨h.join_eq, fun r _ => r.tokens_eq_or_plain⟩
  others := filter_join ts
  values := values_join ts
  apart := (isChain_join ts).imp fun _ _ h => mt touches_iff.1 h

end Token

namespace Lexer

/-- **Pushing computes a normal form.** What a lexer holds in the end depends on the pushed tokens and their order
alone, and is their normal form. Pushing it again, in whatever text and however the lexer is moved, gives it back. -/
theorem normalForm_finish (source : String) (calls : List Call) :
    Token.NormalForm (pushed calls) ((ofText source).performAll calls).finish ∧
      (∀ source' calls', pushed calls' = pushed calls →
        ((ofText source').performAll calls').finish = ((ofText source).performAll calls).finish) ∧
      ∀ source' calls', pushed calls' = ((ofText source).performAll calls).finish →
        ((ofText source').performAll calls').finish = ((ofText source).performAll calls).finish := by
  rw [finish_performAll]
  refine ⟨Token.normalForm_join (pushed calls), ?_, ?_⟩
  · intro source' calls' h
    rw [finish_performAll, h]
  · intro source' calls' h
    rw [finish_performAll, h, Token.join_join]

/-- Two plain tokens that touch, the first of which goes back in the text, a number, and a plain token that touches
the number only. The lexer is moved in between, out of its text; then the finished tokens are pushed again. -/
theorem normalForm_of_moved :
    let x : Token := ⟨.plain, some "x", "x", ⟨5, 2⟩, []⟩
    let y : Token := ⟨.plain, none, "y", ⟨2, 9⟩, []⟩
    let xy : Token := ⟨.plain, some "x", "xy", ⟨5, 9⟩, []⟩
    let number : Token := ⟨.number, none, "1", ⟨9, 10⟩, []⟩
    let z : Token := ⟨.plain, none, "z", ⟨10, 11⟩, []⟩
    let calls := [.push x, .push y, .push number, .push z]
    let moved := [.push x, .advance 7, .push y, .push number, .advance 1, .push z]
    let again := [.advance 3, .push xy, .push number, .push z]
    ((ofText "").performAll calls).finish = [xy, number, z] ∧
      pushed moved = pushed calls ∧
      ((ofText "é").performAll moved).finish = [xy, number, z] ∧
      pushed again = [xy, number, z] ∧
      ((ofText "é").performAll again).finish = [xy, number, z] := by
  intro x y xy number z calls moved again
  obtain ⟨-, hmoved, hagain⟩ := normalForm_finish "" calls
  have hpushed : pushed moved = pushed calls := rfl
  have hrepushed : pushed again = [xy, number, z] := rfl
  exact ⟨rfl, hpushed, hmoved "é" moved hpushed, hrepushed, hagain "é" again hrepushed⟩

end Lexer

end Highlight
