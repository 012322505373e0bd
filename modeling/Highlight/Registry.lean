import Highlight.Moonli.Basic

/-!
# Registries

A registry keeps the grammars of languages, one for each, and each under the language that the grammar itself names. A
language that is taken cannot be registered again, so a grammar that has once been found stays the one that is found.
Whether two registries hold the very same grammar is told by its `Origin`: the one of moonli is shared by all of them,
any other belongs to the registry it was given to.
-/

namespace Highlight

/-- What makes a registered grammar the same as another. -/
inductive Origin
  | builtin
  /-- The grammar that came to its registry as the n-th of its own. -/
  | registered (n : Nat)
  deriving DecidableEq, Repr

structure Registered where
  origin : Origin
  grammar : Grammar

namespace Registered

def language (r : Registered) : String :=
  r.grammar.language

/-- The table of moonli, as all registries share it. -/
def moonli : Registered :=
  ⟨.builtin, Moonli.grammar⟩

end Registered

/-- Grammars under the languages by which they are found, in the order of these, by code points. -/
structure Registry where
  entries : List (String × Registered)
  ordered : (entries.map Prod.fst).Pairwise (· < ·)
  /-- A grammar is kept under its own language. -/
  keyed : ∀ x ∈ entries, x.2.language = x.1

namespace Registry

/-- The registry without grammars. -/
def empty : Registry where
  entries := []
  ordered := .nil
  keyed := List.forall_mem_nil _

/-- The registry that holds the table of moonli. -/
def builtin : Registry where
  entries := [("moonli", .moonli)]
  ordered := List.pairwise_singleton _ _
  keyed := List.forall_mem_singleton.2 rfl

/-- The languages of a registry in their order. -/
def languages (r : Registry) : List String :=
  r.entries.map Prod.fst

def contains (r : Registry) (language : String) : Bool :=
  r.entries.any fun x => x.1 = language

/-- The grammar of a language. -/
def get (r : Registry) (language : String) : Except Failure Registered :=
  match r.entries.find? fun x => x.1 = language with
  | some x => .ok x.2
  | none => .error (.unknownLanguage language)

/-- Puts a grammar at the place of its language in a list. -/
def insert (x : String × Registered) : List (String × Registered) → List (String × Registered)
  | [] => [x]
  | y :: more => if x.1 < y.1 then x :: y :: more else y :: insert x more

theorem mem_insert {x y : String × Registered} {xs : List (String × Registered)} :
    y ∈ insert x xs ↔ y = x ∨ y ∈ xs := by
  induction xs with
  | nil => simp [insert]
  | cons z xs ih =>
    by_cases h : x.1 < z.1
    · simp [insert, h]
    · simp only [insert, h, if_false, List.mem_cons, ih]
      exact or_left_comm

theorem ordered_insert {x : String × Registered} {xs : List (String × Registered)}
    (hxs : (xs.map Prod.fst).Pairwise (· < ·)) (hnew : ∀ y ∈ xs, y.1 ≠ x.1) :
    ((insert x xs).map Prod.fst).Pairwise (· < ·) := by
  induction xs with
  | nil => exact List.pairwise_singleton _ _
  | cons z xs ih =>
    rw [List.map_cons, List.pairwise_cons] at hxs
    by_cases h : x.1 < z.1
    · simp only [insert, h, if_true, List.map_cons, List.pairwise_cons]
      refine ⟨fun l hl => ?_, hxs⟩
      rcases List.mem_cons.1 hl with rfl | hl
      · exact h
      · exact String.lt_trans h (hxs.1 l hl)
    · simp only [insert, h, if_false, List.map_cons, List.pairwise_cons]
      refine ⟨fun l hl => ?_, ih hxs.2 fun y hy => hnew y (List.mem_cons_of_mem z hy)⟩
      obtain ⟨y, hy, rfl⟩ := List.mem_map.1 hl
      rcases mem_insert.1 hy with rfl | hy
      · exact Std.lt_of_le_of_ne (String.not_lt.1 h) (hnew z List.mem_cons_self)
      · exact hxs.1 _ (List.mem_map_of_mem hy)

theorem keyed_insert {x : String × Registered} {xs : List (String × Registered)}
    (hx : x.2.language = x.1) (hxs : ∀ y ∈ xs, y.2.language = y.1) :
    ∀ y ∈ insert x xs, y.2.language = y.1 := by
  intro y hy
  rcases mem_insert.1 hy with rfl | hy
  · exact hx
  · exact hxs y hy

theorem ne_of_not_contains {r : Registry} {language : String} (h : r.contains language = false) :
    ∀ x ∈ r.entries, x.1 ≠ language := by
  simpa [contains] using h

/-- Registers a grammar as it is shared, under its language. -/
def registerShared (r : Registry) (e : Registered) : Except Failure Registry :=
  if h : r.contains e.language then .error (.languageAlreadyRegistered e.language)
  else .ok
    { entries := insert (e.language, e) r.entries
      ordered := ordered_insert r.ordered (ne_of_not_contains (by simpa using h))
      keyed := keyed_insert rfl r.keyed }

/-- Registers a grammar of one's own. -/
def register (r : Registry) (g : Grammar) : Except Failure Registry :=
  r.registerShared ⟨.registered r.entries.length, g⟩

end Registry

end Highlight
