import Highlight.Proofs.Text.Utf8
import Highlight.Registry
import Mathlib.Data.List.Nodup

/-!
# Registries over whole runs

What a registry tells of its languages it tells alike, whichever way it is asked (`Registry.Views`). By the order of
its entries a grammar is found exactly under the language that it is kept under (`get_eq_ok_iff_mem`), and this is the
language that it names, since every registration keeps to that (`Registry.keyed_insert`).

A run is a list of requests to a registry of one's own, beside the default one. A request that succeeds adds an entry,
any other changes nothing (`Registries.serve_cases`). So by induction on the requests no grammar that has once been found
is replaced (`get_run`), the languages are those at the start with one for each registration
(`perm_languages_run`), and the default registry stays as it is.
-/

namespace Highlight

namespace Registry

variable {r : Registry} {e : Registered} {language : String}

/-! ## One registry -/

/-- The grammars of a registry, in the order of their languages. -/
def grammars (r : Registry) : List Registered :=
  r.entries.map Prod.snd

theorem eq_of_fst_eq {x y : String × Registered} (hx : x ∈ r.entries) (hy : y ∈ r.entries) (h : x.1 = y.1) :
    x = y := by
  have hnodup : (r.entries.map Prod.fst).Nodup := by
    refine r.ordered.imp ?_
    rintro l _ hlt rfl
    exact String.lt_irrefl l hlt
  exact List.inj_on_of_nodup_map hnodup hx hy h

/-- **A grammar is found exactly under the language that it is kept under.** -/
theorem get_eq_ok_iff_mem : r.get language = .ok e ↔ (language, e) ∈ r.entries := by
  rw [get]
  cases hfind : r.entries.find? fun x => x.1 = language with
  | none =>
    refine ⟨nofun, fun h => ?_⟩
    exact absurd (decide_eq_true rfl) (List.find?_eq_none.1 hfind _ h)
  | some x =>
    have hx := List.mem_of_find?_eq_some hfind
    obtain rfl : x.1 = language := by simpa using List.find?_some hfind
    constructor
    · rintro ⟨⟩
      exact hx
    · intro h
      rw [eq_of_fst_eq hx h rfl]

/-- A registry keeps a grammar under the language of the grammar and no other. -/
theorem mem_entries_iff : (language, e) ∈ r.entries ↔ e ∈ r.grammars ∧ e.language = language := by
  rw [grammars, List.mem_map]
  constructor
  · intro h
    exact ⟨⟨_, h, rfl⟩, r.keyed _ h⟩
  · rintro ⟨⟨x, hx, rfl⟩, rfl⟩
    rw [r.keyed x hx]
    exact hx

theorem get_eq_ok_iff : r.get language = .ok e ↔ e ∈ r.grammars ∧ e.language = language := by
  rw [get_eq_ok_iff_mem, mem_entries_iff]

theorem contains_iff_mem : r.contains language = true ↔ language ∈ r.languages := by
  rw [contains, languages, List.any_eq_true, List.mem_map]
  simp only [decide_eq_true_eq]

theorem mem_languages_iff : language ∈ r.languages ↔ ∃ e ∈ r.grammars, e.language = language := by
  simp only [← mem_entries_iff, languages, List.mem_map, Prod.exists, exists_and_right, exists_eq_right]

theorem contains_iff_get : r.contains language = true ↔ ∃ e, r.get language = .ok e := by
  rw [contains_iff_mem, mem_languages_iff]
  simp only [get_eq_ok_iff]

theorem get_of_not_contains (h : r.contains language = false) :
    r.get language = .error (.unknownLanguage language) := by
  have hnone : r.entries.find? (fun x => x.1 = language) = none := by
    rw [List.find?_eq_none]
    intro x hx heq
    exact ne_of_not_contains h x hx (of_decide_eq_true heq)
  rw [get, hnone]

/-- What a registry tells of its languages agrees, and each grammar is found under the name that it has. -/
structure Views (r : Registry) : Prop where
  language_of_get : ∀ language e, r.get language = .ok e → e.language = language
  contains_iff_get : ∀ language, r.contains language = true ↔ ∃ e, r.get language = .ok e
  contains_iff_mem : ∀ language, r.contains language = true ↔ language ∈ r.languages
  get_of_not_contains : ∀ language, r.contains language = false →
    r.get language = .error (.unknownLanguage language)
  /-- The languages are listed in the order of their bytes, each of them once. -/
  increasing : (r.languages.map utf8Bytes).Pairwise (· < ·)

theorem views (r : Registry) : r.Views where
  language_of_get := fun _ _ h => (get_eq_ok_iff.1 h).2
  contains_iff_get := fun _ => contains_iff_get
  contains_iff_mem := fun _ => contains_iff_mem
  get_of_not_contains := fun _ => get_of_not_contains
  increasing := by
    rw [List.pairwise_map]
    exact r.ordered.imp utf8Bytes_lt_iff.2

/-! ## One registration -/

theorem perm_insert (x : String × Registered) (xs : List (String × Registered)) :
    (insert x xs).Perm (x :: xs) := by
  induction xs with
  | nil => exact .refl _
  | cons y xs ih =>
    rw [insert]
    split
    · exact .refl _
    · exact (ih.cons y).trans (.swap x y xs)

theorem registerShared_cases (r : Registry) (e : Registered) :
    (r.contains e.language = true ∧
      r.registerShared e = .error (.languageAlreadyRegistered e.language)) ∨
    (r.contains e.language = false ∧
      ∃ s, r.registerShared e = .ok s ∧ s.entries.Perm ((e.language, e) :: r.entries)) := by
  rw [registerShared]
  by_cases hcontains : r.contains e.language = true
  · rw [dif_pos hcontains]
    exact Or.inl ⟨hcontains, rfl⟩
  · rw [dif_neg hcontains]
    exact Or.inr ⟨Bool.not_eq_true _ ▸ hcontains, _, rfl, perm_insert _ r.entries⟩

end Registry

/-! ## Requests and their answers -/

/-- What can be asked without changing a registry. -/
inductive Question
  | get (language : String)
  | contains (language : String)
  | languages

inductive Request
  /-- Register a grammar of one's own. -/
  | register (g : Grammar)
  /-- Register a grammar that is shared with others. -/
  | registerShared (e : Registered)
  | ask (q : Question)
  /-- Ask the default registry. -/
  | askDefault (q : Question)

inductive Answer
  /-- A grammar was registered. -/
  | registered
  | failed (f : Failure)
  | grammar (e : Registered)
  | truth (b : Bool)
  | languages (ls : List String)

def Registry.answer (r : Registry) : Question → Answer
  | .get language =>
    match r.get language with
    | .ok e => .grammar e
    | .error f => .failed f
  | .contains language => .truth (r.contains language)
  | .languages => .languages r.languages

/-- The answers to questions tell what is found in the registry, contained in it, and listed by it. -/
structure Registry.Answers (r : Registry) (answer : Question → Answer) : Prop where
  grammar : ∀ language e, answer (.get language) = .grammar e ↔ r.get language = .ok e
  failed : ∀ language f, answer (.get language) = .failed f ↔ r.get language = .error f
  truth : ∀ language, answer (.contains language) = .truth (r.contains language)
  languages : answer .languages = .languages r.languages

theorem Registry.answers (r : Registry) : r.Answers r.answer where
  grammar := by
    intro language e
    rw [answer]
    cases r.get language with
    | ok d => rw [Answer.grammar.injEq, Except.ok.injEq]
    | error f => exact ⟨nofun, nofun⟩
  failed := by
    intro language f
    rw [answer]
    cases r.get language with
    | ok d => exact ⟨nofun, nofun⟩
    | error f' => rw [Answer.failed.injEq, Except.error.injEq]
  truth := fun _ => rfl
  languages := rfl

/-- A registry of one's own, beside the default one. -/
structure Registries where
  own : Registry
  default : Registry

namespace Registries

/-- The registries at the start of a run. -/
def start (own : Registry) : Registries :=
  ⟨own, .builtin⟩

/-- The answer to a registration, and the registries behind it. -/
def settle (s : Registries) : Except Failure Registry → Answer × Registries
  | .ok own => (.registered, { s with own := own })
  | .error f => (.failed f, s)

/-- The answer to a request, and the registries behind it. -/
def serve (s : Registries) : Request → Answer × Registries
  | .register g => s.settle (s.own.register g)
  | .registerShared e => s.settle (s.own.registerShared e)
  | .ask q => (s.own.answer q, s)
  | .askDefault q => (s.default.answer q, s)

/-- The registries behind a list of requests. -/
def run (s : Registries) (requests : List Request) : Registries :=
  requests.foldl (fun s q => (s.serve q).2) s

/-- The language that was registered, if one was. -/
def added? : Request → Answer → Option String
  | .register g, .registered => some g.language
  | .registerShared e, .registered => some e.language
  | _, _ => none

/-- The languages that are registered in the course of a list of requests. -/
def added (s : Registries) : List Request → List String
  | [] => []
  | q :: more => (added? q (s.serve q).1).toList ++ (s.serve q).2.added more

theorem run_cons (s : Registries) (q : Request) (more : List Request) :
    s.run (q :: more) = (s.serve q).2.run more := rfl

/-- **All that a request can do**: it adds an entry of one's own registry and tells so, or it changes nothing. -/
theorem serve_cases (s : Registries) (q : Request) :
    ((s.serve q).2 = s ∧ added? q (s.serve q).1 = none) ∨
      ∃ e, (s.serve q).2.default = s.default ∧
        (s.serve q).2.own.entries.Perm ((e.language, e) :: s.own.entries) ∧
        added? q (s.serve q).1 = some e.language := by
  cases q with
  | register g =>
    rw [serve, Registry.register]
    rcases s.own.registerShared_cases ⟨.registered s.own.entries.length, g⟩ with
      ⟨-, hfail⟩ | ⟨-, own, hok, hperm⟩
    · rw [hfail]
      exact Or.inl ⟨rfl, rfl⟩
    · rw [hok]
      exact Or.inr ⟨_, rfl, hperm, rfl⟩
  | registerShared e =>
    rw [serve]
    rcases s.own.registerShared_cases e with ⟨-, hfail⟩ | ⟨-, own, hok, hperm⟩
    · rw [hfail]
      exact Or.inl ⟨rfl, rfl⟩
    · rw [hok]
      exact Or.inr ⟨e, rfl, hperm, rfl⟩
  | ask q => exact Or.inl ⟨rfl, rfl⟩
  | askDefault q => exact Or.inl ⟨rfl, rfl⟩

/-! ## Runs -/

theorem default_run (s : Registries) (requests : List Request) :
    (s.run requests).default = s.default := by
  induction requests generalizing s with
  | nil => rfl
  | cons q more ih =>
    rw [run_cons, ih]
    rcases s.serve_cases q with ⟨hsame, -⟩ | ⟨e, hdefault, -⟩
    · rw [hsame]
    · exact hdefault

/-- **No registered grammar is replaced.** -/
theorem get_run {s : Registries} {language : String} {e : Registered}
    (h : s.own.get language = .ok e) (requests : List Request) :
    (s.run requests).own.get language = .ok e := by
  rw [Registry.get_eq_ok_iff_mem] at h ⊢
  induction requests generalizing s with
  | nil => exact h
  | cons q more ih =>
    rw [run_cons]
    apply ih
    rcases s.serve_cases q with ⟨hsame, -⟩ | ⟨d, -, hperm, -⟩
    · rw [hsame]
      exact h
    · exact hperm.mem_iff.2 (List.mem_cons_of_mem _ h)

/-- **The languages are those at the start and one for each registration.** -/
theorem perm_languages_run (s : Registries) (requests : List Request) :
    (s.run requests).own.languages.Perm (s.own.languages ++ s.added requests) := by
  induction requests generalizing s with
  | nil =>
    rw [added, List.append_nil]
    exact .refl _
  | cons q more ih =>
    rw [run_cons, added]
    refine (ih _).trans ?_
    rcases s.serve_cases q with ⟨hsame, hnone⟩ | ⟨e, -, hperm, hadded⟩
    · rw [hsame, hnone]
      exact .refl _
    · rw [hadded]
      have hlanguages : (s.serve q).2.own.languages.Perm (e.language :: s.own.languages) :=
        hperm.map Prod.fst
      refine (hlanguages.append_right _).trans ?_
      exact List.perm_middle.symm

/-! ## What holds at every moment of a run -/

/-- The request registers `e`, unless its language is taken; then it changes nothing. -/
structure Registers (s : Registries) (q : Request) (e : Registered) : Prop where
  registered_iff : (s.serve q).1 = .registered ↔ s.own.contains e.language = false
  refused : s.own.contains e.language = true →
    s.serve q = (.failed (.languageAlreadyRegistered e.language), s)
  found : s.own.contains e.language = false → (s.serve q).2.own.get e.language = .ok e

theorem registers_registerShared (s : Registries) (e : Registered) :
    s.Registers (.registerShared e) e := by
  rcases s.own.registerShared_cases e with ⟨hcontains, hfail⟩ | ⟨hcontains, own, hok, hperm⟩
  · have hserve : s.serve (.registerShared e) = (.failed (.languageAlreadyRegistered e.language), s) := by
      rw [serve, hfail]
      rfl
    refine ⟨?_, fun _ => hserve, ?_⟩
    · rw [hserve, hcontains]
      exact iff_of_false nofun nofun
    · rw [hcontains]
      nofun
  · have hserve : s.serve (.registerShared e) = (.registered, { s with own := own }) := by
      rw [serve, hok]
      rfl
    refine ⟨?_, ?_, fun _ => ?_⟩
    · rw [hserve]
      exact iff_of_true rfl hcontains
    · rw [hcontains]
      nofun
    · rw [hserve]
      exact Registry.get_eq_ok_iff_mem.2 (hperm.mem_iff.2 List.mem_cons_self)

theorem serve_register (s : Registries) (g : Grammar) :
    s.serve (.register g) = s.serve (.registerShared ⟨.registered s.own.entries.length, g⟩) := rfl

theorem exists_registers_register (s : Registries) (g : Grammar) :
    ∃ origin, s.Registers (.register g) ⟨origin, g⟩ := by
  obtain ⟨registered_iff, refused, found⟩ :=
    s.registers_registerShared ⟨.registered s.own.entries.length, g⟩
  rw [← serve_register] at registered_iff refused found
  exact ⟨_, registered_iff, refused, found⟩

/-- What holds of the registries at every moment of a run. -/
structure Sound (s : Registries) : Prop where
  views : s.own.Views
  asked : s.own.Answers fun q => (s.serve (.ask q)).1
  /-- Questions change nothing. -/
  serve_ask : ∀ q, (s.serve (.ask q)).2 = s ∧ (s.serve (.askDefault q)).2 = s
  registerShared : ∀ e, s.Registers (.registerShared e) e
  register : ∀ g, ∃ origin, s.Registers (.register g) ⟨origin, g⟩
  /-- What has once been found is found ever after. -/
  kept : ∀ language e, s.own.get language = .ok e →
    ∀ requests, (s.run requests).own.get language = .ok e

theorem sound (s : Registries) : s.Sound where
  views := s.own.views
  asked := s.own.answers
  serve_ask := fun _ => ⟨rfl, rfl⟩
  registerShared := s.registers_registerShared
  register := s.exists_registers_register
  kept := fun _ _ h => get_run h

/-- **Registries over whole runs.** Whatever has been requested, the ways to ask a registry agree, a grammar can be
registered exactly if its language is not taken, a refusal changes nothing, and what has once been found is found ever
after. There is one language for each registration beside those at the start, and the default registry answers as
it always does, as the registry that holds the table of moonli. -/
theorem sound_run (own : Registry) (requests : List Request) :
    ((start own).run requests).Sound ∧
      ((start own).run requests).own.languages.Perm (own.languages ++ (start own).added requests) ∧
      (∀ q, (((start own).run requests).serve (.askDefault q)).1 = Registry.builtin.answer q) ∧
      (Registry.builtin.Answers fun q => (((start own).run requests).serve (.askDefault q)).1) ∧
      Registry.empty.languages = [] ∧ Registry.builtin.languages = ["moonli"] := by
  have hdefault : ∀ q, (((start own).run requests).serve (.askDefault q)).1 = Registry.builtin.answer q := by
    intro q
    rw [serve, default_run]
    rfl
  refine ⟨sound _, perm_languages_run _ requests, hdefault, ?_, rfl, rfl⟩
  rw [funext hdefault]
  exact Registry.builtin.answers

/-- Behind a registration that succeeds and one that is refused, the shared table of moonli is still found, also in the
default registry, and so is the grammar that was registered. -/
theorem sound_run_demo :
    let s := (start .builtin).run [.register (.empty "demo"), .registerShared ⟨.registered 7, .empty "moonli"⟩]
    s.own.get "moonli" = .ok .moonli ∧ s.own.languages.Perm ["moonli", "demo"] ∧
      (∀ requests, (s.run requests).own.get "moonli" = .ok .moonli) ∧
      (s.serve (.askDefault (.get "moonli"))).1 = .grammar .moonli := by
  have hfound : ((start .builtin).run [.register (.empty "demo"),
      .registerShared ⟨.registered 7, .empty "moonli"⟩]).own.get "moonli" = .ok .moonli := rfl
  obtain ⟨hsound, hperm, hdefault, -, -, -⟩ := sound_run .builtin
    [.register (.empty "demo"), .registerShared ⟨.registered 7, .empty "moonli"⟩]
  exact ⟨hfound, hperm, hsound.kept "moonli" .moonli hfound, hdefault (.get "moonli")⟩

end Registries

end Highlight
