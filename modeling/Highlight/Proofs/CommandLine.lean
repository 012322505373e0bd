import Highlight.CommandLine.Basic
import Highlight.Proofs.Registry
import Mathlib.Data.List.Sort

/-!
# What a run reports

A run goes through its stages in order: the format, the language, the bytes of the input, and the text that they are.
The first of them that fails is reported, and otherwise the tokens of the text are (`Reports`). One of the cases of
`Reports` always holds (`exists_reports`), and a run answers what it says (`Reports.run_eq`), so it says no two things.

The input is all that is read (`ReadsInput.runArguments_eq`), and where a stage before it ends the run not even this
(`runArguments_of_not_readsInput`).
-/

namespace Highlight.CommandLine

/-! ## The stages -/

/-- What the formats are called. -/
inductive Names : String → Format → Prop
  | listing : Names "listing" .listing
  | json : Names "json" .json

theorem Names.ofName_eq {name : String} {f : Format} (h : Names name f) : Format.ofName name = .ok f := by
  cases h <;> rfl

theorem ofName_of_not_names {name : String} (h : ∀ f, ¬ Names name f) :
    Format.ofName name = .error (.unknownFormat name) := by
  have hlisting : name ≠ "listing" := by
    rintro rfl
    exact h _ .listing
  have hjson : name ≠ "json" := by
    rintro rfl
    exact h _ .json
  rw [Format.ofName, if_neg hlisting, if_neg hjson]

theorem eq_languages_of_increasing {registry : Registry} {ids : List String}
    (hincreasing : (ids.map utf8Bytes).Pairwise (· < ·))
    (hmem : ∀ id, id ∈ ids ↔ ∃ e ∈ registry.grammars, e.language = id) : ids = registry.languages := by
  rw [List.pairwise_map] at hincreasing
  apply (hincreasing.imp utf8Bytes_lt_iff.1).eq_of_mem_iff registry.ordered
  intro id
  rw [hmem]
  exact Registry.mem_languages_iff.symm

/-- **Bytes are decoded exactly if they are those of a text**, and to this one. -/
theorem decode_eq_ok_iff {bytes : ByteArray} {text : String} : decode bytes = .ok text ↔ text.toUTF8 = bytes := by
  rw [decode, String.fromUTF8?]
  by_cases hvalid : bytes.IsValidUTF8
  · rw [dif_pos hvalid]
    constructor
    · rintro ⟨⟩
      rfl
    · rintro rfl
      rfl
  · rw [dif_neg hvalid]
    refine iff_of_false nofun ?_
    rintro rfl
    exact hvalid text.isValidUTF8

theorem decode_of_forall_ne {bytes : ByteArray} (h : ∀ text : String, text.toUTF8 ≠ bytes) :
    decode bytes = .error .notUnicode := by
  have hnone : String.fromUTF8? bytes = none := by
    rw [Option.eq_none_iff_forall_ne_some]
    intro text hsome
    apply h text
    rw [← decode_eq_ok_iff, decode, hsome]
  rw [decode, hnone]

/-- The input that a path stands for, and what it is called. -/
inductive Chooses : Option String → Input → String → Prop
  | absent : Chooses none .standard "<stdin>"
  | hyphen : Chooses (some "-") .standard "<stdin>"
  | file {path : String} (h : path ≠ "-") : Chooses (some path) (.file path) path

theorem exists_chooses (path : Option String) : ∃ input name, Chooses path input name := by
  cases path with
  | none => exact ⟨_, _, .absent⟩
  | some path =>
    by_cases h : path = "-"
    · rw [h]
      exact ⟨_, _, .hyphen⟩
    · exact ⟨_, _, .file h⟩

theorem Chooses.input_eq {a : Arguments} {input : Input} {name : String} (h : Chooses a.path input name) :
    a.input = input ∧ input.name = name := by
  rw [Arguments.input]
  generalize a.path = path at h ⊢
  cases h with
  | absent => exact ⟨rfl, rfl⟩
  | hyphen => exact ⟨rfl, rfl⟩
  | file hpath => exact ⟨if_neg hpath, rfl⟩

namespace Arguments

/-- The name of the format; a listing is the default. -/
def formatName (a : Arguments) : String :=
  a.format.getD "listing"

/-- The language; moonli is the default. -/
def languageName (a : Arguments) : String :=
  a.language.getD "moonli"

/-- The run gets to its input: no list of languages is asked for, and the format and the language are known. -/
structure ReadsInput (registry : Registry) (a : Arguments) : Prop where
  not_listLanguages : a.listLanguages = false
  format : ∃ f, Names a.formatName f
  language : ∃ e ∈ registry.grammars, e.language = a.languageName

end Arguments

/-! ## Reports -/

/-- A failure is a line among the errors, of its name and its tip or, where it has none, its message. -/
inductive Tells (f : Failure) : Outcome → Prop
  | tip {tip : String} (h : f.tip? = some tip) : Tells f ⟨1, "", "Error: " ++ f.name ++ " (" ++ tip ++ ")\n"⟩
  | message (h : f.tip? = none) : Tells f ⟨1, "", "Error: " ++ f.name ++ " (" ++ f.message ++ ")\n"⟩

theorem exists_tells (f : Failure) : ∃ outcome, Tells f outcome := by
  cases h : f.tip? with
  | none => exact ⟨_, .message h⟩
  | some tip => exact ⟨_, .tip h⟩

theorem Tells.failure_eq {f : Failure} {outcome : Outcome} (h : Tells f outcome) : .failure f = outcome := by
  cases h with
  | tip h => rw [Outcome.failure, Failure.advice, h, Option.getD_some]
  | message h => rw [Outcome.failure, Failure.advice, h, Option.getD_none]

/-- What a run with such contents of the inputs reports. -/
inductive Reports (registry : Registry) (a : Arguments) (contents : Input → Except ReadFault ByteArray) :
    Outcome → Prop
  /-- The languages in the order of their bytes, each on a line of its own. -/
  | languages {ids : List String} (asked : a.listLanguages = true)
      (increasing : (ids.map utf8Bytes).Pairwise (· < ·))
      (mem_iff : ∀ id, id ∈ ids ↔ ∃ e ∈ registry.grammars, e.language = id) :
      Reports registry a contents ⟨0, String.join (ids.map (· ++ "\n")), ""⟩
  | unknownFormat {outcome : Outcome} (not_asked : a.listLanguages = false) (format : ∀ f, ¬ Names a.formatName f)
      (tells : Tells (.unknownFormat a.formatName) outcome) : Reports registry a contents outcome
  | unknownLanguage {f : Format} {outcome : Outcome} (not_asked : a.listLanguages = false)
      (format : Names a.formatName f) (language : ∀ e ∈ registry.grammars, e.language ≠ a.languageName)
      (tells : Tells (.unknownLanguage a.languageName) outcome) : Reports registry a contents outcome
  /-- The input cannot be read. -/
  | unreadable {input : Input} {name : String} {fault : ReadFault} {outcome : Outcome}
      (reads : a.ReadsInput registry) (chooses : Chooses a.path input name) (read : contents input = .error fault)
      (tells : Tells (.readError name fault.message) outcome) : Reports registry a contents outcome
  /-- The bytes of the input are those of no text. -/
  | undecodable {input : Input} {name : String} {bytes : ByteArray} {outcome : Outcome}
      (reads : a.ReadsInput registry) (chooses : Chooses a.path input name) (read : contents input = .ok bytes)
      (ne : ∀ text : String, text.toUTF8 ≠ bytes)
      (tells : Tells (.readError name "stream did not contain valid UTF-8") outcome) :
      Reports registry a contents outcome
  | tokens {f : Format} {e : Registered} {input : Input} {name source : String}
      (not_asked : a.listLanguages = false) (format : Names a.formatName f) (mem : e ∈ registry.grammars)
      (language : e.language = a.languageName) (chooses : Chooses a.path input name)
      (read : contents input = .ok source.toUTF8) :
      Reports registry a contents ⟨0, f.render source (e.grammar.tokenize source (!a.flat)) ++ "\n", ""⟩

theorem Arguments.ReadsInput.exists_reports {registry : Registry} {a : Arguments} (h : a.ReadsInput registry)
    (contents : Input → Except ReadFault ByteArray) : ∃ outcome, Reports registry a contents outcome := by
  have ⟨hasked, ⟨f, hformat⟩, e, he, hlanguage⟩ := h
  obtain ⟨input, name, hchooses⟩ := exists_chooses a.path
  cases hread : contents input with
  | error fault =>
    obtain ⟨outcome, htells⟩ := exists_tells (.readError name fault.message)
    exact ⟨outcome, .unreadable h hchooses hread htells⟩
  | ok bytes =>
    by_cases htext : ∃ text : String, text.toUTF8 = bytes
    · obtain ⟨source, rfl⟩ := htext
      exact ⟨_, .tokens hasked hformat he hlanguage hchooses hread⟩
    · obtain ⟨outcome, htells⟩ := exists_tells (.readError name "stream did not contain valid UTF-8")
      exact ⟨outcome, .undecodable h hchooses hread (not_exists.1 htext) htells⟩

/-- **One of the cases always holds.** -/
theorem exists_reports (registry : Registry) (a : Arguments) (contents : Input → Except ReadFault ByteArray) :
    ∃ outcome, Reports registry a contents outcome := by
  cases hasked : a.listLanguages with
  | true => exact ⟨_, .languages hasked registry.views.increasing fun id => Registry.mem_languages_iff⟩
  | false =>
    by_cases hformat : ∃ f, Names a.formatName f
    · by_cases hlanguage : ∃ e ∈ registry.grammars, e.language = a.languageName
      · apply Arguments.ReadsInput.exists_reports
        exact ⟨hasked, hformat, hlanguage⟩
      · obtain ⟨f, hformat⟩ := hformat
        obtain ⟨outcome, htells⟩ := exists_tells (.unknownLanguage a.languageName)
        refine ⟨outcome, .unknownLanguage hasked hformat ?_ htells⟩
        intro e he heq
        exact hlanguage ⟨e, he, heq⟩
    · obtain ⟨outcome, htells⟩ := exists_tells (.unknownFormat a.formatName)
      exact ⟨outcome, .unknownFormat hasked (not_exists.1 hformat) htells⟩

/-! ## Runs -/

section

variable {registry : Registry} {a : Arguments}

theorem choose_of_not_names (h : ∀ f, ¬ Names a.formatName f) :
    a.choose registry = .error (.unknownFormat a.formatName) := by
  rw [Arguments.choose, ← Arguments.formatName, ofName_of_not_names h]
  rfl

theorem choose_of_names {f : Format} (h : Names a.formatName f) :
    a.choose registry = (registry.get a.languageName).map fun e => (f, e.grammar) := by
  rw [Arguments.choose, ← Arguments.formatName, ← Arguments.languageName, h.ofName_eq]
  cases registry.get a.languageName <;> rfl

theorem choose_of_forall_ne {f : Format} (hformat : Names a.formatName f)
    (h : ∀ e ∈ registry.grammars, e.language ≠ a.languageName) :
    a.choose registry = .error (.unknownLanguage a.languageName) := by
  have hcontains : registry.contains a.languageName = false := by
    rw [← Bool.not_eq_true, Registry.contains_iff_mem, Registry.mem_languages_iff]
    rintro ⟨e, he, hlanguage⟩
    exact h e he hlanguage
  rw [choose_of_names hformat, Registry.get_of_not_contains hcontains]
  rfl

theorem choose_of_mem {f : Format} {e : Registered} (hformat : Names a.formatName f) (he : e ∈ registry.grammars)
    (hlanguage : e.language = a.languageName) : a.choose registry = .ok (f, e.grammar) := by
  rw [choose_of_names hformat, Registry.get_eq_ok_iff.2 ⟨he, hlanguage⟩]
  rfl

/-- A run that gets to its input has chosen a format and a grammar, and it is the only one that has. -/
theorem choose_cases (registry : Registry) (hasked : a.listLanguages = false) :
    (a.ReadsInput registry ∧ ∃ f g, a.choose registry = .ok (f, g)) ∨
      (¬ a.ReadsInput registry ∧ ∃ fault, a.choose registry = .error fault) := by
  by_cases hformat : ∃ f, Names a.formatName f
  · by_cases hlanguage : ∃ e ∈ registry.grammars, e.language = a.languageName
    · left
      refine ⟨⟨hasked, hformat, hlanguage⟩, ?_⟩
      obtain ⟨f, hformat⟩ := hformat
      obtain ⟨e, he, hlanguage⟩ := hlanguage
      exact ⟨f, e.grammar, choose_of_mem hformat he hlanguage⟩
    · right
      refine ⟨fun hreads => hlanguage hreads.language, ?_⟩
      obtain ⟨f, hformat⟩ := hformat
      refine ⟨_, choose_of_forall_ne hformat ?_⟩
      intro e he heq
      exact hlanguage ⟨e, he, heq⟩
  · right
    exact ⟨fun hreads => hformat hreads.format, _, choose_of_not_names (not_exists.1 hformat)⟩

theorem Arguments.ReadsInput.exists_choose_eq (h : a.ReadsInput registry) :
    ∃ f g, a.choose registry = .ok (f, g) := by
  rcases choose_cases registry h.not_listLanguages with ⟨-, hok⟩ | ⟨hnot, -⟩
  · exact hok
  · exact absurd h hnot

variable {m : Type → Type} [Monad m] {read : Input → m (Except ReadFault ByteArray)}

theorem runArguments_of_listLanguages (hasked : a.listLanguages = true) :
    runArguments registry read a = pure (.success (String.join (registry.languages.map (· ++ "\n")))) := by
  rw [runArguments, if_pos hasked]

theorem runArguments_of_error (hasked : a.listLanguages = false) {fault : Failure}
    (hchoose : a.choose registry = .error fault) : runArguments registry read a = pure (.failure fault) := by
  rw [runArguments, hasked, hchoose]
  rfl

theorem runArguments_of_ok (hasked : a.listLanguages = false) {f : Format} {g : Grammar}
    (hchoose : a.choose registry = .ok (f, g)) :
    runArguments registry read a = read a.input >>= fun bytes => pure (.ofOutput (a.output f g bytes)) := by
  rw [runArguments, hasked, hchoose]
  rfl

/-- **A run that gets to its input** reads it and nothing else. -/
theorem Arguments.ReadsInput.runArguments_eq (h : a.ReadsInput registry) {input : Input} {name : String}
    (hchooses : Chooses a.path input name) :
    runArguments registry read a =
      read input >>= fun bytes => pure (Id.run (runArguments registry (fun _ => pure bytes) a)) := by
  obtain ⟨f, g, hchoose⟩ := h.exists_choose_eq
  rw [runArguments_of_ok h.not_listLanguages hchoose, hchooses.input_eq.1]
  congr
  funext bytes
  rw [runArguments_of_ok h.not_listLanguages hchoose]
  rfl

/-- **Any other run** reads nothing, so what the inputs hold does not matter. -/
theorem runArguments_of_not_readsInput (h : ¬ a.ReadsInput registry)
    (contents : Input → Except ReadFault ByteArray) :
    runArguments registry read a =
      pure (Id.run (runArguments registry (fun input => pure (contents input)) a)) := by
  cases hasked : a.listLanguages with
  | true =>
    rw [runArguments_of_listLanguages hasked, runArguments_of_listLanguages hasked]
    rfl
  | false =>
    rcases choose_cases registry hasked with ⟨hreads, -⟩ | ⟨-, fault, hchoose⟩
    · exact absurd hreads h
    · rw [runArguments_of_error hasked hchoose, runArguments_of_error hasked hchoose]
      rfl

/-- **A run answers what is reported.** -/
theorem Reports.run_eq {contents : Input → Except ReadFault ByteArray} {outcome : Outcome}
    (h : Reports registry a contents outcome) :
    Id.run (runArguments registry (fun input => pure (contents input)) a) = outcome := by
  cases h with
  | languages asked increasing mem_iff =>
    rw [runArguments_of_listLanguages asked, eq_languages_of_increasing increasing mem_iff]
    rfl
  | unknownFormat not_asked format tells =>
    rw [runArguments_of_error not_asked (choose_of_not_names format)]
    exact tells.failure_eq
  | unknownLanguage not_asked format language tells =>
    rw [runArguments_of_error not_asked (choose_of_forall_ne format language)]
    exact tells.failure_eq
  | unreadable reads chooses read tells =>
    obtain ⟨f, g, hchoose⟩ := reads.exists_choose_eq
    obtain ⟨rfl, rfl⟩ := chooses.input_eq
    rw [runArguments_of_ok reads.not_listLanguages hchoose, pure_bind, read]
    exact tells.failure_eq
  | undecodable reads chooses read ne tells =>
    obtain ⟨f, g, hchoose⟩ := reads.exists_choose_eq
    obtain ⟨rfl, rfl⟩ := chooses.input_eq
    rw [runArguments_of_ok reads.not_listLanguages hchoose, pure_bind, read, Arguments.output, Except.bind,
      decode_of_forall_ne ne]
    exact tells.failure_eq
  | tokens not_asked format mem language chooses read =>
    obtain ⟨rfl, -⟩ := chooses.input_eq
    rw [runArguments_of_ok not_asked (choose_of_mem format mem language), pure_bind, read, Arguments.output,
      Except.bind, decode_eq_ok_iff.2 rfl]
    rfl

end

/-- **A run reports the first stage that fails**, and otherwise the tokens of its input. In whatever way the inputs
are read, this is the answer for what has been read, and nothing is read that is not needed for it. -/
theorem runArguments_spec (registry : Registry) (a : Arguments) :
    (∀ (contents : Input → Except ReadFault ByteArray) (outcome : Outcome),
      Id.run (runArguments registry (fun input => pure (contents input)) a) = outcome ↔
        Reports registry a contents outcome) ∧
    ∀ (m : Type → Type) [Monad m] (read : Input → m (Except ReadFault ByteArray)),
      (a.ReadsInput registry → ∀ input name, Chooses a.path input name →
        runArguments registry read a =
          read input >>= fun bytes => pure (Id.run (runArguments registry (fun _ => pure bytes) a))) ∧
      (¬ a.ReadsInput registry → ∀ contents : Input → Except ReadFault ByteArray,
        runArguments registry read a =
          pure (Id.run (runArguments registry (fun input => pure (contents input)) a))) := by
  refine ⟨fun contents outcome => ⟨?_, Reports.run_eq⟩, fun m _ read => ⟨?_, runArguments_of_not_readsInput⟩⟩
  · rintro rfl
    obtain ⟨outcome, hreports⟩ := exists_reports registry a contents
    rw [hreports.run_eq]
    exact hreports
  · intro hreads input name hchooses
    exact hreads.runArguments_eq hchooses

/-- Behind a hyphen as the path the text of the standard input is divided once. An unknown format is reported though
the language is unknown too, and though no input can be read. -/
theorem runArguments_spec_demo :
    let flat : Arguments := { path := some "-", flat := true }
    let faulty : Arguments := { path := some "absent", language := some "cobol", format := some "html" }
    let message := "Error: UnknownFormat (Unknown format `html`, expected `listing` or `json`)\n"
    Reports .builtin flat (fun _ => .ok "\"for\"".toUTF8) ⟨0, "1:1 string/prefixed \"\\\"for\\\"\"\n", ""⟩ ∧
      flat.ReadsInput .builtin ∧ Chooses flat.path .standard "<stdin>" ∧
      runArguments .builtin (fun _ => none) flat = none ∧
      Reports .builtin faulty (fun _ => .error .notFound) ⟨1, "", message⟩ ∧
      ¬ faulty.ReadsInput .builtin ∧ runArguments .builtin (fun _ => none) faulty = some ⟨1, "", message⟩ := by
  intro flat faulty message
  have hreads : flat.ReadsInput .builtin := ⟨rfl, ⟨_, .listing⟩, .moonli, List.mem_singleton_self _, rfl⟩
  have hnot : ¬ faulty.ReadsInput .builtin := by
    rintro ⟨-, ⟨f, hformat⟩, -⟩
    cases hformat.ofName_eq
  obtain ⟨hflat, hflatReads⟩ := runArguments_spec .builtin flat
  obtain ⟨hfaulty, hfaultyReads⟩ := runArguments_spec .builtin faulty
  refine ⟨(hflat _ _).1 (by decide +kernel), hreads, .hyphen, ?_, (hfaulty _ _).1 (by decide +kernel), hnot, ?_⟩
  · rw [(hflatReads Option fun _ => none).1 hreads _ _ .hyphen]
    rfl
  · rw [(hfaultyReads Option fun _ => none).2 hnot fun _ => .error .notFound]
    decide +kernel

end Highlight.CommandLine
