import Highlight.Proofs.Moonli.LeftContext
import Highlight.Proofs.Pattern.Finds
import Highlight.Proofs.Regex.Scan

/-!
# Quoted literals

The expressions for quoted literals go one way only, so each of them is a scanner that reads the text once from left
to right. The alternatives of what stands between the quotes begin with different characters, and none of them
begins with the closing quote; so a loop over them ends where it has to. A prefix of a string ends before a quote
or is left out.

`quoted_literals` says this of the table.
-/

namespace Highlight.Moonli

open Regex

/-! ## What stands between the quotes -/

/-- Moves over a backslash with the character behind it, or over another character that does not end a text quoted
by `q`. -/
def item? (q : Char) (c : Cursor) : Option Cursor :=
  match c.next? with
  | none => none
  | some (a, d) =>
    if a = '\\' then d.over? (· ∉ ['\n', '\r', '\u2028', '\u2029'])
    else if a = q ∨ a = '\r' ∨ a = '\n' then none
    else some d

theorem item?_of_end {q : Char} {c : Cursor} (h : c.next? = none) : item? q c = none := by
  rw [item?, h]

theorem item?_of_next {q a : Char} {c d : Cursor} (h : c.next? = some (a, d)) :
    item? q c = if a = '\\' then d.over? (· ∉ ['\n', '\r', '\u2028', '\u2029'])
      else if a = q ∨ a = '\r' ∨ a = '\n' then none else some d := by
  rw [item?, h]

theorem length_item? {q : Char} {c d : Cursor} (h : item? q c = some d) :
    d.rest.length < c.rest.length := by
  cases hnext : c.next? with
  | none =>
    rw [item?_of_end hnext] at h
    cases h
  | some next =>
    obtain ⟨a, e⟩ := next
    have hlt := Cursor.length_next? hnext
    rw [item?_of_next hnext] at h
    split at h
    · exact Nat.lt_of_le_of_lt (Cursor.precedes_over? h).length_rest_le hlt
    · split at h
      · cases h
      · obtain rfl : e = d := Option.some.inj h
        exact hlt

/-- Moves over a quoted text from behind its opening to behind the quote `q` that ends it. -/
def body? (q : Char) (c : Cursor) : Option Cursor :=
  match _ : item? q c with
  | some d => body? q d
  | none => c.over? (· = q)
termination_by c.rest.length
decreasing_by exact length_item? ‹_›

theorem mem_among (a b : Char) (more : List Char) : (among b more).mem a = decide (a ∈ b :: more) := by
  have hunion : ∀ (S : CharSet) (sets : List CharSet),
      (CharSet.unionAll S sets).mem a = (S.mem a || sets.any (CharSet.mem · a)) := by
    intro S sets
    induction sets generalizing S with
    | nil => simp [CharSet.unionAll]
    | cons T sets ih =>
      rw [CharSet.unionAll, List.foldl_cons, ← CharSet.unionAll, ih, CharSet.mem, List.any_cons, Bool.or_assoc]
  have hany : (more.map CharSet.single).any (CharSet.mem · a) = decide (a ∈ more) := by
    induction more with
    | nil => rfl
    | cons b more ih => rw [List.map_cons, List.any_cons, ih, CharSet.mem_single]; simp
  rw [among, hunion, hany, CharSet.mem_single, ← Bool.decide_or]
  simp only [List.mem_cons]

theorem mem_compl_among (a b : Char) (more : List Char) :
    (CharSet.compl (among b more)).mem a = decide (a ∉ b :: more) := by
  rw [CharSet.mem, mem_among, ← decide_not]

theorem item?_eq (q : Char) (c : Cursor) :
    item? q c = ((c.over? (· = '\\')).bind
        (Cursor.over? (· ∉ ['\n', '\r', '\u2028', '\u2029']))).or
      (c.over? (· ∉ [q, '\\', '\r', '\n'])) := by
  cases hnext : c.next? with
  | none => rw [item?_of_end hnext, Cursor.over?_of_end hnext, Cursor.over?_of_end hnext]; rfl
  | some next =>
    obtain ⟨a, d⟩ := next
    rw [item?_of_next hnext, Cursor.over?_of_next hnext, Cursor.over?_of_next hnext]
    by_cases ha : a = '\\'
    · simp [ha]
    · by_cases hq : a = q ∨ a = '\r' ∨ a = '\n'
      · rcases hq with rfl | rfl | rfl <;> simp [ha]
      · obtain ⟨hq, hr, hn⟩ := not_or.1 hq |>.imp id not_or.1
        simp [ha, hq, hr, hn]

/-- The alternatives begin with different characters, so their order does not count. -/
theorem steps_item {q : Char} {S : CharSet} (hS : ∀ a, S.mem a = decide (a ∉ [q, '\\', '\r', '\n'])) :
    (alt escaped (set S)).Steps (item? q) ∧ (alt (set S) escaped).Steps (item? q) := by
  have hescaped : escaped.Steps fun c => (c.over? (· = '\\')).bind
      (Cursor.over? (· ∉ ['\n', '\r', '\u2028', '\u2029'])) := by
    have hset := Steps.set inLine
    rw [show inLine.mem = _ from funext fun a => mem_compl_among a ..] at hset
    exact (Steps.char '\\').cat hset
  have hplain : (set S).Steps (Cursor.over? (· ∉ [q, '\\', '\r', '\n'])) := by
    have hset := Steps.set S
    rwa [funext hS] at hset
  have hdisjoint : ∀ c : Cursor, (c.over? (· = '\\')).bind
        (Cursor.over? (· ∉ ['\n', '\r', '\u2028', '\u2029'])) = none ∨
      c.over? (· ∉ [q, '\\', '\r', '\n']) = none := by
    intro c
    cases hescape : c.over? (· = '\\') with
    | none => exact Or.inl rfl
    | some d =>
      refine Or.inr (Cursor.over?_eq_none_of_over? (fun a ha => ?_) hescape)
      simp [of_decide_eq_true ha]
  constructor
  · have halt := hescaped.alt hplain hdisjoint
    rwa [← funext (item?_eq q)] at halt
  · have halt := hplain.alt hescaped fun c => (hdisjoint c).symm
    have hcomm : ∀ c, item? q c = (c.over? (· ∉ [q, '\\', '\r', '\n'])).or
        ((c.over? (· = '\\')).bind (Cursor.over? (· ∉ ['\n', '\r', '\u2028', '\u2029']))) := by
      intro c
      rw [item?_eq]
      rcases hdisjoint c with h | h <;> rw [h, Option.none_or, Option.or_none]
    rwa [← funext hcomm] at halt

/-- **A loop over items before the closing quote reads a quoted text.** -/
theorem backtrack_body {β : Type} {q : Char} {r : Regex} (hq : q ≠ '\\') (hr : r.Steps (item? q))
    (hn : r.nullable = false) (k : Onward β) (c : Cursor) :
    (star r true).backtrack ((char q).backtrack k) c = (body? q c).bind k := by
  have hk : ∀ c d, item? q c = some d → (char q).backtrack k c = none := by
    intro c d hitem
    rw [backtrack_char]
    cases hnext : c.next? with
    | none => rw [Cursor.over?_of_end hnext]; rfl
    | some next =>
      obtain ⟨a, e⟩ := next
      have hne : a ≠ q := by
        rintro rfl
        rw [item?_of_next hnext, if_neg hq, if_pos (Or.inl rfl)] at hitem
        cases hitem
      rw [Cursor.over?_of_next hnext, if_neg (by simpa using hne)]
      rfl
  fun_induction body? q c with
  | case1 c d hitem ih => rw [backtrack_star_of_steps hn hr hk, hitem]; exact ih
  | case2 c hitem => rw [backtrack_star_of_steps hn hr hk, hitem]; exact backtrack_char q k c

/-- Moves over a text between two quotes `q`. -/
def quoted? (q : Char) (c : Cursor) : Option Cursor :=
  (c.over? (· = q)).bind (body? q)

theorem backtrack_quoted {β : Type} {q : Char} {r : Regex} (hq : q ≠ '\\') (hr : r.Steps (item? q))
    (hn : r.nullable = false) (k : Onward β) (c : Cursor) :
    (char q).backtrack ((star r true).backtrack ((char q).backtrack k)) c = (quoted? q c).bind k := by
  rw [backtrack_char, quoted?, Option.bind_assoc, funext (backtrack_body hq hr hn k)]

/-! ## Regular expressions, strings and commands -/

/-- An item of a text between double quotes. -/
def quotedItem : Regex :=
  .alt escaped (.set (.compl (among '"' ['\\', '\r', '\n'])))

theorem steps_quotedItem : quotedItem.Steps (item? '"') :=
  (steps_item fun a => mem_compl_among a ..).1

/-- Moves over the letter r, a text between double quotes, and at most four flags. -/
def regexEnd? (c : Cursor) : Option Cursor :=
  ((c.over? (· = 'r')).bind (quoted? '"')).map (·.skipUpTo (· ∈ ['i', 'm', 's', 'x']) 4)

theorem regexLiteral_eq : regexLiteral =
    .cat (.char 'r') (.cat (.char '"') (.cat (.star quotedItem true) (.cat (.char '"')
      (.upTo (.set (among 'i' ['m', 's', 'x'])) 4 true)))) := rfl

theorem backtrack_regexLiteral (c : Cursor) :
    regexLiteral.backtrack (fun d => some d.offset) c = (regexEnd? c).map Cursor.offset := by
  have hflags : (upTo (.set (among 'i' ['m', 's', 'x'])) 4 true).backtrack (fun d => some d.offset) =
      fun d => some (d.skipUpTo (· ∈ ['i', 'm', 's', 'x']) 4).offset := by
    funext d
    rw [backtrack_upTo_set (fun _ => rfl), funext (mem_among · 'i' ['m', 's', 'x'])]
  have hquoted := backtrack_quoted (q := '"') (by decide) steps_quotedItem (by decide)
    fun d => some (d.skipUpTo (· ∈ ['i', 'm', 's', 'x']) 4).offset
  rw [regexLiteral_eq, backtrack_cat, backtrack_char, backtrack_cat, backtrack_cat, backtrack_cat, hflags,
    funext hquoted, ← Option.bind_assoc, regexEnd?, Option.map_map]
  exact (Option.map_eq_bind ..).symm

/-- Moves over a text between double quotes, perhaps directly behind a word that begins at a boundary. -/
def prefixedEnd? (c : Cursor) : Option Cursor :=
  if c.skip isWord = c ∨ c.gap.atWordBoundary .word = true then quoted? '"' (c.skip isWord) else none

theorem prefixedString_eq : prefixedString =
    .cat (.upTo (.cat wordEdge (.plus (.set .word) true)) 1 true)
      (.cat (.char '"') (.cat (.star quotedItem true) (.char '"'))) := rfl

theorem quoted?_of_isWord {c d : Cursor} (h : c.over? isWord = some d) : quoted? '"' c = none := by
  have hquote : ∀ a, isWord a = true → decide (a = '"') = false := by
    intro a ha
    refine decide_eq_false ?_
    rintro rfl
    exact absurd ha (by decide)
  rw [quoted?, Cursor.over?_eq_none_of_over? hquote h]
  rfl

theorem backtrack_prefixedString {β : Type} (k : Onward β) (c : Cursor) :
    prefixedString.backtrack k c = (prefixedEnd? c).bind k := by
  have hquoted : ∀ d, (cat (.char '"') (.cat (.star quotedItem true) (.char '"'))).backtrack k d =
      (quoted? '"' d).bind k :=
    backtrack_quoted (by decide) steps_quotedItem (by decide) k
  have hfail : ∀ c d, c.over? CharSet.word.mem = some d → (quoted? '"' c).bind k = none :=
    fun c d h => by rw [quoted?_of_isWord h]; rfl
  rw [prefixedString_eq, backtrack_cat, funext hquoted, backtrack_upTo_succ, backtrack_upTo_zero,
    backtrack_cat, wordEdge, backtrack_look, prefer_true, backtrack_plus_set hfail, prefixedEnd?]
  cases hword : c.over? isWord with
  | none =>
    have hskip := Cursor.skip_of_over?_eq_none hword
    have hnone : c.over? CharSet.word.mem = none := hword
    rw [hskip, if_pos (Or.inl rfl), hnone, Option.bind_none, ite_self, Option.none_or]
  | some d =>
    have hne : c.skip isWord ≠ c := by
      intro hskip
      rw [Cursor.skip_eq_self_iff.1 hskip] at hword
      cases hword
    have hsome : c.over? CharSet.word.mem = some d := hword
    rw [hfail c d hsome, Option.or_none, hsome, Option.bind_some, Cursor.skip_of_over? hword]
    rw [Cursor.skip_of_over? hword] at hne
    simp only [hne, false_or]
    by_cases hedge : c.gap.atWordBoundary .word = true
    · rw [if_pos hedge]
      exact if_pos hedge
    · rw [if_neg hedge]
      exact if_neg hedge

/-- Moves over a text between backquotes. -/
def commandEnd? (c : Cursor) : Option Cursor :=
  quoted? '\x60' c

/-- An item of a text between backquotes. -/
def commandItem : Regex :=
  .alt (.set (.compl (among '\\' ['\x60', '\r', '\n']))) escaped

theorem steps_commandItem : commandItem.Steps (item? '\x60') := by
  refine (steps_item fun a => ?_).2
  rw [mem_compl_among]
  exact decide_eq_decide.2 (by simp [and_left_comm])

theorem commandString_eq : commandString =
    .cat (.char '\x60') (.cat (.star commandItem true) (.char '\x60')) := rfl

theorem backtrack_commandString {β : Type} (k : Onward β) (c : Cursor) :
    commandString.backtrack k c = (commandEnd? c).bind k := by
  rw [commandString_eq, backtrack_cat, backtrack_cat]
  exact backtrack_quoted (by decide) steps_commandItem (by decide) k c

/-! ## Three quotes -/

/-- Three double quotes begin at the position. -/
def AtThreeQuotes (c : Cursor) : Prop :=
  ['"', '"', '"'] <+: c.rest

/-- Three quotes begin at the position, and the first three behind them, with something between, end at `e`. -/
def IsTripleQuoted (c : Cursor) (e : Nat) : Prop :=
  AtThreeQuotes c ∧ ∃ q : Cursor, q.text = c.text ∧ c.offset + 3 < q.offset ∧ AtThreeQuotes q ∧
    (∀ q' : Cursor, q'.text = c.text → c.offset + 3 < q'.offset → q'.offset < q.offset →
      ¬ AtThreeQuotes q') ∧
    e = q.offset + 3

/-- Three quotes, one after another. -/
def threeQuotes : Regex :=
  .cat (.char '"') (.cat (.char '"') (.char '"'))

theorem backtrack_threeQuotes {β : Type} (k : Onward β) (c : Cursor) :
    threeQuotes.backtrack k c =
      ((c.over? (· = '"')).bind fun d => (d.over? (· = '"')).bind (Cursor.over? (· = '"'))).bind k :=
  ((Steps.char '"').cat ((Steps.char '"').cat (Steps.char '"'))) β k c

theorem AtThreeQuotes.exists_over? {c : Cursor} (h : AtThreeQuotes c) :
    ∃ b, ((c.over? (· = '"')).bind fun d => (d.over? (· = '"')).bind (Cursor.over? (· = '"'))) = some b ∧
      b.text = c.text ∧ b.offset = c.offset + 3 := by
  have hover : ∀ {c : Cursor} {rest : List Char}, c.rest = '"' :: rest →
      ∃ d, c.over? (· = '"') = some d ∧ d.rest = rest ∧ d.text = c.text ∧ d.offset = c.offset + 1 := by
    intro c rest hrest
    obtain ⟨d, hnext, hd⟩ := Cursor.exists_next? hrest
    exact ⟨d, Cursor.over?_eq_some_iff.2 ⟨'"', hnext, by decide⟩, hd, Cursor.text_next? hnext,
      Cursor.offset_next? hnext⟩
  obtain ⟨rest, hrest⟩ := h
  obtain ⟨d, hd, hdrest, hdt, hdo⟩ := hover hrest.symm
  obtain ⟨e, he, herest, het, heo⟩ := hover hdrest
  obtain ⟨b, hb, -, hbt, hbo⟩ := hover herest
  refine ⟨b, ?_, by rw [hbt, het, hdt], by rw [hbo, heo, hdo]⟩
  rw [hd, Option.bind_some, he, Option.bind_some, hb]

theorem backtrack_threeQuotes_of_not {β : Type} {c : Cursor} (h : ¬ AtThreeQuotes c) (k : Onward β) :
    threeQuotes.backtrack k c = none := by
  refine backtrack_eq_none (fun d hd => h ?_) k
  obtain ⟨e, he, f, hf, hd⟩ := hd
  have hrest := (Cursor.next?_eq_some.1 (leads_char he)).1
  rw [(Cursor.next?_eq_some.1 (leads_char hf)).1, (Cursor.next?_eq_some.1 (leads_char hd)).1] at hrest
  exact ⟨d.rest, hrest.symm⟩

theorem backtrack_threeQuotes_eq_some_iff {c : Cursor} {e : Nat} :
    threeQuotes.backtrack (fun d => some d.offset) c = some e ↔ AtThreeQuotes c ∧ e = c.offset + 3 := by
  by_cases h : AtThreeQuotes c
  · obtain ⟨b, hb, -, hbo⟩ := h.exists_over?
    rw [backtrack_threeQuotes, hb, Option.bind_some, Option.some_inj, hbo]
    exact ⟨fun he => ⟨h, he.symm⟩, fun he => he.2.symm⟩
  · rw [backtrack_threeQuotes_of_not h]
    exact ⟨nofun, fun he => absurd he.1 h⟩

theorem mem_anything (a : Char) : anything.mem a = true := by
  rw [anything, CharSet.mem, CharSet.mem, Bool.or_not_self]

theorem backtrack_tripleQuoted_eq_some_iff (c : Cursor) (e : Nat) :
    tripleQuoted.backtrack (fun d => some d.offset) c = some e ↔ IsTripleQuoted c e := by
  have hopening : tripleQuoted.backtrack (fun d => some d.offset) c =
      threeQuotes.backtrack ((plus (.set anything) false).backtrack
        (threeQuotes.backtrack fun d => some d.offset)) c := rfl
  rw [hopening]
  by_cases h : AtThreeQuotes c
  · obtain ⟨b, hb, hbt, hbo⟩ := h.exists_over?
    have hfails : ∀ q, threeQuotes.backtrack (fun d => some d.offset) q = none ↔ ¬ AtThreeQuotes q := by
      intro q
      refine ⟨fun hnone hq => ?_, fun hq => backtrack_threeQuotes_of_not hq _⟩
      rw [backtrack_threeQuotes_eq_some_iff.2 ⟨hq, rfl⟩] at hnone
      cases hnone
    rw [backtrack_threeQuotes, hb, Option.bind_some, backtrack_plus, backtrack_set, IsTripleQuoted, ← hbt,
      ← hbo]
    cases hnext : b.next? with
    | none =>
      rw [Cursor.over?_of_end hnext]
      refine ⟨nofun, ?_⟩
      rintro ⟨-, q, hqt, hlt, -⟩
      rcases (Cursor.precedes_of_offset_le hqt.symm (Nat.le_of_lt hlt)).eq_or_next? with rfl | ⟨a, d, hd, -⟩
      · exact absurd hlt (Nat.lt_irrefl _)
      · rw [hnext] at hd
        cases hd
    | some next =>
      obtain ⟨a, d⟩ := next
      rw [Cursor.over?_of_next hnext, if_pos (mem_anything a), Option.bind_some,
        backtrack_lazy_eq_some_iff mem_anything, SucceedsFirst]
      simp only [Cursor.precedes_iff_of_next? hnext, hfails, backtrack_threeQuotes_eq_some_iff]
      constructor
      · rintro ⟨q, ⟨hqt, hlt⟩, ⟨hq, he⟩, hfirst⟩
        exact ⟨h, q, hqt, hlt, hq, fun q' ht hlt' => hfirst q' ⟨ht, hlt'⟩, he⟩
      · rintro ⟨-, q, hqt, hlt, hq, hfirst, he⟩
        exact ⟨q, ⟨hqt, hlt⟩, ⟨hq, he⟩, fun q' hq' => hfirst q' hq'.1 hq'.2⟩
  · rw [backtrack_threeQuotes_of_not h]
    exact ⟨nofun, fun he => absurd he.1 h⟩

/-! ## Characters -/

/-- Moves over what stands between the quotes of a character: a backslash and what follows up to the next quote or
the end of the line, or one other character. -/
def charBody? (c : Cursor) : Option Cursor :=
  match c.over? (· = '\\') with
  | some d => (d.over? (· ∉ ['\r', '\n'])).map (Cursor.skip (· ∉ ['\'', '\r', '\n']))
  | none => c.over? (· ∉ ['\r', '\n'])

/-- Moves over a character literal, which may not stand behind a word or a single quote. -/
def charEnd? (c : Cursor) : Option Cursor :=
  if c.before.head?.all (fun a => !isWord a && a ≠ '\'') then
    ((c.over? (· = '\'')).bind charBody?).bind (Cursor.over? (· = '\''))
  else none

theorem backtrack_charRest {β : Type} (k : Onward β) (c : Cursor) :
    charRest.backtrack k c = ((charBody? c).bind (Cursor.over? (· = '\''))).bind k := by
  have hstar : ∀ c, (star (.set (.compl (among '\'' ['\r', '\n']))) true).backtrack
      ((char '\'').backtrack k) c = ((c.skip (· ∉ ['\'', '\r', '\n'])).over? (· = '\'')).bind k := by
    intro c
    rw [backtrack_star_set, backtrack_char, funext (mem_compl_among · '\'' ['\r', '\n'])]
    intro c d hover
    have hquote : ∀ a, (CharSet.compl (among '\'' ['\r', '\n'])).mem a = true → decide (a = '\'') = false := by
      intro a ha
      refine decide_eq_false ?_
      rintro rfl
      exact absurd ha (by decide)
    rw [backtrack_char, Cursor.over?_eq_none_of_over? hquote hover]
    rfl
  rw [charRest, backtrack_cat, backtrack_alt, backtrack_cat, backtrack_cat, backtrack_char, backtrack_set,
    charBody?]
  cases hnext : c.next? with
  | none => simp only [Cursor.over?_of_end hnext, Option.bind_none, Option.or_none]
  | some next =>
    obtain ⟨a, d⟩ := next
    simp only [Cursor.over?_of_next hnext, mem_compl_among]
    by_cases ha : a = '\\'
    · -- an escape goes up to the next quote
      simp only [ha, decide_true, if_true, Option.bind_some]
      rw [backtrack_set, funext hstar, funext (mem_compl_among · '\r' ['\n'])]
      cases d.over? (· ∉ ['\r', '\n']) <;> simp
    · -- another character is read alone
      have hsame : a ∉ ['\\', '\r', '\n'] ↔ a ∉ ['\r', '\n'] := by simp [ha]
      simp only [ha, decide_false, Bool.false_eq_true, if_false, Option.bind_none, Option.none_or, hsame]
      split
      · exact backtrack_char _ _ _
      · rfl

theorem charContext_mem (a : Char) : charContext.mem a = (!isWord a && a ≠ '\'') := by
  rw [charContext, CharSet.mem, CharSet.mem, CharSet.mem_single, Bool.not_or, isWord, decide_not]

/-! ## The table -/

def regexPattern : Pattern :=
  { matcher := .regex regexLiteral, greedy := true }

def triplePattern : Pattern :=
  { matcher := .regex tripleQuoted, greedy := true }

def prefixedPattern : Pattern :=
  { matcher := .regex prefixedString, greedy := true }

def commandPattern : Pattern :=
  { matcher := .regex commandString, greedy := true }

def charPattern : Pattern :=
  { matcher := .regex charLiteral, lookbehind := true, greedy := true }

theorem offers_charPattern_iff (c : Cursor) (e : Nat) :
    charPattern.Offers c e ↔ (charEnd? c).map Cursor.offset = some e := by
  have hcontext : charContext.mem = fun a => !isWord a && a ≠ '\'' := funext charContext_mem
  have htoken : (Pattern.tokenLength? (.cat (.char '\'') charRest) c).map (c.offset + ·) =
      (((c.over? (· = '\'')).bind charBody?).bind (Cursor.over? (· = '\''))).map Cursor.offset := by
    rw [Pattern.tokenLength?_eq (by decide), backtrack_cat, backtrack_char, funext (backtrack_charRest _)]
    cases c.over? (· = '\'') with
    | none => rfl
    | some d => exact (Option.map_eq_bind ..).symm
  rw [Pattern.offers_iff_length?, length?_charLiteral rfl rfl, charEnd?, hcontext]
  split
  · rw [htoken]
  · rfl

/-- **The quoted literals of the table are read by scanners.** These are its entries for them. For each but the last,
the search from a position finds a literal there exactly if the scanner reads it, and up to the same end. A character
literal is offered exactly where its scanner reads it. -/
theorem quoted_literals :
    grammar.entries.filter (fun e => e.kind ∈ [.regex, .string, .char]) =
      [⟨.regex, none, regexPattern⟩, ⟨.string, some "triple-quoted", triplePattern⟩,
        ⟨.string, some "prefixed", prefixedPattern⟩, ⟨.string, some "command", commandPattern⟩,
        ⟨.char, none, charPattern⟩] ∧
    ∀ (c : Cursor) (e : Nat),
      (regexPattern.Finds c e ↔ (regexEnd? c).map Cursor.offset = some e) ∧
      (prefixedPattern.Finds c e ↔ (prefixedEnd? c).map Cursor.offset = some e) ∧
      (commandPattern.Finds c e ↔ (commandEnd? c).map Cursor.offset = some e) ∧
      (triplePattern.Finds c e ↔ IsTripleQuoted c e) ∧
      (charPattern.Offers c e ↔ (charEnd? c).map Cursor.offset = some e) := by
  refine ⟨rfl, fun c e => ⟨?_, ?_, ?_, ?_, offers_charPattern_iff c e⟩⟩
  · rw [Pattern.finds_iff rfl (by decide), backtrack_regexLiteral]
  · rw [Pattern.finds_iff rfl (by decide), backtrack_prefixedString, Option.map_eq_bind]
    rfl
  · rw [Pattern.finds_iff rfl (by decide), backtrack_commandString, Option.map_eq_bind]
    rfl
  · rw [Pattern.finds_iff rfl (by decide)]
    exact backtrack_tripleQuoted_eq_some_iff c e

end Highlight.Moonli
