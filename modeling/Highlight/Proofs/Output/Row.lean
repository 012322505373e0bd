import Mathlib.Tactic.SplitIfs
import Highlight.Output.Listing
import Highlight.Proofs.Text.Digits

/-!
# The lines of a listing

What a line of a listing shows of a token can be read from it again: the depth from the spaces it begins with, the line
and the column, the kind up to a slash, the name up to the next space, and the text from what stands in quotes. The
reader goes from the left to the right and needs to know nothing else (`Row.read?_listingLine`). A line of a listing
holds no newline.
-/

namespace Highlight

/-- What a line of a listing shows of a token. -/
structure Row where
  depth : Nat
  line : Nat
  column : Nat
  kind : Kind
  label : Option String
  value : String
  deriving DecidableEq, Repr

namespace Row

/-! ## Reading a line -/

/-- What a letter or sign behind a backslash stands for. -/
def shortEscape? (c : Char) : Option Char :=
  if c = '"' ∨ c = '\\' then some c
  else if c = 'n' then some '\n'
  else if c = 'r' then some '\r'
  else if c = 't' then some '\t'
  else if c = '0' then some '\x00'
  else none

/-- The first character of quoted text, and what stands behind it. -/
def quotedChar? : List Char → Option (Char × List Char)
  | [] => none
  | '\\' :: 'u' :: '{' :: cs =>
    match cs.dropWhile (· ≠ '}') with
    | [] => none
    | _ :: rest =>
      ((Regex.hexNumber? (cs.takeWhile (· ≠ '}'))).bind Regex.charAt?).map fun c => (c, rest)
  | '\\' :: e :: cs => (shortEscape? e).map fun c => (c, cs)
  | c :: cs => if c = '\\' ∨ c = '"' then none else some (c, cs)

theorem length_quotedChar? {cs rest : List Char} {c : Char}
    (h : quotedChar? cs = some (c, rest)) : rest.length < cs.length := by
  have hmap : ∀ {read : Option Char} {left : List Char},
      (read.map fun c => (c, left)) = some (c, rest) → rest = left := by
    intro read left hread
    obtain ⟨d, -, hpair⟩ := Option.map_eq_some_iff.1 hread
    exact (Prod.mk.inj hpair).2.symm
  unfold quotedChar? at h
  split at h
  · cases h
  · next cs =>
    split at h
    · cases h
    · next left hleft =>
      obtain rfl := hmap h
      have hle := (List.dropWhile_sublist (l := cs) (· ≠ '}')).length_le
      rw [hleft] at hle
      simp only [List.length_cons] at hle ⊢
      omega
  · next cs _ =>
    rw [hmap h]
    exact Nat.lt_succ_of_lt (Nat.lt_succ_self _)
  · obtain ⟨-, hpair⟩ := Option.ite_none_left_eq_some.1 h
    rw [(Prod.mk.inj (Option.some.inj hpair)).2]
    exact Nat.lt_succ_self _

/-- The text that stands in quotes up to the end of a line, behind the opening quote. -/
def unquote? (cs : List Char) : Option (List Char) :=
  match _ : quotedChar? cs with
  | none => if cs = ['"'] then some [] else none
  | some (c, rest) => (unquote? rest).map (c :: ·)
termination_by cs.length
decreasing_by exact length_quotedChar? ‹_›

/-- A kind, with a name behind a slash or without one. -/
def readName? (cs : List Char) : Option (Kind × Option String) :=
  (Kind.ofName? (String.ofList (cs.takeWhile (· ≠ '/')))).bind fun kind =>
    match cs.dropWhile (· ≠ '/') with
    | [] => some (kind, none)
    | _ :: label => some (kind, some (String.ofList label))

/-- Decimal digits, and what stands behind the character that is to follow them. -/
def readNumber? (follow : Char) (cs : List Char) : Option (Nat × List Char) :=
  match cs.takeWhile Char.isDigit, cs.dropWhile Char.isDigit with
  | d :: ds, c :: rest => if c = follow then some (Nat.ofDigitChars 10 (d :: ds) 0, rest) else none
  | _, _ => none

/-- Quoted text behind a space. -/
def readValue? : List Char → Option String
  | ' ' :: '"' :: cs => (unquote? cs).map String.ofList
  | _ => none

/-- Reads a line of a listing. -/
def read? (cs : List Char) : Option Row := do
  let depth := (cs.takeWhile (· = ' ')).length
  if depth % 2 = 0 then
    let (line, cs) ← readNumber? ':' (cs.dropWhile (· = ' '))
    let (column, cs) ← readNumber? ' ' cs
    let (kind, label) ← readName? (cs.takeWhile (· ≠ ' '))
    let value ← readValue? (cs.dropWhile (· ≠ ' '))
    return ⟨depth / 2, line, column, kind, label, value⟩
  else none

/-! ## Quoted text -/

theorem quotedChar?_quotedChar (c : Char) (cs : List Char) :
    quotedChar? (quotedChar c ++ cs) = some (c, cs) := by
  unfold quotedChar
  split_ifs with hquote hslash hn hr ht h0 hescape
  · rw [hquote]; rfl
  · rw [hslash]; rfl
  · rw [hn]; rfl
  · rw [hr]; rfl
  · rw [ht]; rfl
  · rw [h0]; rfl
  · have hdigits : ∀ d ∈ Nat.toDigits 16 c.toNat, decide (d ≠ '}') = true := by
      intro d hd
      rw [decide_eq_true_eq]
      rintro rfl
      exact absurd (isSome_hexDigit?_of_mem_toDigits hd) (by decide)
    have hbrace : ∀ d ∈ ('}' :: cs).head?, decide (d ≠ '}') = false := by simp
    obtain ⟨htake, hdrop⟩ := span_append hdigits hbrace
    have happend : codePointEscape c ++ cs =
        '\\' :: 'u' :: '{' :: (Nat.toDigits 16 c.toNat ++ '}' :: cs) := by
      simp [codePointEscape]
    rw [happend, quotedChar?, hdrop, htake, hexNumber?_toDigits, Option.bind_some, charAt?_toNat]
    rfl
  · rw [List.singleton_append, quotedChar?, if_neg (by simp [hquote, hslash])]
    all_goals simp [hslash]

/-- **Quoted text is read back.** -/
theorem unquote?_quoted (cs : List Char) : unquote? (cs.flatMap quotedChar ++ ['"']) = some cs := by
  induction cs with
  | nil =>
    rw [unquote?]
    rfl
  | cons c cs ih =>
    have hread : quotedChar? ((c :: cs).flatMap quotedChar ++ ['"']) =
        some (c, cs.flatMap quotedChar ++ ['"']) := by
      rw [List.flatMap_cons, List.append_assoc, quotedChar?_quotedChar]
    rw [unquote?]
    split
    · next hnone => rw [hread] at hnone; cases hnone
    · next hsome =>
      rw [hread] at hsome
      obtain ⟨rfl, rfl⟩ := Prod.mk.inj (Option.some.inj hsome)
      rw [ih, Option.map_some]

theorem readValue?_quotedChars (text : String) :
    readValue? (' ' :: quotedChars text.toList) = some text := by
  have hread : readValue? (' ' :: quotedChars text.toList) =
      (unquote? (text.toList.flatMap quotedChar ++ ['"'])).map String.ofList := rfl
  rw [hread, unquote?_quoted, Option.map_some, String.ofList_toList]

theorem newline_not_mem_quotedChar (c : Char) : '\n' ∉ quotedChar c := by
  unfold quotedChar
  split_ifs with hquote hslash hn hr ht h0 hescape
  · decide
  · decide
  · decide
  · decide
  · decide
  · decide
  · intro hmem
    have hdigit : '\n' ∈ Nat.toDigits 16 c.toNat := by simpa [codePointEscape] using hmem
    exact absurd (isSome_hexDigit?_of_mem_toDigits hdigit) (by decide)
  · simpa using Ne.symm hn

/-! ## The parts of a line -/

/-- The name of an alternative as it stands behind the kind. -/
def labelText (label : Option String) : List Char :=
  (label.map fun text => '/' :: text.toList).getD []

theorem toList_display (t : Token) :
    t.display.toList = t.kind.name.toList ++ labelText t.label ++ ' ' :: quotedChars t.value.toList := by
  obtain ⟨kind, label, value, span, children⟩ := t
  cases label <;> simp [Token.display, labelText, quoted]

theorem toList_listingLine {source : List Char} {t : Token} {p : Place}
    (h : place? source t.span.start = some p) (depth : Nat) :
    (listingLine source depth t).toList =
      List.replicate (2 * depth) ' ' ++ (Nat.toDigits 10 p.line ++ ':' ::
        (Nat.toDigits 10 (p.column + 1) ++ ' ' :: t.display.toList)) := by
  simp [listingLine, location, h]

theorem of_mem_name {k : Kind} {c : Char} (h : c ∈ k.name.toList) : c ≠ ' ' ∧ c ≠ '/' ∧ c ≠ '\n' := by
  have hall : (Kind.all.all fun k => k.name.toList.all fun c => c ≠ ' ' ∧ c ≠ '/' ∧ c ≠ '\n') = true := by
    decide
  have hname := List.all_eq_true.1 hall k (Kind.mem_all k)
  exact of_decide_eq_true (List.all_eq_true.1 hname c h)

theorem readName?_labelText (kind : Kind) (label : Option String) :
    readName? (kind.name.toList ++ labelText label) = some (kind, label) := by
  have hname : ∀ c ∈ kind.name.toList, decide (c ≠ '/') = true := fun c hc =>
    decide_eq_true (of_mem_name hc).2.1
  have hslash : ∀ c ∈ (labelText label).head?, decide (c ≠ '/') = false := by
    cases label <;> simp [labelText]
  obtain ⟨htake, hdrop⟩ := span_append hname hslash
  rw [readName?, htake, hdrop, String.ofList_toList, Kind.ofName?_name, Option.bind_some]
  cases label <;> simp [labelText]

theorem readNumber?_toDigits (n : Nat) {follow : Char} (h : follow.isDigit = false) (rest : List Char) :
    readNumber? follow (Nat.toDigits 10 n ++ follow :: rest) = some (n, rest) := by
  have hall : ∀ c ∈ Nat.toDigits 10 n, c.isDigit = true := fun c => isDigit_of_mem_toDigits
  have hfollow : ∀ c ∈ (follow :: rest).head?, c.isDigit = false := by simpa using h
  obtain ⟨htake, hdrop⟩ := span_append hall hfollow
  obtain ⟨d, ds, hcons⟩ := List.exists_cons_of_ne_nil (Nat.toDigits_ne_nil (n := n) (b := 10))
  rw [readNumber?, htake, hdrop, hcons]
  dsimp only
  rw [if_pos rfl, ← hcons, Nat.ofDigitChars_ten_toDigits]

section

variable {source : List Char} {t : Token} {p : Place}

/-- **A line of a listing is read back**, if the name of the alternative has no blanks. -/
theorem read?_listingLine (h : place? source t.span.start = some p)
    (hlabel : ∀ text ∈ t.label, ' ' ∉ text.toList) (depth : Nat) :
    read? (listingLine source depth t).toList =
      some ⟨depth, p.line, p.column + 1, t.kind, t.label, t.value⟩ := by
  have hindent : ∀ c ∈ List.replicate (2 * depth) ' ', decide (c = ' ') = true := fun c hc =>
    decide_eq_true (List.eq_of_mem_replicate hc)
  have hname : ∀ c ∈ t.kind.name.toList ++ labelText t.label, decide (c ≠ ' ') = true := by
    intro c hc
    rw [decide_eq_true_eq]
    rcases List.mem_append.1 hc with hc | hc
    · exact (of_mem_name hc).1
    · rintro rfl
      cases hl : t.label with
      | none => simp [labelText, hl] at hc
      | some text => exact hlabel text hl (by simpa [labelText, hl] using hc)
  have hquote : ∀ c ∈ (' ' :: quotedChars t.value.toList).head?, decide (c ≠ ' ') = false := by simp
  obtain ⟨htakeName, hdropName⟩ := span_append hname hquote
  have hfirst : ∀ rest : List Char, ∀ c ∈ (Nat.toDigits 10 p.line ++ rest).head?, decide (c = ' ') = false := by
    intro rest c hc
    obtain ⟨d, ds, hcons⟩ := List.exists_cons_of_ne_nil (Nat.toDigits_ne_nil (n := p.line) (b := 10))
    rw [hcons] at hc
    obtain rfl := Option.some.inj hc
    have hdigit : d.isDigit = true := isDigit_of_mem_toDigits (n := p.line) (hcons ▸ List.mem_cons_self)
    rw [decide_eq_false_iff_not]
    rintro rfl
    exact absurd hdigit (by decide)
  obtain ⟨htake, hdrop⟩ := span_append hindent
    (hfirst (':' :: (Nat.toDigits 10 (p.column + 1) ++ ' ' :: t.display.toList)))
  rw [read?, toList_listingLine h, htake, hdrop, List.length_replicate, if_pos (Nat.mul_mod_right 2 depth),
    readNumber?_toDigits _ rfl]
  dsimp only [Option.bind_eq_bind, Option.bind_some]
  rw [readNumber?_toDigits _ rfl, Option.bind_some, toList_display]
  dsimp only
  rw [htakeName, hdropName, readName?_labelText, Option.bind_some]
  dsimp only
  rw [readValue?_quotedChars, Option.bind_some, Nat.mul_div_cancel_left depth Nat.zero_lt_two]
  rfl

theorem newline_not_mem_listingLine (h : place? source t.span.start = some p)
    (hlabel : ∀ text ∈ t.label, '\n' ∉ text.toList) (depth : Nat) :
    '\n' ∉ (listingLine source depth t).toList := by
  have hdigits : ∀ n, '\n' ∉ Nat.toDigits 10 n := fun n hn =>
    absurd (isDigit_of_mem_toDigits hn) (by decide)
  have hname : '\n' ∉ t.kind.name.toList := fun hn => (of_mem_name hn).2.2 rfl
  have hlabelText : '\n' ∉ labelText t.label := by
    cases hl : t.label with
    | none => simp [labelText]
    | some text => simpa [labelText] using hlabel text hl
  have hquoted : '\n' ∉ quotedChars t.value.toList := by
    simp [quotedChars, newline_not_mem_quotedChar]
  rw [toList_listingLine h, toList_display]
  simp [hdigits, hname, hlabelText, hquoted]

end

end Row

end Highlight
