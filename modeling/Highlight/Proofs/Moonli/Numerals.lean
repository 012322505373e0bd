import Highlight.Proofs.Moonli.SelfContained
import Highlight.Proofs.Regex.Prefers

/-!
# Decimal literals

A decimal literal is written with digits in groups, perhaps with a fraction, an exponent and the suffix of
imaginary numbers. The expression for numbers prefers to read on, and what follows a part may be left out, so each
part of a literal is taken as far as it goes (`prefers_number`).

The digits in front of a point are those of any base up to sixteen, `e` and `f` among them. So the letter of an
exponent without a point before it is read as a digit. The digits behind it are then read as digits too, but a sign is
none, and it cuts the literal.

* `DecimalLiteral`: the literals, with the grammar of their digits.
* `DecimalLiteral.parts`: a literal is one number, unless it is cut at a sign.
* `tokenize_decimalLiteral`: the tokens of a literal are its parts.
-/

namespace Highlight

open Regex

namespace Moonli

/-! ## Digits in groups -/

/-- Digits of some sort, perhaps in groups that are joined by single underscores. -/
inductive Grouped (p : Char → Bool) : List Char → Prop
  | digit {a : Char} (ha : p a = true) : Grouped p [a]
  | next {a : Char} {v : List Char} (ha : p a = true) (hv : Grouped p v) : Grouped p (a :: v)
  | join {a : Char} {v : List Char} (ha : p a = true) (hv : Grouped p v) : Grouped p (a :: '_' :: v)

namespace Grouped

variable {p q : Char → Bool} {v w : List Char}

theorem append (hv : Grouped p v) (hw : Grouped p w) : Grouped p (v ++ w) := by
  induction hv with
  | digit ha => exact .next ha hw
  | next ha _ ih => exact .next ha ih
  | join ha _ ih => exact .join ha ih

theorem mono (hpq : ∀ a, p a = true → q a = true) (hv : Grouped p v) : Grouped q v := by
  induction hv with
  | digit ha => exact .digit (hpq _ ha)
  | next ha _ ih => exact .next (hpq _ ha) ih
  | join ha _ ih => exact .join (hpq _ ha) ih

theorem of_mem (hv : Grouped p v) {a : Char} (ha : a ∈ v) : p a = true ∨ a = '_' := by
  induction hv with
  | digit hb => exact Or.inl (List.mem_singleton.1 ha ▸ hb)
  | next hb _ ih =>
    rcases List.mem_cons.1 ha with rfl | ha
    · exact Or.inl hb
    · exact ih ha
  | join hb _ ih =>
    rcases List.mem_cons.1 ha with rfl | ha
    · exact Or.inl hb
    · rcases List.mem_cons.1 ha with rfl | ha
      · exact Or.inr rfl
      · exact ih ha

theorem exists_cons (hv : Grouped p v) : ∃ a u, v = a :: u ∧ p a = true := by
  cases hv with
  | digit ha => exact ⟨_, _, rfl, ha⟩
  | next ha _ => exact ⟨_, _, rfl, ha⟩
  | join ha _ => exact ⟨_, _, rfl, ha⟩

end Grouped

/-- Further groups of digits: `(?:_d+)*` -/
def furtherGroups (S : CharSet) : Regex :=
  .star (.cat (.char '_') (.plus (.set S) true)) true

/-- **Digits are read to the end of their last group**, if what follows is no digit and no underscore. -/
theorem takes_groups {S : CharSet} (hS : S.mem '_' = false) {a : Char} {u w : List Char}
    (h : Grouped S.mem (a :: u)) (hw : Opens (fun b => S.mem b = false ∧ b ≠ '_') w) :
    (Regex.cat (.star (.set S) true) (furtherGroups S)).Takes u w := by
  generalize hv : a :: u = v at h
  induction h generalizing a u with
  | digit _ =>
    obtain ⟨rfl, rfl⟩ := List.cons.inj hv
    have hloop : (star (set S) true).Takes [] w :=
      .leave rfl (not_leads_set (hw.mono fun _ hb => hb.1))
    have hmore : (furtherGroups S).Takes [] w := by
      refine .leave rfl fun before => not_leads_cat (not_leads_set (hw.mono fun b hb => ?_) before)
      rw [CharSet.mem_single]
      exact decide_eq_false hb.2
    exact hloop.cat hmore
  | @next _ v _ hv' ih =>
    obtain ⟨rfl, rfl⟩ := List.cons.inj hv
    obtain ⟨b, u, rfl, hb⟩ := hv'.exists_cons
    have hset : (set S).Takes [b] (u ++ w) := .set hb _
    exact fun before => .enter_cat rfl (hset.cat (ih rfl) before)
  | @join _ v _ hv' ih =>
    obtain ⟨rfl, rfl⟩ := List.cons.inj hv
    obtain ⟨b, u, rfl, hb⟩ := hv'.exists_cons
    have hset : (set S).Takes [b] (u ++ w) := .set hb _
    have hloop : (star (set S) true).Takes [] ('_' :: b :: (u ++ w)) :=
      .leave rfl (not_leads_set (.cons hS _))
    have hunder : (char '_').Takes ['_'] ([b] ++ u ++ w) := .char '_' _
    -- the digits of the next group belong to a pass of the outer loop
    have hmore : (furtherGroups S).Takes (['_'] ++ ([b] ++ u)) w :=
      fun before => .enter rfl (hunder.cat (hset.cat (ih rfl)) before)
    exact hloop.cat hmore

/-! ## Literals -/

/-- Decimal digits, perhaps in groups. -/
structure Digits where
  chars : List Char
  grouped : Grouped Char.isDigit chars

def exponentLetters : List Char :=
  ['e', 'E', 'f', 'F', 'p', 'P']

/-- The letters of exponents that are digits of some base. -/
def digitLetters : List Char :=
  ['e', 'E', 'f', 'F']

def exponentSigns : List Char :=
  ['+', '-']

/-- An exponent: one of its letters, perhaps a sign, and digits. -/
structure Exponent where
  letter : Char
  sign : Option Char
  digits : Digits
  letter_mem : letter ∈ exponentLetters
  sign_mem : ∀ a ∈ sign, a ∈ exponentSigns

/-- A decimal literal. -/
structure DecimalLiteral where
  whole : Digits
  /-- The digits behind the point, if there is a point, and if there are any. -/
  fraction : Option (Option Digits)
  exponent : Option Exponent
  imaginary : Bool

def fractionChars : Option (Option Digits) → List Char
  | none => []
  | some none => ['.']
  | some (some ds) => '.' :: ds.chars

def exponentChars : Option Exponent → List Char
  | none => []
  | some x => x.letter :: (x.sign.toList ++ x.digits.chars)

def suffixChars (imaginary : Bool) : List Char :=
  if imaginary then ['j'] else []

namespace DecimalLiteral

/-- The literal as it is written. -/
def chars (ℓ : DecimalLiteral) : List Char :=
  ℓ.whole.chars ++ (fractionChars ℓ.fraction ++ (exponentChars ℓ.exponent ++ suffixChars ℓ.imaginary))

/-- The parts that the literal is divided into, with their kinds. A sign cuts it if no point stands before it and the
letter of the exponent is read as a digit. -/
def parts (ℓ : DecimalLiteral) : List (Kind × List Char) :=
  match ℓ.fraction, ℓ.exponent with
  | none, some ⟨letter, some sign, digits, _, _⟩ =>
    if letter ∈ digitLetters then
      [(.number, ℓ.whole.chars ++ [letter]), (.operator, [sign]),
        (.number, digits.chars ++ suffixChars ℓ.imaginary)]
    else [(.number, ℓ.chars)]
  | _, _ => [(.number, ℓ.chars)]

end DecimalLiteral

/-! ## What the parts of a number take -/

theorem Digits.opens (ds : Digits) (w : List Char) : Opens (· ∈ numberStarts) (ds.chars ++ w) := by
  obtain ⟨a, u, hau, ha⟩ := ds.grouped.exists_cons
  rw [hau]
  exact .cons (mem_numberStarts (mem_digit.trans ha)) (u ++ w)

/-- The digits of all bases up to sixteen. -/
def hexDigits : CharSet :=
  .fold (.unionAll digit [.range 'a' 'f'])

theorem mem_hexDigits {a : Char} (h : a.isDigit = true) : hexDigits.mem a = true := by
  rw [← mem_digit] at h
  change ((digit.mem a || _) || _) = true
  rw [h, Bool.true_or, Bool.true_or]

/-- The letters that name a base behind a zero. -/
def baseLetters : CharSet :=
  .fold (among 'b' ['o', 'x'])

/-- The letter of an exponent, a sign and digits. -/
def exponentPart : Regex :=
  .cat (eitherCase (among 'e' ['f', 'p'])) (.cat (.upTo (.set (among '+' ['-'])) 1 true)
    (.cat (.plus (.set digit) true) (furtherGroups digit)))

theorem fraction_eq : fraction =
    .upTo (.cat (.char '.') (.upTo (.cat (.plus (.set digit) true) (furtherGroups digit)) 1 true)) 1 true :=
  rfl

/-- A base and digits of that base. -/
def basedNumber : Regex :=
  .cat (.char '0') (.cat (.set baseLetters)
    (.alt (seq (digitGroups hexDigit ++ [fraction])) (seq (char '.' :: digitGroups (.set digit)))))

theorem wholeNumber_eq : wholeNumber =
    .cat wordEdge (.alt basedNumber
      (.cat (.set digit) (.cat (.star (.set hexDigits) true) (.cat (furtherGroups hexDigits) fraction)))) :=
  rfl

theorem number_eq : number =
    .cat (.alt wholeNumber fractionalNumber)
      (.cat (.upTo exponentPart 1 true) (.upTo (eitherCase (.single 'j')) 1 true)) := rfl

section

variable {w : List Char}

theorem takes_digits (ds : Digits) (hw : Opens (fun b => digit.mem b = false ∧ b ≠ '_') w) :
    (Regex.cat (.plus (.set digit) true) (furtherGroups digit)).Takes ds.chars w := by
  have hdigits : Grouped digit.mem ds.chars :=
    ds.grouped.mono fun a ha => mem_digit.trans ha
  obtain ⟨a, u, hau, ha⟩ := hdigits.exists_cons
  rw [hau] at hdigits ⊢
  have hset : (set digit).Takes [a] (u ++ w) := .set ha _
  exact hset.cat (takes_groups (by decide) hdigits hw)

theorem takes_suffix (imaginary : Bool) (hw : Opens (· ∈ exponentSigns) w) :
    (upTo (eitherCase (.single 'j')) 1 true).Takes (suffixChars imaginary) w := by
  cases imaginary with
  | false => exact .without (not_leads_set (hw.of_all (by decide)))
  | true => exact .once (.set (by decide) w)

theorem takes_exponent (x : Option Exponent) (hw : Opens (· ∈ ['j', '+', '-']) w) :
    (upTo exponentPart 1 true).Takes (exponentChars x) w := by
  cases x with
  | none =>
    exact .without fun before => not_leads_cat (not_leads_set (hw.of_all (by decide)) before)
  | some x =>
    have hdigits := takes_digits x.digits (hw.of_all (by decide))
    have hsign : (upTo (set (among '+' ['-'])) 1 true).Takes x.sign.toList (x.digits.chars ++ w) := by
      cases hs : x.sign with
      | none =>
        exact .without (not_leads_set ((x.digits.opens w).of_all (by decide)))
      | some a =>
        have hmem : ∀ a ∈ exponentSigns, (among '+' ['-']).mem a = true :=
          List.all_iff_forall_prop.1 (by decide)
        exact .once (.set (hmem a (x.sign_mem a hs)) _)
    have hletter : (eitherCase (among 'e' ['f', 'p'])).Takes [x.letter]
        (x.sign.toList ++ x.digits.chars ++ w) := by
      have hmem : ∀ a ∈ exponentLetters, (CharSet.fold (among 'e' ['f', 'p'])).mem a = true :=
        List.all_iff_forall_prop.1 (by decide)
      exact .set (hmem _ x.letter_mem) _
    exact .once (hletter.cat (hsign.cat hdigits))

theorem takes_fraction (f : Option (Option Digits))
    (hw : Opens (· ∈ exponentLetters ++ ['j', '+', '-']) w) :
    fraction.Takes (fractionChars f) w := by
  rw [fraction_eq]
  cases f with
  | none =>
    exact .without fun before => not_leads_cat (not_leads_set (hw.of_all (by decide)) before)
  | some digits =>
    cases digits with
    | none =>
      have hnone : (upTo (.cat (.plus (.set digit) true) (furtherGroups digit)) 1 true).Takes [] w := by
        refine .without fun before => not_leads_cat (not_leads_plus (not_leads_set ?_ before))
        exact hw.of_all (by decide)
      have hpoint : (Regex.char '.').Takes ['.'] ([] ++ w) := .char '.' _
      exact .once (hpoint.cat hnone)
    | some ds =>
      have hpoint : (Regex.char '.').Takes ['.'] (ds.chars ++ w) := .char '.' _
      exact .once (hpoint.cat (.once (takes_digits ds (hw.of_all (by decide)))))

end

/-! ## Numbers -/

section

variable {before whole w : List Char} {f : Option (Option Digits)} {x : Option Exponent}

theorem opens_suffix (imaginary : Bool) (hw : Opens (· ∈ exponentSigns) w) :
    Opens (· ∈ ['j', '+', '-']) (suffixChars imaginary ++ w) := by
  refine .append ?_ (hw.of_all (by decide))
  cases imaginary with
  | false => exact .nil
  | true => exact .cons (by decide) []

theorem opens_exponent (x : Option Exponent) (hw : Opens (· ∈ ['j', '+', '-']) w) :
    Opens (· ∈ exponentLetters ++ ['j', '+', '-']) (exponentChars x ++ w) := by
  refine .append ?_ (hw.of_all (by decide))
  cases x with
  | none => exact .nil
  | some x => exact .cons (List.mem_append_left _ x.letter_mem) _

/-- What follows the digits in front is no digit of any base, if a point stands before an exponent with a letter that
is one. -/
theorem opens_fraction (hx : f = none → ∀ y ∈ x, y.letter ∉ digitLetters)
    (hw : Opens (· ∈ ['j', '+', '-']) w) :
    Opens (· ∈ ['.', 'p', 'P', 'j', '+', '-']) (fractionChars f ++ (exponentChars x ++ w)) := by
  cases f with
  | some digits => cases digits <;> exact .cons (by decide) _
  | none =>
    refine .append .nil (.append ?_ (hw.of_all (by decide)))
    cases x with
    | none => exact .nil
    | some x =>
      have hletters : ∀ a ∈ exponentLetters, a ∉ digitLetters →
          a ∈ ['.', 'p', 'P', 'j', '+', '-'] :=
        List.all_iff_forall_prop.1 (by decide)
      exact .cons (hletters _ x.letter_mem (hx rfl x rfl)) _

/-- The characters are read as the digits in front of a point. -/
structure IsWhole (whole : List Char) : Prop where
  grouped : Grouped hexDigits.mem whole
  first : Opens (fun a => digit.mem a = true) whole
  /-- No letter names a base. -/
  unbased : ∀ a ∈ whole, baseLetters.mem a = false

namespace IsWhole

theorem of_digits (ds : Digits) : IsWhole ds.chars := by
  refine ⟨ds.grouped.mono fun a => mem_hexDigits, ?_, fun a ha => ?_⟩
  · obtain ⟨a, u, hau, ha⟩ := ds.grouped.exists_cons
    rw [hau]
    exact .cons (mem_digit.trans ha) u
  · rcases ds.grouped.of_mem ha with hdigit | rfl
    · have hmem : ∀ a ∈ numberStarts, baseLetters.mem a = false :=
        List.all_iff_forall_prop.1 (by decide)
      exact hmem a (mem_numberStarts (mem_digit.trans hdigit))
    · decide

theorem append {v : List Char} (h : IsWhole whole) (hv : Grouped hexDigits.mem v)
    (hunbased : ∀ a ∈ v, baseLetters.mem a = false) : IsWhole (whole ++ v) := by
  refine ⟨h.grouped.append hv, ?_, fun a ha => ?_⟩
  · obtain ⟨a, u, rfl, -⟩ := h.grouped.exists_cons
    exact h.first
  · rcases List.mem_append.1 ha with ha | ha
    · exact h.unbased a ha
    · exact hunbased a ha

theorem append_letter {a : Char} (h : IsWhole whole) (ha : a ∈ digitLetters) :
    IsWhole (whole ++ [a]) := by
  have hletter : ∀ a ∈ digitLetters, hexDigits.mem a = true ∧ baseLetters.mem a = false :=
    List.all_iff_forall_prop.1 (by decide)
  obtain ⟨hmem, hbase⟩ := hletter a ha
  exact h.append (.digit hmem) (List.forall_mem_singleton.2 hbase)

theorem append_digits (h : IsWhole whole) (ds : Digits) : IsWhole (whole ++ ds.chars) :=
  h.append (of_digits ds).grouped (of_digits ds).unbased

end IsWhole

theorem prefers_wholeNumber (hbefore : before.getLast?.any isWord = false) (hwhole : IsWhole whole)
    (hfraction : Opens (· ∈ ['.', 'p', 'P', 'j', '+', '-']) (fractionChars f ++ w))
    (hw : Opens (· ∈ exponentLetters ++ ['j', '+', '-']) w) :
    wholeNumber.Prefers (.behind before (whole ++ fractionChars f ++ w))
      (.behind (before ++ (whole ++ fractionChars f)) w) := by
  obtain ⟨a, u, rfl, -⟩ := hwhole.grouped.exists_cons
  have ha : digit.mem a = true := hwhole.first a rfl
  have hgroups := (takes_groups (by decide) hwhole.grouped (hfraction.of_all (by decide))).cat
    (takes_fraction f hw)
  have hdigits : (Regex.cat (.set digit) (.cat (.star (.set hexDigits) true)
      (.cat (furtherGroups hexDigits) fraction))).Takes ([a] ++ (u ++ fractionChars f)) w :=
    (Takes.set ha _).cat hgroups
  have hedge : wordEdge.Prefers (.behind before ([a] ++ (u ++ fractionChars f) ++ w))
      (.behind before ([a] ++ (u ++ fractionChars f) ++ w)) := by
    refine .look ?_
    change (before.reverse.head?.any isWord != isWord a) = true
    rw [List.head?_reverse, hbefore, isWord_of_digit ha]
    rfl
  -- behind the first digit there is no letter of a base
  have hletter : Opens (fun b => baseLetters.mem b = false) (u ++ fractionChars f ++ w) := by
    rw [List.append_assoc]
    refine .append (fun b hb => hwhole.unbased b ?_) (hfraction.of_all (by decide))
    exact List.mem_cons_of_mem a (List.mem_of_mem_head? hb)
  have hbased : ∀ e, ¬ basedNumber.Leads (.behind before ([a] ++ (u ++ fractionChars f) ++ w)) e := by
    rintro e ⟨g, hzero, hmore⟩
    have hg := (Cursor.next?_behind before a _).symm.trans (leads_char hzero)
    obtain ⟨-, rfl⟩ := Prod.mk.inj (Option.some.inj hg)
    exact not_leads_cat (not_leads_set hletter _) e hmore
  rw [wholeNumber_eq]
  exact hedge.cat (.right hbased (hdigits before))

/-- **A number takes all its parts**, if a point stands before an exponent whose letter is a digit. -/
theorem prefers_number (imaginary : Bool) (hbefore : before.getLast?.any isWord = false)
    (hwhole : IsWhole whole) (hx : f = none → ∀ y ∈ x, y.letter ∉ digitLetters)
    (hw : Opens (· ∈ exponentSigns) w) :
    number.Prefers
      (.behind before (whole ++ (fractionChars f ++ (exponentChars x ++ suffixChars imaginary)) ++ w))
      (.behind (before ++ (whole ++ (fractionChars f ++ (exponentChars x ++ suffixChars imaginary)))) w) := by
  have hsuffix := opens_suffix imaginary hw
  have hfront := Prefers.left (s := fractionalNumber) (prefers_wholeNumber hbefore hwhole
    (opens_fraction hx hsuffix) (opens_exponent x hsuffix))
  have hback := (takes_exponent x hsuffix).cat (takes_suffix imaginary hw)
    (before ++ (whole ++ fractionChars f))
  rw [List.append_assoc] at hback
  rw [number_eq]
  simpa only [List.append_assoc] using hfront.cat hback

theorem claim?_number (imaginary : Bool) (hbefore : before.getLast?.any isWord = false)
    (hwhole : IsWhole whole) (hx : f = none → ∀ y ∈ x, y.letter ∉ digitLetters)
    (hw : Opens (· ∈ exponentSigns) w) (hquote : '"' ∉ w) {v : List Char}
    (hv : v = whole ++ (fractionChars f ++ (exponentChars x ++ suffixChars imaginary))) :
    claim? grammar.entries (.behind before (v ++ w)) = some (numberEntry, byteLength v) ∧ '"' ∉ v := by
  have hprefers := prefers_number imaginary hbefore hwhole hx hw
  rw [← hv] at hprefers
  have hne : v ≠ [] := by
    obtain ⟨a, u, rfl, -⟩ := hwhole.grouped.exists_cons
    rw [hv]
    exact List.cons_ne_nil a _
  have hsolid : number.isSolid = true := by decide +kernel
  have hlength : numberEntry.pattern.length? (.behind before (v ++ w)) = some (byteLength v) :=
    Pattern.length?_of_prefers rfl rfl hsolid hne hprefers
  have hmem : '"' ∉ v :=
    not_mem_of_reads? (r := number) (by decide) (Pattern.reads?_of_length? rfl rfl rfl hlength)
  refine ⟨?_, hmem⟩
  obtain ⟨a, u, rfl, -⟩ := hwhole.grouped.exists_cons
  refine claim?_of_length?_number (mem_numberStarts (hwhole.first a rfl)) ?_ ?_ hlength
  · rw [hv]
    rfl
  · exact fun hquoted => (List.mem_append.1 hquoted).elim hmem hquote

def operatorEntry : Entry :=
  ⟨.operator, none, { matcher := .regex operator }⟩

theorem claim?_sign {a : Char} (ha : a ∈ exponentSigns) (hbefore : before.getLast?.any isWord = true)
    (w : List Char) :
    claim? grammar.entries (.behind before ([a] ++ w)) = some (operatorEntry, byteLength [a]) := by
  have hsign : ∀ a ∈ exponentSigns, isWord a = false ∧
      (among '-' ['+', '*', '/', '^', '&', '|', '<', '>']).mem a = true ∧
      ∀ e ∈ grammar.entries.takeWhile (· ≠ operatorEntry), cannotBegin e.pattern a = true :=
    List.all_iff_forall_prop.1 (by decide +kernel)
  obtain ⟨hword, hmem, hearlier⟩ := hsign a ha
  have hedge : wordEdge.Prefers (.behind before ([a] ++ w)) (.behind before ([a] ++ w)) := by
    refine .look ?_
    change (before.reverse.head?.any isWord != isWord a) = true
    rw [List.head?_reverse, hbefore, hword]
    rfl
  have hprefers : operator.Prefers (.behind before ([a] ++ w)) (.behind (before ++ [a]) w) :=
    .left (hedge.cat (Takes.set hmem w before))
  have hlength := Pattern.length?_of_prefers (p := operatorEntry.pattern) rfl rfl (by decide)
    (List.cons_ne_nil a []) hprefers
  exact claim?_eq_some_iff.2 ⟨by decide +kernel, hlength, forall_length?_eq_none hearlier rfl⟩

end

/-! ## The tokens of a literal -/

/-- Tokens without children that lie side by side, the first of them from `start` on. -/
def sideBySide (start : Nat) : List (Kind × List Char) → List Token
  | [] => []
  | (kind, v) :: more =>
    ⟨kind, none, String.ofList v, ⟨start, start + byteLength v⟩, []⟩ ::
      sideBySide (start + byteLength v) more

theorem map_layout_token (rescan : Bool) (entries : List Entry) (start : Nat)
    {parts : List (Entry × List Char)}
    (hparts : ∀ x ∈ parts, x.1.label = none ∧ x.1.pattern.greedy = false) :
    (Piece.layout start (parts.map fun x => (some x.1, x.2))).map
        (fun p => p.token 0 (childrenBy rescan entries 0 p)) =
      sideBySide start (parts.map fun x => (x.1.kind, x.2)) := by
  induction parts generalizing start with
  | nil => rfl
  | cons x parts ih =>
    obtain ⟨⟨hlabel, hgreedy⟩, hparts⟩ := List.forall_mem_cons.1 hparts
    rw [List.map_cons, Piece.layout, List.map_cons, ih _ hparts]
    simp [Piece.token, Piece.stop, childrenBy, sideBySide, hlabel, hgreedy]

theorem not_isPlain_sideBySide {start : Nat} {parts : List (Kind × List Char)}
    (hparts : ∀ x ∈ parts, x.1 ≠ .plain) : ∀ t ∈ sideBySide start parts, t.isPlain = false := by
  induction parts generalizing start with
  | nil => exact nofun
  | cons x parts ih =>
    obtain ⟨hkind, hparts⟩ := List.forall_mem_cons.1 hparts
    exact List.forall_mem_cons.2 ⟨decide_eq_false hkind, ih hparts⟩

theorem tokenize_of_claimedInTurn {text : List Char} {parts : List (Entry × List Char)}
    (h : ClaimedInTurn grammar.entries [] text parts)
    (hparts : ∀ x ∈ parts, x.1 = numberEntry ∨ x.1 = operatorEntry) (rescan : Bool) :
    grammar.tokenize (String.ofList text) rescan =
      sideBySide 0 (parts.map fun x => (x.1.kind, x.2)) := by
  have hentry : ∀ x ∈ parts, x.1.label = none ∧ x.1.pattern.greedy = false := by
    intro x hx
    rcases hparts x hx with hx | hx <;> exact hx ▸ ⟨rfl, rfl⟩
  have hkind : ∀ x ∈ parts.map fun x => (x.1.kind, x.2), x.1 ≠ .plain := by
    rintro _ hx
    obtain ⟨y, hy, rfl⟩ := List.mem_map.1 hx
    rcases hparts y hy with hy | hy <;> exact hy ▸ nofun
  have hpieces : cutAfresh grammar.entries text = Piece.layout 0 (parts.map fun x => (some x.1, x.2)) :=
    h.pieces_eq
  rw [Grammar.tokenize_eq, String.toList_ofList, tokensBy_eq, hpieces, map_layout_token _ _ _ hentry,
    Token.join_eq_self (not_isPlain_sideBySide hkind)]

/-- A literal is one number if nothing of its exponent is read as a digit, or all of it. -/
theorem tokenize_whole {whole : List Char} (hwhole : IsWhole whole) (f : Option (Option Digits))
    (x : Option Exponent) (imaginary rescan : Bool)
    (hx : f = none → ∀ y ∈ x, y.letter ∉ digitLetters) {v : List Char}
    (hv : v = whole ++ (fractionChars f ++ (exponentChars x ++ suffixChars imaginary))) :
    grammar.tokenize (String.ofList v) rescan = sideBySide 0 [(.number, v)] := by
  have hturn : ClaimedInTurn grammar.entries [] (v ++ []) [(numberEntry, v)] :=
    .cons (claim?_number imaginary rfl hwhole hx .nil List.not_mem_nil hv).1 .nil
  rw [List.append_nil] at hturn
  exact tokenize_of_claimedInTurn hturn (List.forall_mem_singleton.2 (Or.inl rfl)) rescan

theorem tokenize_cut {whole : List Char} (hwhole : IsWhole whole) {letter sign : Char}
    (hletter : letter ∈ digitLetters) (hsign : sign ∈ exponentSigns) (ds : Digits)
    (imaginary rescan : Bool) :
    grammar.tokenize
        (String.ofList (whole ++ [letter] ++ ([sign] ++ (ds.chars ++ suffixChars imaginary)))) rescan =
      sideBySide 0 [(.number, whole ++ [letter]), (.operator, [sign]),
        (.number, ds.chars ++ suffixChars imaginary)] := by
  have hword : ∀ a ∈ digitLetters, isWord a = true := List.all_iff_forall_prop.1 (by decide)
  have hnoWord : ∀ a ∈ exponentSigns, isWord a = false ∧ '"' ≠ a :=
    List.all_iff_forall_prop.1 (by decide)
  obtain ⟨hedge, hquote⟩ := hnoWord sign hsign
  have hbehindLetter : (whole ++ [letter]).getLast?.any isWord = true := by
    rw [List.getLast?_concat]
    exact hword letter hletter
  have hbehindSign : (whole ++ [letter] ++ [sign]).getLast?.any isWord = false := by
    rw [List.getLast?_concat]
    exact hedge
  -- the last of the three is looked at first, as it tells that no quote stands behind the first
  obtain ⟨hthird, hback⟩ := claim?_number (f := none) (x := none) imaginary hbehindSign (.of_digits ds)
    (fun _ => nofun) .nil List.not_mem_nil (v := ds.chars ++ suffixChars imaginary) rfl
  have hsecond := claim?_sign hsign hbehindLetter (ds.chars ++ suffixChars imaginary)
  have hnone : ([] : List Char).getLast?.any isWord = false := rfl
  obtain ⟨hfirst, -⟩ := claim?_number (f := none) (x := none) false hnone (hwhole.append_letter hletter)
    (fun _ => nofun) (.cons hsign _) (List.not_mem_cons_of_ne_of_not_mem hquote hback)
    (v := whole ++ [letter]) (List.append_nil _).symm
  have hlast : ClaimedInTurn grammar.entries (whole ++ [letter] ++ [sign])
      (ds.chars ++ suffixChars imaginary ++ []) [(numberEntry, ds.chars ++ suffixChars imaginary)] :=
    .cons hthird .nil
  rw [List.append_nil] at hlast
  exact tokenize_of_claimedInTurn (.cons hfirst (.cons hsecond hlast)) (by simp) rescan

/-- **A decimal literal is one number**, unless a sign cuts it. The sign of an exponent does, if no point stands
before the exponent and its letter is a digit of some base; then there are two numbers with an operator between. -/
theorem tokenize_decimalLiteral (ℓ : DecimalLiteral) (rescan : Bool) :
    grammar.tokenize (String.ofList ℓ.chars) rescan = sideBySide 0 ℓ.parts := by
  obtain ⟨ds, f, x, imaginary⟩ := ℓ
  have hwhole := IsWhole.of_digits ds
  rcases f with - | digits
  · rcases x with - | ⟨letter, sign, digits, hletter, hsign⟩
    · exact tokenize_whole hwhole none none imaginary rescan (fun _ => nofun) rfl
    · by_cases hdigit : letter ∈ digitLetters
      · cases sign with
        | none =>
          refine tokenize_whole ((hwhole.append_letter hdigit).append_digits digits) none none imaginary rescan
            (fun _ => nofun) ?_
          simp [DecimalLiteral.chars, fractionChars, exponentChars]
        | some sign =>
          have hcut := tokenize_cut hwhole hdigit (hsign sign rfl) digits imaginary rescan
          have hparts : DecimalLiteral.parts
              ⟨ds, none, some ⟨letter, some sign, digits, hletter, hsign⟩, imaginary⟩ = _ := if_pos hdigit
          rw [hparts, ← hcut]
          simp [DecimalLiteral.chars, fractionChars, exponentChars]
      · have hone := tokenize_whole hwhole none (some ⟨letter, sign, digits, hletter, hsign⟩) imaginary rescan
          (fun _ y hy => by rw [← Option.some.inj hy]; exact hdigit) rfl
        cases sign with
        | none => exact hone
        | some sign =>
          have hparts : DecimalLiteral.parts
              ⟨ds, none, some ⟨letter, some sign, digits, hletter, hsign⟩, imaginary⟩ = _ := if_neg hdigit
          rw [hparts]
          exact hone
  · exact tokenize_whole hwhole (some digits) x imaginary rescan nofun rfl

/-- In `1e+5` the letter is read as a digit, and the sign is an operator. -/
theorem tokenize_signed_exponent :
    (grammar.tokenize "1e+5" true).map (fun t => (t.kind, t.value, t.span)) =
      [(.number, "1e", ⟨0, 2⟩), (.operator, "+", ⟨2, 3⟩), (.number, "5", ⟨3, 4⟩)] := by
  decide +kernel

end Moonli

end Highlight
