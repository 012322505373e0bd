import Highlight.Proofs.Boundary
import Highlight.Proofs.Moonli.Comments
import Highlight.Proofs.Regex.Cut
import Highlight.Proofs.Regex.Texts
import Mathlib.Data.List.TakeWhile

/-!
# Tokens of moonli stand alone

The text of a token is, alone, that token again. It is cut off on both sides for this. What was before it counts
through assertions only, and what followed it through assertions and as more to read. So an entry can be asked
in three ways.

* Expressions without assertions read up to the cut what they read before, and where they read nothing they still read
  nothing (`reads?_alone_of_blind`, `length?_ofText_eq_none`).
* Prefixed strings and numbers have assertions where they begin. They begin with a quote or a point or behind
  what is no word, so they do not need what was before them (`opens_prefixedString`, `opens_number`).
* Keywords, booleans, signs and constants have finitely many texts, and each of them is asked alone
  (`isListed_of_mem`).

Operators and the keywords that begin with an ampersand need a word before or behind them and do not stand alone.
-/

namespace Highlight

namespace Moonli

/-! ## Entries of the table -/

def regexEntry : Entry :=
  ⟨.regex, none, { matcher := .regex regexLiteral, greedy := true }⟩

def tripleEntry : Entry :=
  ⟨.string, some "triple-quoted", { matcher := .regex tripleQuoted, greedy := true }⟩

def prefixedEntry : Entry :=
  ⟨.string, some "prefixed", { matcher := .regex prefixedString, greedy := true }⟩

def commandEntry : Entry :=
  ⟨.string, some "command", { matcher := .regex commandString, greedy := true }⟩

def charEntry : Entry :=
  ⟨.char, none, { matcher := .regex charLiteral, lookbehind := true, greedy := true }⟩

def numberEntry : Entry :=
  ⟨.number, none, { matcher := .regex number }⟩

theorem entries_eq : grammar.entries =
    [blockEntry, lineEntry, regexEntry, tripleEntry, prefixedEntry, commandEntry, charEntry,
      ⟨.keyword, none, { matcher := .regex keyword }⟩, ⟨.boolean, none, { matcher := .regex boolean }⟩,
      numberEntry, ⟨.operator, none, { matcher := .regex operator }⟩,
      ⟨.punctuation, none, { matcher := .regex punctuation }⟩,
      ⟨.constant, none, { matcher := .regex constant }⟩] := rfl

/-- What is claimed in the table. The entries of the last four kinds have finitely many texts. -/
theorem entry_of_mem : ∀ e ∈ grammar.entries, e.kind = .comment ∨ e = regexEntry ∨ e = tripleEntry ∨
    e = prefixedEntry ∨ e = commandEntry ∨ e = charEntry ∨ e = numberEntry ∨ e.kind = .operator ∨
    e.kind ∈ [.keyword, .boolean, .punctuation, .constant] := by
  simp [entries_eq, blockEntry, lineEntry]

/-! ## A cut behind a token -/

section

variable {p : Pattern} {c : Cursor} {v w : List Char}

theorem length?_ofText {r : Regex} (hp : p.matcher = .regex r) (hl : p.lookbehind = false) (hv : v ≠ [])
    (h : reads? [[⟨r, 0⟩]] none v = some v) : p.length? (.ofText v) = some (byteLength v) := by
  have hreads : reads? [[⟨r, 0⟩]] (Cursor.ofText v).before.head? (Cursor.ofText v).rest = some v := h
  rw [Pattern.length?_regex hp hl, hreads, Option.map_some, Option.filter_some,
    if_pos (decide_eq_true (byteLength_pos.2 hv))]

theorem confuses_blind (prev prev' next : Option Char) :
    Vocabulary.blind.Confuses ⟨prev, next⟩ ⟨prev', next⟩ :=
  ⟨fun _ _ => rfl, nofun⟩

/-- **What is read without assertions is read alone.** -/
theorem reads?_alone_of_blind {r : Regex} (hr : r.isOver .blind = true) {place : Nat}
    {prev : Option Char} (h : reads? [[⟨r, place⟩]] prev (v ++ w) = some v) :
    reads? [[⟨r, place⟩]] none v = some v := by
  have hspells := Vocabulary.spells_singleton hr place
  rw [reads?_congr (confuses_blind none prev _) hspells, reads?_cut hspells h]

theorem length?_ofText_eq_none {a : Char} {r : Regex} (hp : p.matcher = .regex (.cat (.char a) r))
    (hl : p.lookbehind = false) (hr : r.isOver .blind = true) (hrest : c.rest = v ++ w)
    (h : p.length? c = none) : p.length? (.ofText v) = none := by
  refine Option.eq_none_iff_forall_ne_some.2 fun n hn => ?_
  have hblind : (Regex.cat (.char a) r).isOver .blind = true := hr
  have hspells := Vocabulary.spells_singleton hblind 0
  obtain ⟨u, more, hu, -, rfl⟩ := Pattern.exists_of_length? hn
  have halone : reads? [[⟨.cat (.char a) r, 0⟩]] none v = some u :=
    Pattern.reads?_of_length? hp hl hu hn
  -- what reads something alone reads something of the longer text
  have hsome := isSome_reads?_append hspells w (Option.isSome_of_eq_some halone)
  rw [reads?_congr (confuses_blind none c.before.head? _) hspells, ← hrest] at hsome
  obtain ⟨cs, hcs⟩ := Option.isSome_iff_exists.1 hsome
  obtain ⟨rest, ds, -, rfl, -⟩ := exists_of_reads?_cat_char hcs
  have hpos : 0 < byteLength (a :: ds) := byteLength_pos.2 (List.cons_ne_nil a ds)
  rw [Pattern.length?_regex hp hl, hcs, Option.map_some, Option.filter_some,
    if_pos (decide_eq_true hpos)] at h
  cases h

end

/-! ## Rules that begin with a character -/

section

variable {e : Entry} {c : Cursor} {v w : List Char}

theorem forall_length?_eq_none {f : Entry → Bool} {c : Cursor} {a : Char} {rest : List Char}
    (h : ∀ e ∈ grammar.entries.takeWhile f, cannotBegin e.pattern a = true) (hrest : c.rest = a :: rest) :
    ∀ e ∈ grammar.entries.takeWhile f, e.pattern.length? c = none :=
  fun e he => length?_of_cannotBegin ((List.takeWhile_prefix f).subset he) (h e he) hrest

theorem claim?_of_char {a : Char} {r : Regex} (he : e ∈ grammar.entries)
    (hp : e.pattern.matcher = .regex (.cat (.char a) r)) (hl : e.pattern.lookbehind = false)
    (hr : r.isOver .blind = true)
    (hearlier : ∀ f ∈ grammar.entries.takeWhile (· ≠ e), cannotBegin f.pattern a = true)
    (hrest : c.rest = v ++ w) (h : e.pattern.length? c = some (byteLength v)) :
    claim? grammar.entries (.ofText v) = some (e, byteLength v) := by
  have hreads := Pattern.reads?_of_length? hp hl hrest h
  obtain ⟨rest, ds, -, rfl, -⟩ := exists_of_reads?_cat_char hreads
  have hblind : (Regex.cat (.char a) r).isOver .blind = true := hr
  rw [hrest] at hreads
  exact claim?_eq_some_iff.2 ⟨he, length?_ofText hp hl (List.cons_ne_nil a ds)
    (reads?_alone_of_blind hblind hreads), forall_length?_eq_none hearlier rfl⟩

theorem claim?_of_charLiteral (hrest : c.rest = v ++ w)
    (h : charEntry.pattern.length? c = some (byteLength v)) :
    claim? grammar.entries (.ofText v) = some (charEntry, byteLength v) := by
  have hearlier : ∀ f ∈ grammar.entries.takeWhile (· ≠ charEntry), cannotBegin f.pattern '\'' = true := by
    decide
  rw [charEntry, length?_charLiteral rfl rfl] at h
  split at h
  · obtain ⟨cs, hreads, hlength⟩ := Option.map_eq_some_iff.1 h
    obtain ⟨more, hmore⟩ := exists_append_of_reads? hreads
    obtain rfl : cs = v := eq_of_byteLength_eq (hmore.symm.trans hrest) hlength
    obtain ⟨rest, ds, -, rfl, -⟩ := exists_of_reads?_cat_char hreads
    rw [hrest] at hreads
    have halone := reads?_alone_of_blind (by decide) hreads
    refine claim?_eq_some_iff.2 ⟨by decide, ?_, forall_length?_eq_none hearlier rfl⟩
    rw [charEntry, length?_charLiteral rfl rfl]
    exact congrArg (Option.map byteLength) halone
  · cases h

end

/-! ## Comments -/

/-- **The comment at the start of a text is the same comment alone.** -/
theorem commentAt_of_append {v w : List Char} (h : (commentAt (v ++ w)).2 = byteLength v) :
    commentAt v = commentAt (v ++ w) := by
  cases hblock : block? (v ++ w) with
  | some n =>
    obtain ⟨u, more, hu, hlength, halone⟩ := block?_spec hblock
    rw [commentAt, hblock] at h
    obtain rfl : v = u := eq_of_byteLength_eq hu (h.symm.trans hlength.symm)
    have hv := halone []
    rw [List.append_nil] at hv
    rw [commentAt, commentAt, hblock, hv]
  | none =>
    have hv : block? v = none := by
      refine Option.eq_none_iff_forall_ne_some.2 fun n hn => ?_
      obtain ⟨u, more, rfl, -, halone⟩ := block?_spec hn
      rw [List.append_assoc, halone] at hblock
      cases hblock
    rw [commentAt, hblock] at h
    have hline : (v ++ w).takeWhile inLine.mem = v :=
      eq_of_byteLength_eq List.takeWhile_append_dropWhile h
    have hall : ∀ a ∈ v, inLine.mem a = true := by
      have hall : ((v ++ w).takeWhile inLine.mem).all inLine.mem = true := List.all_takeWhile
      rwa [hline, List.all_eq_true] at hall
    rw [commentAt, commentAt, hblock, hv, hline, List.takeWhile_eq_self_iff.2 hall]

theorem claim?_of_comment {e : Entry} {c : Cursor} {v w : List Char} (hc : ¬ IsHidden c)
    (hrest : c.rest = v ++ w) (hv : v ≠ [])
    (h : claim? grammar.entries c = some (e, byteLength v)) (he : e.kind = .comment) :
    claim? grammar.entries (.ofText v) = some (e, byteLength v) := by
  have hmore : ∀ e ∈ grammar.entries.drop 2, e.kind ≠ .comment := fun e he => (spec_of_mem_drop e he).1
  rw [entries_grammar] at h ⊢
  obtain ⟨hprev, hhead⟩ := of_claim?_comment hmore hc h he
  rw [claim?_of_hash hc hprev hhead, hrest] at h
  have hsame := commentAt_of_append (congrArg Prod.snd (Option.some.inj h))
  obtain ⟨a, ds, rfl⟩ := List.exists_cons_of_ne_nil hv
  rw [hrest, List.cons_append, List.head?_cons] at hhead
  have hstart : ¬ IsHidden (.ofText (a :: ds)) := fun hidden => List.cons_ne_nil _ _ hidden.1.symm
  rw [claim?_of_hash hstart nofun hhead]
  exact (congrArg some hsame).trans h

/-! ## Prefixed strings and numbers -/

section

variable {c : Cursor} {v w : List Char}

theorem claim?_of_prefixedString (hrest : c.rest = v ++ w) (hv : v ≠ [])
    (h : claim? grammar.entries c = some (prefixedEntry, byteLength v)) :
    claim? grammar.entries (.ofText v) = some (prefixedEntry, byteLength v) := by
  obtain ⟨hmem, hlength, hearlier⟩ := claim?_eq_some_iff.1 h
  have hreads := Pattern.reads?_of_length? (p := prefixedEntry.pattern) rfl rfl hrest hlength
  obtain ⟨-, hopen⟩ := opens_prefixedString hreads
  obtain ⟨a, ds, rfl⟩ := List.exists_cons_of_ne_nil hv
  rw [hrest, List.cons_append, List.head?_cons] at hopen
  rw [hrest] at hreads
  have halone : reads? [[⟨prefixedString, 0⟩]] none (a :: ds) = some (a :: ds) := by
    have hcut := reads?_cut_of_looksFirst (by decide) hreads
    rcases hopen with hquote | ⟨hprev, -⟩
    · obtain rfl : a = '"' := Option.some.inj hquote
      rwa [reads?_of_isFreeAt (by decide) (by decide)] at hcut
    · rwa [reads?_of_not_isWord (by decide) hprev] at hcut
  have ha : a ≠ '#' := by
    rintro rfl
    rcases hopen with hquote | ⟨-, hword⟩
    · cases hquote
    · revert hword
      decide
  refine claim?_eq_some_iff.2 ⟨hmem, length?_ofText rfl rfl hv halone, fun f hf => ?_⟩
  have hbefore : ∀ f ∈ grammar.entries.takeWhile (· ≠ prefixedEntry),
      f = blockEntry ∨ f = lineEntry ∨ f = regexEntry ∨ f = tripleEntry := by
    decide
  have hnone := hearlier f hf
  rcases hbefore f hf with rfl | rfl | rfl | rfl
  · exact length?_of_cannotBegin (by decide) (cannotBegin_comments ha).1 rfl
  · exact length?_of_cannotBegin (by decide) (cannotBegin_comments ha).2 rfl
  · exact length?_ofText_eq_none rfl rfl (by decide) hrest hnone
  · exact length?_ofText_eq_none rfl rfl (by decide) hrest hnone

/-- What reads as a number is claimed as one, if the text holds no quote. A number may be the prefix of a string. -/
theorem claim?_of_length?_number {a : Char} (ha : a ∈ numberStarts) (hhead : c.rest.head? = some a)
    (hquote : '"' ∉ c.rest) {n : Nat} (hlength : numberEntry.pattern.length? c = some n) :
    claim? grammar.entries c = some (numberEntry, n) := by
  obtain ⟨rest, hrest⟩ := List.head?_eq_some_iff.1 hhead
  refine claim?_eq_some_iff.2 ⟨by decide, hlength, fun f hf => ?_⟩
  have hbegin : (grammar.entries.takeWhile (· ≠ numberEntry)).all (fun f =>
      f = prefixedEntry || numberStarts.all (cannotBegin f.pattern)) = true := by
    decide +kernel
  rcases (Bool.or_eq_true _ _).mp (List.all_eq_true.1 hbegin f hf) with hprefixed | hbegin
  · -- a prefixed string would hold a quote
    obtain rfl := of_decide_eq_true hprefixed
    refine Option.eq_none_iff_forall_ne_some.2 fun n hn => hquote ?_
    obtain ⟨u, more, htext, -, rfl⟩ := Pattern.exists_of_length? hn
    have hu := Pattern.reads?_of_length? (p := prefixedEntry.pattern) rfl rfl htext hn
    rw [htext]
    exact List.mem_append_left more (opens_prefixedString hu).1
  · exact length?_of_cannotBegin ((List.takeWhile_prefix _).subset hf)
      (List.all_eq_true.1 hbegin a ha) hrest

theorem claim?_of_number (hrest : c.rest = v ++ w) (hv : v ≠ [])
    (h : claim? grammar.entries c = some (numberEntry, byteLength v)) :
    claim? grammar.entries (.ofText v) = some (numberEntry, byteLength v) := by
  obtain ⟨-, hlength, -⟩ := claim?_eq_some_iff.1 h
  have hreads := Pattern.reads?_of_length? (p := numberEntry.pattern) rfl rfl hrest hlength
  obtain ⟨hprev, a, ha, hhead⟩ := opens_number hreads
  obtain ⟨b, ds, rfl⟩ := List.exists_cons_of_ne_nil hv
  rw [hrest] at hreads hhead
  have halone : reads? [[⟨number, 0⟩]] none (b :: ds) = some (b :: ds) := by
    have hcut := reads?_cut_of_looksFirst (by decide) hreads
    rwa [reads?_of_not_isWord (by decide) hprev] at hcut
  exact claim?_of_length?_number ha hhead (not_mem_of_reads? (by decide) hreads)
    (length?_ofText rfl rfl hv halone)

end

/-! ## Words and signs -/

/-- The pattern offers nothing of the text alone. -/
def isMute (p : Pattern) (v : List Char) : Bool :=
  v.head?.any (cannotBegin p) ||
    match p.matcher with
    | .regex r => !p.lookbehind && reads? [[⟨r, 0⟩]] none v = none
    | .blockComment => false

theorem length?_of_isMute {e : Entry} (he : e ∈ grammar.entries) {v : List Char}
    (h : isMute e.pattern v = true) : e.pattern.length? (.ofText v) = none := by
  rcases (Bool.or_eq_true _ _).mp h with h | h
  · cases v with
    | nil => cases h
    | cons a v => exact length?_of_cannotBegin he h rfl
  · split at h
    · next r hr =>
      obtain ⟨hl, hnone⟩ := (Bool.and_eq_true _ _).mp h
      rw [Bool.not_eq_true'] at hl
      have hreads : reads? [[⟨r, 0⟩]] (Cursor.ofText v).before.head? (Cursor.ofText v).rest = none :=
        of_decide_eq_true hnone
      rw [Pattern.length?_regex hr hl, hreads]
      rfl
    · cases h

/-- The entry has finitely many texts, and alone it claims each of them, but for those that begin with an
ampersand and those that it never reads. -/
def isListed (e : Entry) : Bool :=
  match e.pattern.matcher with
  | .regex r => !e.pattern.lookbehind && r.isOver .unanchored && r.texts?.any fun us =>
    us.all fun v => (e.kind = .keyword && v.head? = some '&') ||
      (reads? [[⟨r, 0⟩]] none v = some v && (grammar.entries.takeWhile (· ≠ e)).all (isMute ·.pattern v)) ||
      r.isGivenUp v
  | .blockComment => false

theorem isListed_of_mem : ∀ e ∈ grammar.entries,
    e.kind ∈ [.keyword, .boolean, .punctuation, .constant] → isListed e = true := by
  decide +kernel

theorem claim?_of_isListed {e : Entry} (he : e ∈ grammar.entries) (hlisted : isListed e = true)
    {c : Cursor} {v w : List Char} (hrest : c.rest = v ++ w) (hv : v ≠ [])
    (hamp : e.kind = .keyword → v.head? ≠ some '&') (h : e.pattern.length? c = some (byteLength v)) :
    claim? grammar.entries (.ofText v) = some (e, byteLength v) := by
  unfold isListed at hlisted
  split at hlisted
  · next r hr =>
    obtain ⟨hboth, htexts⟩ := (Bool.and_eq_true _ _).mp hlisted
    obtain ⟨hl, hover⟩ := (Bool.and_eq_true _ _).mp hboth
    rw [Bool.not_eq_true'] at hl
    have hreads := Pattern.reads?_of_length? hr hl hrest h
    cases hus : r.texts? with
    | none => rw [hus] at htexts; cases htexts
    | some us =>
      rw [hus, Option.any_some] at htexts
      have hthis := List.all_eq_true.1 htexts v (mem_texts_of_reads? hus hreads)
      rcases (Bool.or_eq_true _ _).mp hthis with hthis | hgiven
      · rcases (Bool.or_eq_true _ _).mp hthis with hamp' | halone
        · obtain ⟨hkind, hhead⟩ := (Bool.and_eq_true _ _).mp hamp'
          exact absurd (of_decide_eq_true hhead) (hamp (of_decide_eq_true hkind))
        · obtain ⟨halone, hmute⟩ := (Bool.and_eq_true _ _).mp halone
          refine claim?_eq_some_iff.2 ⟨he, length?_ofText hr hl hv (of_decide_eq_true halone), ?_⟩
          exact fun f hf => length?_of_isMute ((List.takeWhile_prefix _).subset hf)
            (List.all_eq_true.1 hmute f hf)
      · exact absurd hreads (ne_of_isGivenUp hover hgiven)
  · cases hlisted

/-! ## Tokens alone -/

/-- **What is claimed in a text is claimed alone**, but for operators and keywords that begin with an ampersand. -/
theorem claim?_ofText {e : Entry} {c : Cursor} {v w : List Char} (hc : ¬ IsHidden c)
    (hrest : c.rest = v ++ w) (h : claim? grammar.entries c = some (e, byteLength v))
    (hoperator : e.kind ≠ .operator) (hamp : e.kind = .keyword → v.head? ≠ some '&') :
    claim? grammar.entries (.ofText v) = some (e, byteLength v) := by
  obtain ⟨he, hlength⟩ := of_claim? h
  have hv : v ≠ [] := by
    obtain ⟨u, more, -, hu, heq⟩ := Pattern.exists_of_length? hlength
    rintro rfl
    exact hu (byteLength_eq_zero.1 heq)
  rcases entry_of_mem e he with
    hcomment | rfl | rfl | rfl | rfl | rfl | rfl | hkind | hlisted
  · exact claim?_of_comment hc hrest hv h hcomment
  · exact claim?_of_char he rfl rfl (by decide) (by decide) hrest hlength
  · exact claim?_of_char he rfl rfl (by decide) (by decide) hrest hlength
  · exact claim?_of_prefixedString hrest hv h
  · exact claim?_of_char he rfl rfl (by decide) (by decide) hrest hlength
  · exact claim?_of_charLiteral hrest hlength
  · exact claim?_of_number hrest hv h
  · exact absurd hkind hoperator
  · exact claim?_of_isListed he (isListed_of_mem e he hlisted) hrest hv hamp hlength

/-- **Tokens stand alone.** The value of a token on the first level, tokenized alone, is the token with all that
is below it, moved to the start. Only operators are excepted, and the keywords that begin with an ampersand. -/
theorem tokenize_value {source : String} {rescan : Bool} {t : Token}
    (ht : t ∈ grammar.tokenize source rescan)
    (hkind : t.kind ∈ [.comment, .regex, .string, .char, .boolean, .number, .punctuation, .constant] ∨
      t.kind = .keyword ∧ t.value.toList.head? ≠ some '&') :
    ∃ u, grammar.tokenize t.value rescan = [u] ∧ u.span.start = 0 ∧ t = u.shift t.span.start := by
  rw [Grammar.tokenize_eq] at ht ⊢
  have hplain : t.kind ≠ .plain := by
    intro hplain
    rw [hplain] at hkind
    simp at hkind
  obtain ⟨e, b, v, w, -, hreached, hrest, hclaim, rfl⟩ :=
    exists_claim?_of_mem (fun _ => Grammar.kind_ne_plain) ht fun h => absurd h hplain
  simp only [Piece.token, Option.map_some, Option.getD_some, String.toList_ofList] at hkind
  have hoperator : e.kind ≠ .operator := by
    intro heq
    rw [heq] at hkind
    simp at hkind
  have hamp : e.kind = .keyword → v.head? ≠ some '&' := by
    intro heq
    rw [heq] at hkind
    simpa using hkind
  rw [← withoutAll_nil grammar.entries] at hreached
  have hhidden := not_isHidden_of_reached List.not_mem_nil hreached
  have halone := claim?_ofText hhidden hrest hclaim hoperator hamp
  have hmoved := tokensOf_add rescan grammar.entries 0 b.offset [(some e, v)]
  rw [Nat.zero_add] at hmoved
  refine ⟨(⟨some e, v, 0⟩ : Piece).token 0 (childrenBy rescan grammar.entries 0 ⟨some e, v, 0⟩), ?_, rfl,
    ?_⟩
  · rw [Piece.token, String.toList_ofList]
    exact tokensBy_of_claim? halone rescan
  · change _ = Token.shift (0 + b.offset) _
    rw [Nat.zero_add]
    exact List.singleton_inj.1 hmoved

/-- In `(r"a"` the regex behind the bracket is the only token of its text. -/
theorem tokenize_value_regex :
    ∃ t ∈ grammar.tokenize "(r\"a\"" true, t.kind = .regex ∧
      ∃ u, grammar.tokenize t.value true = [u] ∧ u.span.start = 0 ∧ t = u.shift t.span.start := by
  have hsecond : ∃ t ∈ grammar.tokenize "(r\"a\"" true, t.kind = .regex := by
    decide +kernel
  obtain ⟨t, ht, hkind⟩ := hsecond
  exact ⟨t, ht, hkind, tokenize_value ht (Or.inl (by rw [hkind]; decide))⟩

end Moonli

end Highlight
