import Highlight.Proofs.Moonli.LeftContext
import Highlight.Proofs.Regex.Leads

/-!
# How tokens of moonli begin

An entry is excluded by the first character of a text if its expression can do nothing before this character
(`cannotBegin`). Strings and numbers begin with an assertion, which tells what stands before them
(`opens_prefixedString`, `opens_number`).
-/

namespace Highlight

namespace Moonli

/-! ## Characters that no token begins with -/

/-- The pattern has no token that begins with the character. -/
def cannotBegin (p : Pattern) (a : Char) : Bool :=
  match p.matcher with
  | .blockComment => a ≠ '#'
  | .regex r =>
    if p.lookbehind then (r = lineComment && a ≠ '#') || (r = charLiteral && a ≠ '\'') else r.isStuckAt a

theorem length?_of_cannotBegin {e : Entry} (he : e ∈ grammar.entries) {a : Char}
    (h : cannotBegin e.pattern a = true) {c : Cursor} {rest : List Char} (hrest : c.rest = a :: rest) :
    e.pattern.length? c = none := by
  rcases pattern_of_mem e he with hover | hblock | hline | hchar
  · obtain ⟨r, hr, hl, hover⟩ := Pattern.exists_regex_of_isOver hover
    simp only [cannotBegin, hr, hl, Bool.false_eq_true, if_false] at h
    rw [Pattern.length?_regex hr hl, hrest, reads?_of_isStuckAt hover h]
    rfl
  · rw [hblock] at h
    have ha : a ≠ '#' := of_decide_eq_true h
    have hnone : block? c.rest = none := by
      refine Option.eq_none_iff_forall_ne_some.2 fun n hn => ha ?_
      obtain ⟨ds, hds⟩ := Pattern.exists_of_block? hn
      exact (List.cons.inj (hrest.symm.trans hds)).1
    rw [hblock, Pattern.length?_blockComment rfl rfl, hnone, ite_self]
  · have ha : a ≠ '#' := by
      rintro rfl
      rw [hline] at h
      revert h
      decide
    have hhead : c.rest.head? ≠ some '#' := by
      rw [hrest]
      exact fun heq => ha (Option.some.inj heq)
    have hnone : Pattern.tokenLength? (.cat (.char '#') (.star (.set inLine) true)) c = none :=
      Option.eq_none_iff_forall_ne_some.2 fun n hn => hhead (Pattern.of_tokenLength? hn).2
    rw [hline, length?_lineComment rfl rfl fun hidden => hhead hidden.2, hnone, ite_self]
  · have ha : a ≠ '\'' := by
      rintro rfl
      rw [hchar] at h
      revert h
      decide
    have hnone : Pattern.tokenLength? (.cat (.char '\'') charRest) c = none := by
      refine Option.eq_none_iff_forall_ne_some.2 fun n hn => ha ?_
      have hhead := (Pattern.of_tokenLength? hn).2
      rw [hrest] at hhead
      exact Option.some.inj hhead
    rw [hchar, length?_charLiteral rfl rfl, hnone, ite_self]

theorem cannotBegin_comments {a : Char} (ha : a ≠ '#') :
    cannotBegin blockEntry.pattern a = true ∧ cannotBegin lineEntry.pattern a = true := by
  simp [cannotBegin, blockEntry, lineEntry, ha]

/-! ## Strings and numbers -/

section

variable {c : Cursor} {v : List Char}

theorem head?_of_next? {a : Char} {c d : Cursor} (h : c.next? = some (a, d)) : c.rest.head? = some a := by
  rw [(Cursor.next?_eq_some.1 h).1, List.head?_cons]

theorem isWord_prev (c : Cursor) :
    c.before.head?.any isWord = (c.gap.atWordBoundary .word != c.rest.head?.any isWord) := by
  rw [Gap.atWordBoundary_word, Bool.bne_assoc, Cursor.gap, bne_self_eq_false, Bool.bne_false]

theorem prev_of_wordEdge {c d : Cursor} (h : wordEdge.Leads c d) (hnext : c.rest.head?.any isWord = true) :
    c.before.head?.any isWord = false := by
  obtain ⟨rfl, hedge⟩ := h
  have hgap : c.gap.atWordBoundary .word = true := hedge
  rw [isWord_prev, hgap, hnext, bne_self_eq_false]

/-- **A prefixed string holds a quote.** It begins with the quote, or with a word behind what is no word. -/
theorem opens_prefixedString (h : reads? [[⟨prefixedString, 0⟩]] c.before.head? c.rest = some v) :
    '"' ∈ v ∧ (c.rest.head? = some '"' ∨
      c.before.head?.any isWord = false ∧ c.rest.head?.any isWord = true) := by
  obtain ⟨r, hr⟩ : ∃ r, prefixedString =
      .cat (.upTo (.cat wordEdge (.plus (.set .word) true)) 1 true) (.cat (.char '"') r) := ⟨_, rfl⟩
  obtain ⟨d, hlead, hrest⟩ := exists_leads_of_reads? h
  rw [hr] at hlead
  obtain ⟨e, hword, f, hquote, hr⟩ := hlead
  replace hquote := Regex.leads_char hquote
  refine ⟨?_, ?_⟩
  · obtain ⟨cs, hcs, -⟩ := Regex.precedes_of_leads hword
    obtain ⟨ds, hds, -⟩ := Regex.precedes_of_leads hr
    have hsplit : v ++ d.rest = (cs ++ '"' :: ds) ++ d.rest := by
      rw [← hrest, hcs, (Cursor.next?_eq_some.1 hquote).1, hds, List.append_assoc, List.cons_append]
    rw [List.append_cancel_right hsplit]
    exact List.mem_append_right cs List.mem_cons_self
  · rcases hword with rfl | ⟨g, ⟨_, hedge, _, ⟨a, hnext, ha⟩, -⟩, -⟩
    · exact Or.inl (head?_of_next? hquote)
    · obtain rfl := hedge.1
      have hhead : c.rest.head?.any isWord = true := by
        rw [head?_of_next? hnext]
        exact ha
      exact Or.inr ⟨prev_of_wordEdge hedge hhead, hhead⟩

/-- The characters that a number begins with. -/
def numberStarts : List Char :=
  ['0', '1', '2', '3', '4', '5', '6', '7', '8', '9', '.']

theorem mem_digit {a : Char} : digit.mem a = a.isDigit := rfl

theorem mem_numberStarts {a : Char} (h : digit.mem a = true) : a ∈ numberStarts := by
  have hcode : 48 ≤ a.toNat ∧ a.toNat ≤ 57 := by
    simpa [digit, CharSet.mem, Char.le_def, UInt32.le_iff_toNat_le] using h
  have hmem : ∀ n ∈ List.range' 48 10, Char.ofNat n ∈ numberStarts := by decide
  have ha := hmem a.toNat (List.mem_range'_1.2 (by omega))
  rwa [Char.ofNat_toNat] at ha

theorem isWord_of_digit {a : Char} (h : digit.mem a = true) : isWord a = true := by
  change (((digit.mem a || _) || _) || _) = true
  rw [h, Bool.true_or, Bool.true_or, Bool.true_or]

/-- **A number begins with a digit or a point**, behind what is no word. -/
theorem opens_number (h : reads? [[⟨number, 0⟩]] c.before.head? c.rest = some v) :
    c.before.head?.any isWord = false ∧ ∃ a ∈ numberStarts, c.rest.head? = some a := by
  obtain ⟨w, x, y, z, hnumber⟩ : ∃ w x y z, number =
      .cat (.alt (.cat wordEdge (.alt (.cat (.char '0') x) (.cat (.set digit) y)))
        (.cat (.look (.notWordBoundary .word)) (.cat (.char '.') z))) w := ⟨_, _, _, _, rfl⟩
  obtain ⟨d, hlead, -⟩ := exists_leads_of_reads? h
  rw [hnumber] at hlead
  obtain ⟨e, hwhole | hfraction, -⟩ := hlead
  · obtain ⟨_, hedge, hdigits⟩ := hwhole
    obtain rfl := hedge.1
    obtain ⟨a, ha, hhead⟩ : ∃ a, digit.mem a = true ∧ c.rest.head? = some a := by
      rcases hdigits with ⟨f, hzero, -⟩ | ⟨f, ⟨a, hnext, ha⟩, -⟩
      · exact ⟨'0', by decide, head?_of_next? (Regex.leads_char hzero)⟩
      · exact ⟨a, ha, head?_of_next? hnext⟩
    have hword : c.rest.head?.any isWord = true := by
      rw [hhead]
      exact isWord_of_digit ha
    exact ⟨prev_of_wordEdge hedge hword, a, mem_numberStarts ha, hhead⟩
  · obtain ⟨_, ⟨rfl, hinside⟩, f, hpoint, -⟩ := hfraction
    have hhead := head?_of_next? (Regex.leads_char hpoint)
    refine ⟨?_, '.', by decide, hhead⟩
    have hgap : c.gap.atWordBoundary .word = false := by simpa [Assertion.holds] using hinside
    have hno : isWord '.' = false := by decide
    rw [isWord_prev, hgap, hhead, Option.any_some, hno, bne_self_eq_false]

end

end Moonli

end Highlight
