import Highlight.Proofs.Moonli.Unclaimed

/-!
# Tokens of moonli keep words whole

The expressions of words, numbers and signs demand the edge of a word where they begin or end, or that there is none.
A token is what an expression leads over (`Pattern.leads_of_length?`), so the assertions that it meets on the way
tell of the characters around the token.

* `IsWholeWord.of_leads`: a word that is read between two edges is a whole word.
* `KeepsWords kind before value after`: how a token `value` of the kind stands between `before` and `after`.
* `keepsWords_of_occurs`: each token stands so in the text that is divided above it.
-/

namespace Highlight

open Regex

/-- **A pattern leads over the token that it offers.** -/
theorem Pattern.leads_of_length? {p : Pattern} {r : Regex} (hp : p.matcher = .regex r)
    (hl : p.lookbehind = false) {before v w : List Char}
    (h : p.length? (.behind before (v ++ w)) = some (byteLength v)) :
    r.Leads (.behind before (v ++ w)) (.behind (before ++ v) w) := by
  obtain ⟨todo, htodo, d, hlead, hrest, hbefore⟩ := leads_of_reads? (reads?_of_length? hp hl rfl h)
  rw [List.mem_singleton.1 htodo] at hlead
  obtain ⟨e, hr, rfl⟩ := hlead
  have he : e = .behind (before ++ v) w := by
    refine Cursor.ext_lists ?_ (List.append_cancel_left hrest).symm
    rw [hbefore]
    exact List.reverse_append.symm
  rwa [he] at hr

namespace Moonli

section

variable {before v w : List Char}

/-! ## Edges of words -/

theorem edge_of_leads {after : List Char} {d : Cursor} (h : wordEdge.Leads (.behind before after) d) :
    before.getLast?.any isWord ≠ after.head?.any isWord := by
  have hedge : (before.reverse.head?.any isWord != after.head?.any isWord) = true := h.2
  rw [List.head?_reverse] at hedge
  exact bne_iff_ne.1 hedge

theorem getLast?_append_any (hv : v.getLast?.any isWord = true) :
    (before ++ v).getLast?.any isWord = true := by
  cases hlast : v.getLast? with
  | none => rw [hlast] at hv; cases hv
  | some a => rwa [List.getLast?_append, hlast, Option.some_or, ← hlast]

theorem after_of_edge {c : Cursor} (h : wordEdge.Leads c (.behind (before ++ v) w))
    (hv : v.getLast?.any isWord = true) : w.head?.any isWord = false := by
  obtain rfl : c = .behind (before ++ v) w := h.1
  have hedge := edge_of_leads h
  rwa [getLast?_append_any hv, ne_comm, ne_eq, Bool.not_eq_true] at hedge

theorem head?_eq_some_of_next? {a : Char} {d : Cursor} (hv : v ≠ [])
    (h : (Cursor.behind before (v ++ w)).next? = some (a, d)) : v.head? = some a := by
  have hhead : (v ++ w).head? = v.head? := List.head?_append_of_ne_nil v hv
  rw [← hhead]
  exact head?_of_next? h

/-- **A word that is read between two edges is a whole word.** -/
theorem IsWholeWord.of_leads {r : Regex} {us : List (List Char)} (hus : r.texts? = some us)
    (hword : (us.all fun u => u ≠ [] && u.all isWord) = true)
    (h : (Regex.cat wordEdge (.cat r wordEdge)).Leads (.behind before (v ++ w))
      (.behind (before ++ v) w)) : IsWholeWord before v w := by
  obtain ⟨_, hopen, f, hr, hclose⟩ := h
  obtain rfl := hopen.1
  obtain ⟨u, hu, hrest⟩ := mem_texts_of_leads hus hr
  obtain rfl : f = .behind (before ++ v) w := hclose.1
  obtain rfl : v = u := List.append_cancel_right hrest
  obtain ⟨hne, hall⟩ : v ≠ [] ∧ ∀ a ∈ v, isWord a = true := by
    simpa using List.all_eq_true.1 hword v hu
  refine ⟨hne, hall, ?_, ?_⟩
  · obtain ⟨a, v, rfl⟩ := List.exists_cons_of_ne_nil hne
    have hedge := edge_of_leads hopen
    have ha : isWord a = true := hall a List.mem_cons_self
    rwa [List.cons_append, List.head?_cons, Option.any_some, ha, ne_eq, Bool.not_eq_true] at hedge
  · refine after_of_edge hclose ?_
    rw [List.getLast?_eq_some_getLast hne, Option.any_some]
    exact hall _ (List.getLast_mem hne)

/-! ## How tokens stand between their neighbours -/

/-- How a token of the kind stands between the text before it and the text after it. -/
def KeepsWords (kind : Kind) (before value after : List Char) : Prop :=
  match kind with
  | .boolean => IsWholeWord before value after
  | .constant => (∃ a ∈ constantChars, value = [a]) ∨ IsWholeWord before value after
  -- a keyword is a word, or a colon or an ampersand with a word
  | .keyword => after.head?.any isWord = false ∧
      (value.head? = some ':' ∨
        value.head?.any Char.isAlpha = true ∧ before.getLast?.any isWord = false ∨
        value.head? = some '&' ∧ before.getLast?.any isWord = true)
  | .number => before.getLast?.any isWord = false
  | .operator =>
      value.length = 1 ∧ before.getLast?.any isWord = true ∨
        value = ['=', '='] ∧ after.head?.any isWord = true
  | .string => value.head?.any isWord = true → before.getLast?.any isWord = false
  | _ => True

theorem isWholeWord_of_boolean
    (h : boolean.Leads (.behind before (v ++ w)) (.behind (before ++ v) w)) :
    IsWholeWord before v w :=
  .of_leads (r := .alt (literal "nil") (literal "t")) rfl (by decide) h

theorem keepsWords_of_constant
    (h : constant.Leads (.behind before (v ++ w)) (.behind (before ++ v) w)) :
    KeepsWords .constant before v w := by
  obtain ⟨n, us, S, hconstant, hus, hword, hS⟩ : ∃ n us S,
      constant = .alt (.cat wordEdge (.cat n wordEdge)) (.set S) ∧ n.texts? = some us ∧
      (us.all fun u => u ≠ [] && u.all isWord) = true ∧ S.chars? = some constantChars :=
    ⟨_, _, _, rfl, rfl, by decide, rfl⟩
  rw [hconstant] at h
  rcases h with hwords | ⟨a, hnext, ha⟩
  · exact Or.inr (.of_leads hus hword hwords)
  · refine Or.inl ⟨a, CharSet.mem_chars hS ha, ?_⟩
    have hrest : v ++ w = [a] ++ w := (Cursor.next?_eq_some.1 hnext).1
    exact List.append_cancel_right hrest

/-- A keyword that is read ends with a word character. The keyword `let+` does not, and is never read. -/
theorem spec_of_mem_texts_keyword : (keyword.texts?.any fun us => us.all fun u =>
    keyword.isGivenUp u || u.getLast?.any isWord) = true := by
  decide +kernel

theorem keepsWords_of_keyword {prev : Option Char}
    (hreads : reads? [[⟨keyword, 0⟩]] prev (v ++ w) = some v)
    (h : keyword.Leads (.behind before (v ++ w)) (.behind (before ++ v) w)) :
    KeepsWords .keyword before v w := by
  obtain ⟨k, us, hkeyword, hus, hfirst⟩ : ∃ k us,
      keyword = .cat (.group 1 (.alt wordEdge (.char ':'))) (.cat k wordEdge) ∧ k.texts? = some us ∧
      (us.all fun u => u.head?.any (fun a => a.isAlpha && isWord a) || u.head? = some '&') = true :=
    ⟨_, _, rfl, rfl, by decide +kernel⟩
  have hlast : v.getLast?.any isWord = true := by
    obtain ⟨us, hus, hspec⟩ := Option.any_eq_true .. |>.1 spec_of_mem_texts_keyword
    have hv := List.all_eq_true.1 hspec v (mem_texts_of_reads? hus hreads)
    rcases (Bool.or_eq_true _ _).mp hv with hgiven | hlast
    · exact absurd hreads (ne_of_isGivenUp (by decide) hgiven)
    · exact hlast
  have hne : v ≠ [] := by
    rintro rfl
    cases hlast
  rw [hkeyword] at h
  obtain ⟨c, hopen, f, hk, hclose⟩ := h
  refine ⟨after_of_edge hclose hlast, ?_⟩
  rcases hopen with hedge | hcolon
  · obtain rfl : Cursor.behind before (v ++ w) = c := hedge.1
    obtain rfl : f = .behind (before ++ v) w := hclose.1
    obtain ⟨u, hu, hrest⟩ := mem_texts_of_leads hus hk
    obtain rfl : v = u := List.append_cancel_right hrest
    have hside := edge_of_leads hedge
    rw [List.head?_append_of_ne_nil v hne] at hside
    rcases (Bool.or_eq_true _ _).mp (List.all_eq_true.1 hfirst v hu) with hletter | hamp
    · obtain ⟨a, hhead, ha⟩ := Option.any_eq_true .. |>.1 hletter
      obtain ⟨halpha, hword⟩ := (Bool.and_eq_true _ _).mp ha
      rw [hhead, Option.any_some, hword, ne_eq, Bool.not_eq_true] at hside
      exact Or.inr (Or.inl ⟨by rw [hhead, Option.any_some, halpha], hside⟩)
    · have hhead : v.head? = some '&' := of_decide_eq_true hamp
      have hno : isWord '&' = false := by decide
      rw [hhead, Option.any_some, hno, Bool.ne_false_iff] at hside
      exact Or.inr (Or.inr ⟨hhead, hside⟩)
  · exact Or.inl (head?_eq_some_of_next? hne (leads_char hcolon))

theorem keepsWords_of_operator
    (h : operator.Leads (.behind before (v ++ w)) (.behind (before ++ v) w)) :
    KeepsWords .operator before v w := by
  obtain ⟨S, cs, hoperator, hS, hsign⟩ : ∃ S cs, operator = .alt (.cat wordEdge (.set S))
      (.cat (.char '=') (.cat (.char '=') wordEdge)) ∧ S.chars? = some cs ∧
      (cs.all fun a => !isWord a) = true :=
    ⟨_, _, rfl, rfl, by decide⟩
  rw [hoperator] at h
  rcases h with ⟨c, hedge, a, hnext, ha⟩ | ⟨c, hfirst, d, hsecond, hedge⟩
  · obtain rfl : Cursor.behind before (v ++ w) = c := hedge.1
    have hrest : v ++ w = [a] ++ w := (Cursor.next?_eq_some.1 hnext).1
    obtain rfl : v = [a] := List.append_cancel_right hrest
    have hno : isWord a = false := by
      simpa using List.all_eq_true.1 hsign a (CharSet.mem_chars hS ha)
    have hside := edge_of_leads hedge
    rw [List.cons_append, List.head?_cons, Option.any_some, hno, Bool.ne_false_iff] at hside
    exact Or.inl ⟨rfl, hside⟩
  · obtain rfl : d = .behind (before ++ v) w := hedge.1
    have hrest : v ++ w = ['=', '='] ++ w := by
      have hd := (Cursor.next?_eq_some.1 (leads_char hsecond)).1
      have hc := (Cursor.next?_eq_some.1 (leads_char hfirst)).1
      rw [hd] at hc
      exact hc
    obtain rfl : v = ['=', '='] := List.append_cancel_right hrest
    have hside := edge_of_leads hedge
    have hno : (before ++ ['=', '=']).getLast?.any isWord = false := by
      rw [List.getLast?_append]
      rfl
    rw [hno, ne_comm, Bool.ne_false_iff] at hside
    exact Or.inr ⟨rfl, hside⟩

/-! ## Tokens in a text -/

theorem pattern_of_kind : ∀ e ∈ grammar.entries,
    (e.kind = .boolean → e.pattern = { matcher := .regex boolean }) ∧
    (e.kind = .constant → e.pattern = { matcher := .regex constant }) ∧
    (e.kind = .keyword → e.pattern = { matcher := .regex keyword }) ∧
    (e.kind = .number → e.pattern = { matcher := .regex number }) ∧
    (e.kind = .operator → e.pattern = { matcher := .regex operator }) ∧
    (e.kind = .string → e.pattern = { matcher := .regex tripleQuoted, greedy := true } ∨
      e.pattern = { matcher := .regex prefixedString, greedy := true } ∨
      e.pattern = { matcher := .regex commandString, greedy := true }) := by
  decide +kernel

theorem keepsWords_of_string {p : Pattern} (hp : p = { matcher := .regex tripleQuoted, greedy := true } ∨
    p = { matcher := .regex prefixedString, greedy := true } ∨
    p = { matcher := .regex commandString, greedy := true })
    (h : p.length? (.behind before (v ++ w)) = some (byteLength v)) :
    KeepsWords .string before v w := by
  intro hword
  have hne : v ≠ [] := by
    rintro rfl
    cases hword
  have hquote : ∀ {a : Char} {r : Regex}, isWord a = false → p.matcher = .regex (.cat (.char a) r) →
      p.lookbehind = false → before.getLast?.any isWord = false := by
    intro a r ha hmatcher hl
    obtain ⟨c, hfirst, -⟩ := Pattern.leads_of_length? hmatcher hl h
    rw [head?_eq_some_of_next? hne (leads_char hfirst), Option.any_some, ha] at hword
    cases hword
  rcases hp with rfl | rfl | rfl
  · exact hquote (a := '"') (by decide) rfl rfl
  · obtain ⟨-, hhead | ⟨hbefore, -⟩⟩ := opens_prefixedString (Pattern.reads?_of_length? rfl rfl rfl h)
    · have hv : (v ++ w).head? = some '"' := hhead
      rw [List.head?_append_of_ne_nil v hne] at hv
      rw [hv] at hword
      exact absurd hword (by decide)
    · rwa [← List.head?_reverse]
  · exact hquote (a := '\x60') (by decide) rfl rfl

theorem keepsWords_of_length? {e : Entry} (he : e ∈ grammar.entries)
    (h : e.pattern.length? (.behind before (v ++ w)) = some (byteLength v)) :
    KeepsWords e.kind before v w := by
  obtain ⟨hboolean, hconstant, hkeyword, hnumber, hoperator, hstring⟩ := pattern_of_kind e he
  cases hkind : e.kind with
  | boolean =>
    rw [hboolean hkind] at h
    exact isWholeWord_of_boolean (Pattern.leads_of_length? rfl rfl h)
  | constant =>
    rw [hconstant hkind] at h
    exact keepsWords_of_constant (Pattern.leads_of_length? rfl rfl h)
  | keyword =>
    rw [hkeyword hkind] at h
    exact keepsWords_of_keyword (Pattern.reads?_of_length? rfl rfl rfl h) (Pattern.leads_of_length? rfl rfl h)
  | number =>
    rw [hnumber hkind] at h
    have hbefore := (opens_number (Pattern.reads?_of_length? rfl rfl rfl h)).1
    rw [KeepsWords, ← List.head?_reverse]
    exact hbefore
  | operator =>
    rw [hoperator hkind] at h
    exact keepsWords_of_operator (Pattern.leads_of_length? rfl rfl h)
  | string => exact keepsWords_of_string (hstring hkind) h
  | plain | comment | regex | char | punctuation => trivial

end

/-- **Tokens keep words whole.** In the text that is divided above it, a token stands between its neighbours as its
kind demands. The ends of the text are like what is no word. -/
theorem keepsWords_of_occurs {source : String} {rescan : Bool} {above : List Token} {t : Token}
    (h : Token.Occurs (grammar.tokenize source rescan) above t) :
    ∃ before after, Token.textBelow source.toList above = before ++ t.value.toList ++ after ∧
      t.span.start = Token.baseBelow 0 above + byteLength before ∧
      KeepsWords t.kind before t.value.toList after := by
  have hrun := Grammar.mem_run_of_occurs h
  by_cases hplain : t.kind = .plain
  · obtain ⟨before, after, htext, hspan⟩ := (tiles_tokensBy ..).exists_append_of_mem hrun
    exact ⟨before, after, htext, by rw [hspan], by rw [hplain]; trivial⟩
  · obtain ⟨e, b, v, w, hprecedes, -, hrest, hclaim, rfl⟩ :=
      exists_claim?_of_mem (Grammar.kind_ne_plain_of_withoutAll _) hrun fun hkind => absurd hkind hplain
    obtain ⟨he, hlength⟩ := of_claim? hclaim
    have hb : b = .behind b.before.reverse (v ++ w) :=
      Cursor.ext_lists (List.reverse_reverse _).symm hrest
    rw [hb] at hlength
    simp only [Piece.token, String.toList_ofList]
    refine ⟨b.before.reverse, w, ?_, ?_, keepsWords_of_length? (mem_of_mem_withoutAll he) hlength⟩
    · rw [List.append_assoc, ← hrest]
      exact hprecedes.text_eq.symm
    · rw [byteLength_reverse, ← b.offset_eq]

/-- In the string `"x-let"` the sign is an operator behind a word, and the keyword is a whole word behind the sign. -/
theorem keepsWords_in_string :
    ∃ p ∈ grammar.tokenize "\"x-let\"" true, ∃ t ∈ p.children, ∃ u ∈ p.children,
      t.kind = .operator ∧ u.kind = .keyword ∧
      (∃ before after, p.value.toList = before ++ t.value.toList ++ after ∧
        t.span.start = p.span.start + byteLength before ∧
        KeepsWords .operator before t.value.toList after) ∧
      ∃ before after, p.value.toList = before ++ u.value.toList ++ after ∧
        u.span.start = p.span.start + byteLength before ∧
        KeepsWords .keyword before u.value.toList after := by
  have hfirst : ∃ p ∈ grammar.tokenize "\"x-let\"" true, ∃ t ∈ p.children, ∃ u ∈ p.children,
      t.kind = .operator ∧ u.kind = .keyword := by
    decide +kernel
  obtain ⟨p, hp, t, ht, u, hu, htk, huk⟩ := hfirst
  refine ⟨p, hp, t, ht, u, hu, htk, huk, ?_, ?_⟩
  · rw [← htk]
    exact keepsWords_of_occurs (.child (.top hp) ht)
  · rw [← huk]
    exact keepsWords_of_occurs (.child (.top hp) hu)

end Moonli

end Highlight
