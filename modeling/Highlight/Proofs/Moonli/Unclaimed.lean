import Highlight.Proofs.Moonli.Beginnings
import Highlight.Proofs.Nesting
import Highlight.Proofs.Plain
import Highlight.Proofs.Regex.Texts

/-!
# What moonli leaves unclaimed

The rules of words, numbers and signs are not greedy, so they stand in every table that a text is divided by, however
deep it lies (`mem_withoutAll_of_occurs`). Where their expressions lead somewhere a token begins, so at the characters
of a plain token they lead nowhere (`Unclaimed`).

* `LeftOver before value after`: what this says of the text `value` between `before` and `after`.
* `leftOver_of_plain`: it holds of each plain token, in the text that is divided above it.
-/

namespace Highlight

namespace Moonli

open Regex

/-! ## Expressions that are always asked -/

/-- The expressions of words, numbers and signs. -/
def signs : List Regex :=
  [keyword, boolean, number, operator, punctuation, constant]

theorem spec_of_mem_signs : ∀ r ∈ signs, r.nullable = false ∧
    ∃ e ∈ grammar.entries, e.pattern = { matcher := .regex r } := by
  decide +kernel

theorem greedy_eq_of_kind_eq : ∀ e ∈ grammar.entries, ∀ f ∈ grammar.entries, e.kind = f.kind →
    e.pattern.greedy = f.pattern.greedy := by
  decide +kernel

/-- At no character of `value`, which stands between `before` and `after`, does one of the signs lead anywhere. -/
def Unclaimed (before value after : List Char) : Prop :=
  ∀ r ∈ signs, ∀ x y, value = x ++ y → y ≠ [] → ∀ d, ¬ r.Leads (.behind (before ++ x) (y ++ after)) d

section

variable {source : String} {rescan : Bool} {above : List Token} {t : Token}

theorem mem_withoutAll_of_occurs (h : Token.Occurs (grammar.tokenize source rescan) above t) {e : Entry}
    (he : e ∈ grammar.entries) (hgreedy : e.pattern.greedy = false) :
    e ∈ withoutAll grammar.entries (above.map Token.kind) := by
  refine List.mem_filter.2 ⟨he, decide_eq_true ?_⟩
  intro hmem
  obtain ⟨f, hf, hkind, hfgreedy⟩ := Grammar.exists_greedy_of_mem_above h hmem
  have hsame := greedy_eq_of_kind_eq f hf e he hkind
  rw [hgreedy, hfgreedy] at hsame
  cases hsame

theorem unclaimed_of_plain (h : Token.Occurs (grammar.tokenize source rescan) above t)
    (hplain : t.kind = .plain) :
    ∃ before after, Token.textBelow source.toList above = before ++ t.value.toList ++ after ∧
      t.span.start = Token.baseBelow 0 above + byteLength before ∧
      Unclaimed before t.value.toList after := by
  obtain ⟨before, after, htext, hstart, hnone⟩ :=
    claim?_of_plain (Grammar.kind_ne_plain_of_withoutAll _) (Grammar.mem_run_of_occurs h) hplain
  refine ⟨before, after, htext, hstart, ?_⟩
  intro r hr x y hvalue hy d hlead
  obtain ⟨a, y, rfl⟩ := List.exists_cons_of_ne_nil hy
  obtain ⟨hnullable, e, he, hpattern⟩ := spec_of_mem_signs r hr
  have hasked := mem_withoutAll_of_occurs h he (by rw [hpattern])
  have hlength := claim?_eq_none_iff.1 (hnone x a y hvalue) e hasked
  have hsome := (Pattern.isSome_length?_iff (p := e.pattern) (by rw [hpattern]) (by rw [hpattern])
    hnullable).2 ⟨d, hlead⟩
  rw [hlength] at hsome
  cases hsome

end

/-! ## Where the expressions lead -/

section

variable (before after : List Char) {a : Char}

theorem leads_wordEdge {before after : List Char} (h : before.getLast?.any isWord ≠ after.head?.any isWord) :
    wordEdge.Leads (.behind before after) (.behind before after) := by
  refine ⟨rfl, ?_⟩
  show (before.reverse.head?.any isWord != after.head?.any isWord) = true
  rw [List.head?_reverse]
  exact bne_iff_ne.2 h

theorem exists_leads_number (ha : digit.mem a = true) (h : before.getLast?.any isWord = false) :
    ∃ d, number.Leads (.behind before (a :: after)) d := by
  obtain ⟨x, y, z, w, f, u, v, hnumber⟩ : ∃ x y z w f u v, number =
      .cat (.alt (.cat wordEdge (.alt x (.cat (.set digit) (.cat (.star y true) (.cat (.star z true)
        (.upTo w 1 true)))))) f) (.cat (.upTo u 1 true) (.upTo v 1 true)) :=
    ⟨_, _, _, _, _, _, _, rfl⟩
  have hedge : wordEdge.Leads (.behind before (a :: after)) (.behind before (a :: after)) := by
    apply leads_wordEdge
    rw [h, List.head?_cons, Option.any_some, isWord_of_digit ha]
    exact Bool.false_ne_true
  have hdigit : (set digit).Leads (.behind before (a :: after)) (.behind (before ++ [a]) after) :=
    LeadsOver.of_set ha before after
  rw [hnumber]
  -- nothing is read behind the first digit
  exact ⟨_, _, Or.inl ⟨_, hedge, Or.inr ⟨_, hdigit, _, .refl, _, .refl, Or.inl rfl⟩⟩, _, Or.inl rfl,
    Or.inl rfl⟩

/-- The characters of operators. -/
def operatorChars : List Char :=
  ['-', '+', '*', '/', '^', '&', '|', '<', '>']

theorem exists_leads_operator (ha : a ∈ operatorChars) (h : before.getLast?.any isWord = true) :
    ∃ d, operator.Leads (.behind before (a :: after)) d := by
  obtain ⟨S, r, hoperator, hS⟩ : ∃ S r, operator = .alt (.cat wordEdge (.set S)) r ∧
      operatorChars.all (fun a => S.mem a && !isWord a) = true :=
    ⟨_, _, rfl, by decide⟩
  obtain ⟨hmem, hword⟩ := (Bool.and_eq_true _ _).mp (List.all_eq_true.1 hS a ha)
  rw [Bool.not_eq_true'] at hword
  have hedge : wordEdge.Leads (.behind before (a :: after)) (.behind before (a :: after)) := by
    apply leads_wordEdge
    rw [h, List.head?_cons, Option.any_some, hword]
    exact Bool.false_ne_true.symm
  rw [hoperator]
  exact ⟨_, Or.inl ⟨_, hedge, LeadsOver.of_set hmem before after⟩⟩

theorem exists_leads_equality {after : List Char} (h : after.head?.any isWord = true) :
    ∃ d, operator.Leads (.behind before ('=' :: '=' :: after)) d := by
  obtain ⟨r, hoperator⟩ : ∃ r, operator = .alt r (.cat (.char '=') (.cat (.char '=') wordEdge)) :=
    ⟨_, rfl⟩
  have hequals : LeadsOver (char '=').Leads ['='] := .of_set (by decide)
  have hedge : wordEdge.Leads (.behind (before ++ ['='] ++ ['=']) after)
      (.behind (before ++ ['='] ++ ['=']) after) := by
    apply leads_wordEdge
    rw [h, List.getLast?_concat, Option.any_some]
    decide
  rw [hoperator]
  exact ⟨_, Or.inr ⟨_, hequals before ('=' :: after), _, hequals (before ++ ['=']) after, hedge⟩⟩

/-- Brackets, colons, semicolons and commas. -/
def punctuationChars : List Char :=
  ['{', '}', '[', ']', '(', ')', ':', ';', ',']

/-- The named numbers that are no words. -/
def constantChars : List Char :=
  ['π', 'ℯ']

theorem exists_leads_punctuation (ha : a ∈ punctuationChars) :
    ∃ d, punctuation.Leads (.behind before (a :: after)) d := by
  have hspells : punctuationChars.all (fun a => punctuation.spells [a]) = true := by decide
  exact ⟨_, leadsOver_of_spells (List.all_eq_true.1 hspells a ha) before after⟩

theorem exists_leads_constant (ha : a ∈ constantChars) :
    ∃ d, constant.Leads (.behind before (a :: after)) d := by
  obtain ⟨r, S, hconstant, hS⟩ : ∃ r S, constant = .alt r (.set S) ∧
      constantChars.all S.mem = true :=
    ⟨_, _, rfl, by decide⟩
  rw [hconstant]
  exact ⟨_, Or.inr (LeadsOver.of_set (List.all_eq_true.1 hS a ha) before after)⟩

end

/-! ## Reserved words -/

section

variable {before after w : List Char}

/-- The characters `w` between `before` and `after` are a word that goes on to neither side. -/
structure IsWholeWord (before w after : List Char) : Prop where
  ne_nil : w ≠ []
  word : ∀ a ∈ w, isWord a = true
  before : before.getLast?.any isWord = false
  after : after.head?.any isWord = false

/-- The words that stand for themselves: the keywords of letters only, the Booleans and the named numbers. -/
def reservedWords : List String :=
  (("defparameter" :: keywords).filter fun w => w.toList.all Char.isAlpha) ++ ["nil", "t", "im", "pi"] ++
    ["Inf", "NaN"].flatMap fun w => [w, w ++ "16", w ++ "32", w ++ "64"]

theorem IsWholeWord.leads (h : IsWholeWord before w after) {r : Regex} (hr : r.spells w = true) :
    (Regex.cat wordEdge (.cat r wordEdge)).Leads (.behind before (w ++ after))
      (.behind (before ++ w) after) := by
  have hfirst : (w ++ after).head?.any isWord = true := by
    obtain ⟨a, w, rfl⟩ := List.exists_cons_of_ne_nil h.ne_nil
    exact h.word a List.mem_cons_self
  have hlast : (before ++ w).getLast?.any isWord = true := by
    rw [List.getLast?_append_of_ne_nil _ h.ne_nil, List.getLast?_eq_some_getLast h.ne_nil]
    exact h.word _ (List.getLast_mem h.ne_nil)
  have hopen : wordEdge.Leads (.behind before (w ++ after)) (.behind before (w ++ after)) := by
    apply leads_wordEdge
    rw [h.before, hfirst]
    exact Bool.false_ne_true
  have hclose : wordEdge.Leads (.behind (before ++ w) after) (.behind (before ++ w) after) := by
    apply leads_wordEdge
    rw [h.after, hlast]
    exact Bool.false_ne_true.symm
  exact ⟨_, hopen, _, leadsOver_of_spells hr before after, hclose⟩

/-- **A reserved word that stands alone is claimed.** -/
theorem exists_leads_of_reserved {word : String} (hword : word ∈ reservedWords)
    (h : IsWholeWord before word.toList after) :
    ∃ r ∈ signs, r.Leads (.behind before (word.toList ++ after))
      (.behind (before ++ word.toList) after) := by
  obtain ⟨k, b, n, x, y, hkeyword, hboolean, hconstant, hspells⟩ : ∃ k b n x y,
      keyword = .cat (.group 1 (.alt wordEdge x)) (.cat k wordEdge) ∧
      boolean = .cat wordEdge (.cat b wordEdge) ∧
      constant = .alt (.cat wordEdge (.cat n wordEdge)) y ∧
      ∀ word ∈ reservedWords, k.spells word.toList = true ∨ b.spells word.toList = true ∨
        n.spells word.toList = true :=
    ⟨_, _, _, _, _, rfl, rfl, rfl, by decide +kernel⟩
  rcases hspells word hword with hspells | hspells | hspells
  · obtain ⟨c, hopen, hrest⟩ := h.leads hspells
    refine ⟨keyword, by simp [signs], ?_⟩
    rw [hkeyword]
    exact ⟨c, Or.inl hopen, hrest⟩
  · refine ⟨boolean, by simp [signs], ?_⟩
    rw [hboolean]
    exact h.leads hspells
  · refine ⟨constant, by simp [signs], ?_⟩
    rw [hconstant]
    exact Or.inl (h.leads hspells)

end

/-! ## What is left over -/

/-- What the text `value` between `before` and `after` looks like if no token begins in it. -/
structure LeftOver (before value after : List Char) : Prop where
  punctuation : ∀ a ∈ value, a ∉ punctuationChars
  constant : ∀ a ∈ value, a ∉ constantChars
  /-- A digit continues a word. -/
  digit : ∀ x a y, value = x ++ a :: y → a.isDigit = true → (before ++ x).getLast?.any isWord = true
  /-- A character of operators stands behind no word. -/
  operator : ∀ x a y, value = x ++ a :: y → a ∈ operatorChars →
    (before ++ x).getLast?.any isWord = false
  /-- Two equality signs stand before no word. -/
  equality : ∀ x y, value = x ++ '=' :: '=' :: y → (y ++ after).head?.any isWord = false
  /-- A word that lies in the text wholly is not reserved. -/
  word : ∀ x (w : String) y, value = x ++ w.toList ++ y →
    IsWholeWord (before ++ x) w.toList (y ++ after) → w ∉ reservedWords

theorem Unclaimed.not_leads {before x y after : List Char} {a : Char}
    (h : Unclaimed before (x ++ a :: y) after) {r : Regex} (hr : r ∈ signs) :
    ¬ ∃ d, r.Leads (.behind (before ++ x) (a :: (y ++ after))) d := by
  rintro ⟨d, hlead⟩
  exact h r hr x (a :: y) rfl (List.cons_ne_nil a y) d hlead

theorem Unclaimed.leftOver {before value after : List Char} (h : Unclaimed before value after) :
    LeftOver before value after where
  punctuation := by
    intro a ha hmem
    obtain ⟨x, y, rfl⟩ := List.append_of_mem ha
    exact h.not_leads (by simp [signs]) (exists_leads_punctuation _ _ hmem)
  constant := by
    intro a ha hmem
    obtain ⟨x, y, rfl⟩ := List.append_of_mem ha
    exact h.not_leads (by simp [signs]) (exists_leads_constant _ _ hmem)
  digit := by
    rintro x a y rfl ha
    rw [← Bool.not_eq_false]
    intro hword
    exact h.not_leads (by simp [signs]) (exists_leads_number _ _ (mem_digit.trans ha) hword)
  operator := by
    rintro x a y rfl ha
    rw [← Bool.not_eq_true]
    intro hword
    exact h.not_leads (by simp [signs]) (exists_leads_operator _ _ ha hword)
  equality := by
    rintro x y rfl
    rw [← Bool.not_eq_true]
    intro hword
    exact h.not_leads (by simp [signs]) (exists_leads_equality _ hword)
  word := by
    rintro x w y rfl hwhole hreserved
    obtain ⟨r, hr, hlead⟩ := exists_leads_of_reserved hreserved hwhole
    rw [← List.append_assoc] at hlead
    exact h r hr x (w.toList ++ y) (List.append_assoc _ _ _)
      (List.append_ne_nil_of_left_ne_nil hwhole.ne_nil y) _ hlead

/-- **What the table leaves unclaimed.** In the text that is divided above it, a plain token holds no punctuation, no
number, no operator, no reserved word and no named number, as far as these are told by their neighbours. -/
theorem leftOver_of_plain {source : String} {rescan : Bool} {above : List Token} {t : Token}
    (h : Token.Occurs (grammar.tokenize source rescan) above t) (hplain : t.kind = .plain) :
    ∃ before after, Token.textBelow source.toList above = before ++ t.value.toList ++ after ∧
      t.span.start = Token.baseBelow 0 above + byteLength before ∧
      LeftOver before t.value.toList after := by
  obtain ⟨before, after, htext, hstart, hunclaimed⟩ := unclaimed_of_plain h hplain
  exact ⟨before, after, htext, hstart, hunclaimed.leftOver⟩

/-- In the string `"x1 tt"` all is plain: the digit continues a word, and the word `tt` is not the word `t`. -/
theorem leftOver_in_string :
    ∃ p ∈ grammar.tokenize "\"x1 tt\"" true, ∃ t ∈ p.children, t.kind = .plain ∧
      t.value = "\"x1 tt\"" ∧ ∃ before after, p.value.toList = before ++ t.value.toList ++ after ∧
        t.span.start = p.span.start + byteLength before ∧ LeftOver before t.value.toList after := by
  have hfirst : ∃ p ∈ grammar.tokenize "\"x1 tt\"" true, ∃ t ∈ p.children, t.kind = .plain ∧
      t.value = "\"x1 tt\"" := by
    decide +kernel
  obtain ⟨p, hp, t, ht, hplain, hvalue⟩ := hfirst
  exact ⟨p, hp, t, ht, hplain, hvalue, leftOver_of_plain (.child (.top hp) ht) hplain⟩

end Moonli

end Highlight
