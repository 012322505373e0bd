import Highlight.Proofs.Moonli.Beginnings
import Highlight.Proofs.Partition
import Highlight.Proofs.Piece.Claim

/-!
# Comments of moonli

A hash sign begins a comment, unless a backslash stands before it. Comments come first in the table, and no
other rule takes a hash sign but the greedy ones, whose text is divided again. Comments are not greedy, so that
their rule is never left out. So at every depth a hash sign lies in a comment or behind a backslash
(`exists_comment_of_hash`).

The main statement adds where the comments are: each of them begins with its hash sign and ends with its block,
if there is one, or with its line.
-/

namespace Highlight

namespace Moonli

/-- The rules besides comments begin with no hash sign, and only greedy ones read one. -/
theorem spec_of_mem_drop : ∀ e ∈ grammar.entries.drop 2, e.kind ≠ .comment ∧
    cannotBegin e.pattern '#' = true ∧ (e.pattern.greedy = true ∨ e.pattern.isOver (.avoiding '#') = true) := by
  decide +kernel

/-! ## The rule of comments -/

theorem withoutAll_commentsFirst {kinds : List Kind} (h : .comment ∉ kinds) :
    withoutAll grammar.entries kinds =
      blockEntry :: lineEntry :: withoutAll (grammar.entries.drop 2) kinds := by
  have hblock : blockEntry.kind ∉ kinds := h
  have hline : lineEntry.kind ∉ kinds := h
  rw [entries_grammar, withoutAll, List.filter_cons_of_pos (by simpa using hblock),
    List.filter_cons_of_pos (by simpa using hline)]
  rfl

/-- The entry that claims a comment at the start of a text, and the bytes of the comment. -/
def commentAt (text : List Char) : Entry × Nat :=
  match block? text with
  | some n => (blockEntry, n)
  | none => (lineEntry, byteLength (text.takeWhile inLine.mem))

section

variable {more : List Entry} {c : Cursor}

theorem length?_lineEntry (hc : ¬ IsHidden c) (hprev : c.before.head? ≠ some '\\')
    (hhead : c.rest.head? = some '#') :
    lineEntry.pattern.length? c = some (byteLength (c.rest.takeWhile inLine.mem)) := by
  obtain ⟨rest, hrest⟩ := List.head?_eq_some_iff.1 hhead
  have hcontext : c.before.head?.all (CharSet.compl (.single '\\')).mem = true := by
    cases hb : c.before.head? with
    | none => rfl
    | some a =>
      rw [hb] at hprev
      have ha : ¬ a = '\\' := fun h => hprev (congrArg some h)
      simp [CharSet.mem, CharSet.mem_single, ha]
  have hhash : inLine.mem '#' = true := by decide
  rw [lineEntry, length?_lineComment rfl rfl hc, if_pos hcontext, Pattern.tokenLength?, hrest,
    reads?_cat_char, reads?_star_set, List.takeWhile_cons, if_pos hhash]
  rfl

theorem length?_blockEntry (hprev : c.before.head? ≠ some '\\') :
    blockEntry.pattern.length? c = block? c.rest := by
  have hcontext : c.before.head?.all (fun a => a ≠ '\\') = true := by
    cases hb : c.before.head? with
    | none => rfl
    | some a =>
      rw [hb] at hprev
      have ha : ¬ a = '\\' := fun h => hprev (congrArg some h)
      simpa using ha
  rw [blockEntry, Pattern.length?_blockComment rfl rfl, if_pos hcontext]

/-- **A hash sign begins a comment**, if no backslash stands before it. -/
theorem claim?_of_hash (hc : ¬ IsHidden c) (hprev : c.before.head? ≠ some '\\')
    (hhead : c.rest.head? = some '#') :
    claim? (blockEntry :: lineEntry :: more) c = some (commentAt c.rest) := by
  rw [claim?, List.findSome?_cons, length?_blockEntry hprev, commentAt]
  cases block? c.rest with
  | some n => rfl
  | none =>
    rw [Option.map_none, List.findSome?_cons, length?_lineEntry hc hprev hhead]
    rfl

theorem of_claim?_comment (hmore : ∀ e ∈ more, e.kind ≠ .comment) (hc : ¬ IsHidden c) {e : Entry}
    {n : Nat} (h : claim? (blockEntry :: lineEntry :: more) c = some (e, n)) (he : e.kind = .comment) :
    c.before.head? ≠ some '\\' ∧ c.rest.head? = some '#' := by
  obtain ⟨hmem, hlength⟩ := of_claim? h
  rcases List.mem_cons.1 hmem with rfl | hmem
  · rw [blockEntry, Pattern.length?_blockComment rfl rfl] at hlength
    split at hlength
    · next hcontext =>
      refine ⟨fun hprev => ?_, ?_⟩
      · rw [hprev] at hcontext
        cases hcontext
      · obtain ⟨rest, hrest⟩ := Pattern.exists_of_block? hlength
        rw [hrest]
        rfl
    · cases hlength
  rcases List.mem_cons.1 hmem with rfl | hmem
  · rw [lineEntry, length?_lineComment rfl rfl hc] at hlength
    split at hlength
    · next hcontext =>
      refine ⟨fun hprev => ?_, (Pattern.of_tokenLength? hlength).2⟩
      rw [hprev] at hcontext
      cases hcontext
    · cases hlength
  · exact absurd he (hmore e hmem)

end

theorem not_isHidden_of_reached {kinds : List Kind} (hkinds : .comment ∉ kinds) {text : List Char}
    {b : Cursor} (h : b = .ofText text ∨
      ∃ b' q, firstPiece? (withoutAll grammar.entries kinds) b' = some (q, b)) : ¬ IsHidden b := by
  rcases h with rfl | ⟨b', q, hfirst⟩
  · exact fun h => List.cons_ne_nil _ _ h.1.symm
  · rw [withoutAll_commentsFirst hkinds] at hfirst
    exact not_isHidden_of_commentsFirst hfirst

theorem mem_drop_of_kind_ne {kinds : List Kind} {e : Entry} (he : e ∈ withoutAll grammar.entries kinds)
    (hkind : e.kind ≠ .comment) : e ∈ grammar.entries.drop 2 := by
  have hmem := mem_of_mem_withoutAll he
  rw [entries_grammar] at hmem
  rcases List.mem_cons.1 hmem with rfl | hmem
  · exact absurd rfl hkind
  rcases List.mem_cons.1 hmem with rfl | hmem
  · exact absurd rfl hkind
  · exact hmem

theorem greedy_of_comment {e : Entry} (he : e ∈ grammar.entries) (hkind : e.kind = .comment) :
    e.pattern.greedy = false := by
  rw [entries_grammar] at he
  rcases List.mem_cons.1 he with rfl | he
  · rfl
  rcases List.mem_cons.1 he with rfl | he
  · rfl
  · exact absurd hkind (spec_of_mem_drop e he).1

/-! ## Every hash sign -/

theorem head?_before_of_claim?_eq_none {more : List Entry} {c : Cursor} (hc : ¬ IsHidden c)
    (hhead : c.rest.head? = some '#') (h : claim? (blockEntry :: lineEntry :: more) c = none) :
    c.before.head? = some '\\' := by
  by_cases hprev : c.before.head? = some '\\'
  · exact hprev
  · rw [claim?_of_hash hc hprev hhead] at h
    cases h

theorem mem_flatten_of_mem {ts : List Token} {t : Token} (ht : t ∈ ts) :
    (t.children = [] → t ∈ Token.flatten ts) ∧
      ∀ u ∈ Token.flatten t.children, u ∈ Token.flatten ts := by
  refine ⟨fun hchildren => ?_, fun u hu => ?_⟩
  · exact List.mem_flatMap.2 ⟨t, ht, by rw [Token.leaves_eq, if_pos hchildren]; exact List.mem_singleton_self t⟩
  · have hchildren : t.children ≠ [] := by
      intro hnil
      rw [hnil] at hu
      cases hu
    exact List.mem_flatMap.2 ⟨t, ht, by rwa [Token.leaves_eq, if_neg hchildren]⟩

/-- A piece with a hash sign is this sign behind a backslash, or it is a comment or greedy. -/
theorem spec_of_hash {kinds : List Kind} (hkinds : .comment ∉ kinds) {b d : Cursor} {p : Piece}
    {v w : List Char} (hb : ¬ IsHidden b) (hp : firstPiece? (withoutAll grammar.entries kinds) b = some (p, d))
    (hv : p.chars = v ++ '#' :: w) :
    (v = [] ∧ b.before.head? = some '\\') ∨
      ∃ e ∈ withoutAll grammar.entries kinds, p.claim = some e ∧
        (e.kind = .comment ∨ e.kind ≠ .comment ∧ e.pattern.greedy = true) := by
  have hspans := spans_of_firstPiece? hp
  have hclaim := claim?_of_firstPiece? hp
  cases hpclaim : p.claim with
  | none =>
    obtain ⟨a, ha⟩ := hspans.single hpclaim
    obtain rfl : v = [] := by
      rw [hv] at ha
      cases v with
      | nil => rfl
      | cons x v => cases v <;> cases ha
    have hhead : b.rest.head? = some '#' := by rw [hspans.rest, hv]; rfl
    rw [hpclaim, withoutAll_commentsFirst hkinds] at hclaim
    exact Or.inl ⟨rfl, head?_before_of_claim?_eq_none hb hhead hclaim⟩
  | some e =>
    rw [hpclaim] at hclaim
    obtain ⟨he, hlength⟩ := of_claim? hclaim
    refine Or.inr ⟨e, he, rfl, ?_⟩
    by_cases hcomment : e.kind = .comment
    · exact Or.inl hcomment
    · refine Or.inr ⟨hcomment, (spec_of_mem_drop e (mem_drop_of_kind_ne he hcomment)).2.2.resolve_right ?_⟩
      intro havoids
      refine absurd ?_ (Pattern.not_mem_of_length? havoids hspans.rest hlength)
      rw [hv]
      exact List.mem_append_right v List.mem_cons_self

/-- **A hash sign lies in a comment or behind a backslash**, in a text that is divided below tokens of other
kinds. -/
theorem exists_comment_of_hash {kinds : List Kind} (hkinds : .comment ∉ kinds) (base : Nat)
    {text before after : List Char} (htext : text = before ++ '#' :: after) :
    before.getLast? = some '\\' ∨
      ∃ t ∈ Token.flatten (tokensBy cutAfresh true (withoutAll grammar.entries kinds) base text),
        t.kind = .comment ∧ t.span.start ≤ base + byteLength before ∧
          base + byteLength before < t.span.stop := by
  -- on the number of entries, as the text of a greedy token is divided by fewer
  induction hsize : (withoutAll grammar.entries kinds).length using Nat.strongRecOn
    generalizing kinds base text before after with
  | ind size ih =>
    obtain ⟨b, d, p, v, w, hp, -, hreached, hfirst, hv, hbefore⟩ :=
      exists_firstPiece?_at (c := .ofText text) (withoutAll grammar.entries kinds) htext
    have hsplit : before = b.before.reverse ++ v := by
      have hrev := congrArg List.reverse (hbefore.trans (List.append_nil _))
      rwa [List.reverse_append, List.reverse_reverse, List.reverse_reverse, eq_comm] at hrev
    have hoffset : p.start + byteLength v = byteLength before := by
      rw [(spans_of_firstPiece? hfirst).start, b.offset_eq, hsplit, byteLength_append, byteLength_reverse]
    rcases spec_of_hash hkinds (not_isHidden_of_reached hkinds hreached) hfirst hv with
      ⟨rfl, hprev⟩ | ⟨e, he, hclaim, hkind⟩
    · rw [hsplit, List.append_nil, List.getLast?_reverse]
      exact Or.inl hprev
    have hmem := mem_flatten_of_mem (token_mem_tokensBy true base
      (Grammar.kind_ne_plain_of_withoutAll kinds) hp (by rw [hclaim]; exact nofun))
    have hchildren : (p.token base (childrenBy true (withoutAll grammar.entries kinds) base p)).children =
        childrenBy true (withoutAll grammar.entries kinds) base p e := by
      rw [Piece.token, hclaim]
      rfl
    rw [hchildren] at hmem
    rcases hkind with hcomment | ⟨hcomment, hgreedy⟩
    · have hnone : childrenBy true (withoutAll grammar.entries kinds) base p e = [] := by
        rw [childrenBy, greedy_of_comment (mem_of_mem_withoutAll he) hcomment]
        rfl
      have hhash : '#'.utf8Size = 1 := rfl
      refine Or.inr ⟨_, hmem.1 hnone, ?_, ?_, ?_⟩
      · rw [Piece.token, hclaim]
        exact hcomment
      · simp only [Piece.token]
        omega
      · simp only [Piece.token, Piece.stop, hv, byteLength_append, byteLength_cons, hhash]
        omega
    · have hrun : childrenBy true (withoutAll grammar.entries kinds) base p e =
          tokensBy cutAfresh true (withoutAll grammar.entries (e.kind :: kinds)) (base + p.start)
            p.chars := by
        rw [childrenBy, hgreedy, without_withoutAll]
        rfl
      have hlt := length_without_lt he
      rw [without_withoutAll, hsize] at hlt
      have hkinds' : .comment ∉ e.kind :: kinds :=
        List.not_mem_cons_of_ne_of_not_mem (Ne.symm hcomment) hkinds
      rcases ih _ hlt hkinds' (base + p.start) hv rfl with hlast | ⟨t, ht, hkind, hstart, hstop⟩
      · rw [hsplit, List.getLast?_append, hlast]
        exact Or.inl rfl
      · rw [← hrun] at ht
        exact Or.inr ⟨t, hmem.2 t ht, hkind, by omega, by omega⟩

/-! ## Where comments are -/

section

variable {kinds : List Kind} {rescan : Bool} {base : Nat} {text : List Char} {t : Token}

theorem spec_of_children_ne_nil
    (ht : t ∈ tokensBy cutAfresh rescan (withoutAll grammar.entries kinds) base text)
    (hchildren : t.children ≠ []) : t.kind ≠ .comment ∧ t.value.toList.head? ≠ some '#' := by
  obtain ⟨e, b, v, w, -, -, hrest, hclaim, rfl⟩ :=
    exists_claim?_of_mem (Grammar.kind_ne_plain_of_withoutAll kinds) ht fun _ => hchildren
  obtain ⟨he, hlength⟩ := of_claim? hclaim
  have hgreedy : e.pattern.greedy = true := greedy_of_childrenBy_ne_nil hchildren
  have hkind : e.kind ≠ .comment := by
    intro hcomment
    rw [greedy_of_comment (mem_of_mem_withoutAll he) hcomment] at hgreedy
    cases hgreedy
  refine ⟨hkind, fun hhead => ?_⟩
  rw [Piece.token, String.toList_ofList] at hhead
  obtain ⟨chars, rfl⟩ := List.head?_eq_some_iff.1 hhead
  have hnone := length?_of_cannotBegin (mem_of_mem_withoutAll he)
    (spec_of_mem_drop e (mem_drop_of_kind_ne he hkind)).2.1 hrest
  rw [hlength] at hnone
  cases hnone

/-- A comment of a run stands behind no backslash, begins with a hash sign and is the one that begins there. -/
theorem exists_of_comment_mem (hkinds : .comment ∉ kinds)
    (ht : t ∈ tokensBy cutAfresh rescan (withoutAll grammar.entries kinds) base text)
    (hkind : t.kind = .comment) :
    ∃ before after, text = before ++ after ∧ t.span.start = base + byteLength before ∧
      before.getLast? ≠ some '\\' ∧ after.head? = some '#' ∧
      t.label = (commentAt after).1.label ∧ t.span.stop = t.span.start + (commentAt after).2 := by
  obtain ⟨e, b, v, w, hprecedes, hreached, -, hclaim, rfl⟩ :=
    exists_claim?_of_mem (Grammar.kind_ne_plain_of_withoutAll kinds) ht fun hplain => by
      rw [hkind] at hplain
      cases hplain
  have hhidden := not_isHidden_of_reached hkinds hreached
  have hmore : ∀ e ∈ withoutAll (grammar.entries.drop 2) kinds, e.kind ≠ .comment :=
    fun e he => (spec_of_mem_drop e (mem_of_mem_withoutAll he)).1
  rw [withoutAll_commentsFirst hkinds] at hclaim
  obtain ⟨hprev, hhead⟩ := of_claim?_comment hmore hhidden hclaim hkind
  rw [claim?_of_hash hhidden hprev hhead] at hclaim
  have hat := Option.some.inj hclaim
  refine ⟨b.before.reverse, b.rest, hprecedes.text_eq.symm, ?_, ?_, hhead, ?_, ?_⟩
  · rw [Piece.token, b.offset_eq, byteLength_reverse]
  · rwa [List.getLast?_reverse]
  · rw [hat]
    rfl
  · rw [hat, Piece.token, Piece.stop, Nat.add_assoc]

end

/-- The text that is divided below the given tokens belongs to no comment and does not begin with a hash sign,
unless it is the whole source. -/
theorem spec_of_occurs {source : String} {rescan : Bool} {above : List Token} {t : Token}
    (h : Token.Occurs (grammar.tokenize source rescan) above t) :
    .comment ∉ above.map Token.kind ∧ ∀ parent ∈ above.head?, parent.value.toList.head? ≠ some '#' := by
  induction h with
  | top _ => exact ⟨List.not_mem_nil, nofun⟩
  | @child above parent t hparent h ih =>
    obtain ⟨hkind, hhead⟩ := spec_of_children_ne_nil (Grammar.mem_run_of_occurs hparent)
      (List.ne_nil_of_mem h)
    refine ⟨?_, ?_⟩
    · rw [List.map_cons]
      exact List.not_mem_cons_of_ne_of_not_mem (Ne.symm hkind) ih.1
    · rintro _ ⟨⟩
      exact hhead

theorem exists_append_textBelow {g : Grammar} {source : String} {rescan : Bool} {above : List Token}
    {t : Token} (h : Token.Occurs (g.tokenize source rescan) above t) :
    ∃ before after, source.toList = before ++ Token.textBelow source.toList above ++ after ∧
      byteLength before = Token.baseBelow 0 above ∧ (above = [] → before = []) := by
  cases h with
  | top _ => exact ⟨[], [], (List.append_nil _).symm, rfl, fun _ => rfl⟩
  | child hparent _ =>
    obtain ⟨before, after, htext, hspan⟩ := Grammar.isSliceOf_of_occurs hparent
    exact ⟨before, after, htext, (congrArg Span.start hspan).symm, nofun⟩

theorem mem_inLine (a : Char) :
    inLine.mem a = decide (a ∉ ['\n', '\r', '\u2028', '\u2029']) := by
  simp [inLine, among, CharSet.unionAll, CharSet.mem, CharSet.mem_single, Bool.and_assoc]

/-- **Comments are found completely and end where they should.** A hash sign lies in a comment or directly behind a
backslash. No comment begins directly behind a backslash. In the text that is divided above it, a comment goes to
the end of its block if there is one, and to the end of its line if there is none. -/
theorem comments_of_tokenize (source : String) :
    (∀ before after, source.toList = before ++ '#' :: after →
      before.getLast? = some '\\' ∨
        ∃ t ∈ Token.flatten (grammar.tokenize source true), t.kind = .comment ∧
          t.span.start ≤ byteLength before ∧ byteLength before < t.span.stop) ∧
    (∀ above t, Token.Occurs (grammar.tokenize source true) above t → t.kind = .comment →
      (∀ before after, source.toList = before ++ after → byteLength before = t.span.start →
        before.getLast? ≠ some '\\') ∧
      ∃ before after, Token.textBelow source.toList above = before ++ after ∧
        t.span.start = Token.baseBelow 0 above + byteLength before ∧
        match block? after with
        | some n => t.label = some "block" ∧ t.span.stop = t.span.start + n
        | none => t.label = some "line" ∧ t.span.stop = t.span.start +
            byteLength (after.takeWhile fun a => a ∉ ['\n', '\r', '\u2028', '\u2029'])) := by
  refine ⟨fun before after htext => ?_, fun above t h hkind => ?_⟩
  · have hhash := exists_comment_of_hash (List.not_mem_nil : Kind.comment ∉ []) 0 htext
    rwa [Nat.zero_add, withoutAll_nil, ← Grammar.tokenize_eq] at hhash
  obtain ⟨habove, hfirst⟩ := spec_of_occurs h
  obtain ⟨before, after, hbelow, hstart, hprev, hhead, hlabel, hstop⟩ :=
    exists_of_comment_mem habove (Grammar.mem_run_of_occurs h) hkind
  refine ⟨fun lead rest hlead hoffset => ?_, before, after, hbelow, hstart, ?_⟩
  · obtain ⟨front, back, htext, hfront, htop⟩ := exists_append_textBelow h
    have hsplit : lead ++ rest = (front ++ before) ++ (after ++ back) := by
      rw [← hlead, htext, hbelow]
      simp only [List.append_assoc]
    have heq : lead = front ++ before :=
      eq_of_byteLength_eq hsplit (by rw [hoffset, hstart, byteLength_append, hfront])
    rw [heq]
    cases hcases : before with
    | nil =>
      -- a comment at the start of a text that is divided stands at the start of the source
      cases above with
      | nil => rw [htop rfl]; nofun
      | cons parent above =>
        refine absurd ?_ (hfirst parent rfl)
        rw [← hhead]
        exact congrArg List.head? (hbelow.trans (by rw [hcases, List.nil_append]))
    | cons a more =>
      have hsome : before.getLast?.isSome :=
        List.getLast?_isSome.2 (hcases ▸ List.cons_ne_nil a more)
      rwa [← hcases, List.getLast?_append, Option.or_of_isSome hsome]
  · rw [commentAt] at hlabel hstop
    cases hblock : block? after with
    | some n =>
      rw [hblock] at hlabel hstop
      exact ⟨hlabel, hstop⟩
    | none =>
      rw [hblock] at hlabel hstop
      simp only [funext mem_inLine] at hstop
      exact ⟨hlabel, hstop⟩

/-- In the string literal `"a#b"` the hash sign lies in a comment, which goes to the end of the literal. -/
theorem comment_in_string :
    (∃ t ∈ Token.flatten (grammar.tokenize "\"a#b\"" true), t.kind = .comment ∧
      t.span.start ≤ 2 ∧ 2 < t.span.stop) ∧
    ∃ parent ∈ grammar.tokenize "\"a#b\"" true, ∃ t ∈ parent.children, t.kind = .comment ∧
      ∃ before after, parent.value.toList = before ++ after ∧
        t.span.start = parent.span.start + byteLength before ∧
        match block? after with
        | some n => t.label = some "block" ∧ t.span.stop = t.span.start + n
        | none => t.label = some "line" ∧ t.span.stop = t.span.start +
            byteLength (after.takeWhile fun a => a ∉ ['\n', '\r', '\u2028', '\u2029']) := by
  obtain ⟨hashes, comments⟩ := comments_of_tokenize "\"a#b\""
  have hfirst : ∃ parent ∈ grammar.tokenize "\"a#b\"" true, ∃ t ∈ parent.children,
      t.kind = .comment := by
    decide +kernel
  obtain ⟨parent, hparent, t, ht, hkind⟩ := hfirst
  refine ⟨?_, parent, hparent, t, ht, hkind, ?_⟩
  · exact (hashes ['"', 'a'] ['b', '"'] rfl).resolve_left (by decide)
  · exact (comments [parent] t (.child (.top hparent) ht) hkind).2

end Moonli

end Highlight
