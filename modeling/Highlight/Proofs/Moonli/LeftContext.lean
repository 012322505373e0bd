import Highlight.Moonli.Basic
import Highlight.Proofs.Boundary

/-!
# The patterns of moonli see one character to the left

What an entry of the table offers at a position depends on the rest of the text and on the character before the
position (`length?_of_alike`). The start of a text is like the end of a line. There is one exception, the second
of two hash signs that begin a text: it is no line comment, as a match at the start is preferred there. No cut
comes to this position, since the first of the two signs is taken into a comment with the second
(`not_isHidden_of_firstPiece?`).

The main statement compares two texts that end alike. Behind a boundary that no claimed token crosses they have
the same claimed tokens, moved to where the common part begins.
-/

namespace Highlight

namespace Moonli

/-- The second of two hash signs that begin a text. -/
def IsHidden (c : Cursor) : Prop :=
  c.before = ['#'] ∧ c.rest.head? = some '#'

/-! ## What the patterns offer -/

theorem length?_of_unanchored {p : Pattern} (hp : p.isOver .unanchored = true) {c d : Cursor}
    (h : c.Alike d) : p.length? c = p.length? d := by
  obtain ⟨r, hr, hl, hover⟩ := Pattern.exists_regex_of_isOver hp
  rw [Pattern.length?_regex hr hl, Pattern.length?_regex hr hl, h.reads? hover]

theorem lineComment_eq : lineComment =
    .behind (.compl (.single '\\')) (.cat (.char '#') (.star (.set inLine) true)) := rfl

theorem length?_lineComment {p : Pattern} (hp : p.matcher = .regex lineComment)
    (hl : p.lookbehind = true) {c : Cursor} (hc : ¬ IsHidden c) :
    p.length? c =
      if c.before.head?.all (CharSet.compl (.single '\\')).mem then
        Pattern.tokenLength? (.cat (.char '#') (.star (.set inLine) true)) c
      else none :=
  Pattern.length?_behind_char (lineComment_eq ▸ hp) hl (by decide) fun h => hc ⟨h.1, h.2.2⟩

/-- The characters that a character literal may not follow. -/
def charContext : CharSet :=
  .compl (.union .word (.single '\''))

/-- What follows the opening quote of a character literal. -/
def charRest : Regex :=
  .cat
    (.alt
      (.cat (.char '\\') (.cat (.set (.compl (among '\r' ['\n'])))
        (.star (.set (.compl (among '\'' ['\r', '\n']))) true)))
      (.set (.compl (among '\\' ['\r', '\n']))))
    (.char '\'')

theorem charLiteral_eq : charLiteral = .behind charContext (.cat (.char '\'') charRest) := rfl

theorem length?_charLiteral {p : Pattern} (hp : p.matcher = .regex charLiteral)
    (hl : p.lookbehind = true) (c : Cursor) :
    p.length? c =
      if c.before.head?.all charContext.mem then
        Pattern.tokenLength? (.cat (.char '\'') charRest) c
      else none := by
  -- a quote is no context for another, so there is nothing to prefer
  have hquote : ¬ charContext.mem '\'' = true := by decide
  exact Pattern.length?_behind_char (charLiteral_eq ▸ hp) hl (by decide) fun h => hquote h.2.1

/-- Three patterns of the table look behind; the others are expressions that do not ask for the start of the text. -/
theorem pattern_of_mem : ∀ e ∈ grammar.entries, e.pattern.isOver .unanchored = true ∨
    e.pattern = { matcher := .blockComment, lookbehind := true } ∨
    e.pattern = { matcher := .regex lineComment, lookbehind := true } ∨
    e.pattern = { matcher := .regex charLiteral, lookbehind := true, greedy := true } := by
  decide +kernel

/-- **What an entry offers depends on one character to the left.** -/
theorem length?_of_alike {e : Entry} (he : e ∈ grammar.entries) {c d : Cursor} (h : c.Alike d)
    (hc : ¬ IsHidden c) (hd : ¬ IsHidden d) : e.pattern.length? c = e.pattern.length? d := by
  have hcontext : ∀ f : Char → Bool, f '\n' = true →
      c.before.head?.all f = d.before.head?.all f :=
    fun f hf => h.before (f := fun prev => prev.all f) (by simp [hf])
  rcases pattern_of_mem e he with hover | hblock | hline | hchar
  · exact length?_of_unanchored hover h
  · rw [hblock, Pattern.length?_blockComment rfl rfl, Pattern.length?_blockComment rfl rfl,
      hcontext _ (by decide), h.rest]
  · rw [hline, length?_lineComment rfl rfl hc, length?_lineComment rfl rfl hd,
      hcontext _ (by decide), Pattern.tokenLength?, Pattern.tokenLength?, h.reads? (by decide)]
  · rw [hchar, length?_charLiteral rfl rfl, length?_charLiteral rfl rfl, hcontext _ (by decide),
      Pattern.tokenLength?, Pattern.tokenLength?, h.reads? (by decide)]

/-! ## Two hash signs at the start of a text -/

/-- The entry of block comments. -/
def blockEntry : Entry :=
  ⟨.comment, some "block", { matcher := .blockComment, lookbehind := true }⟩

/-- The entry of line comments. -/
def lineEntry : Entry :=
  ⟨.comment, some "line", { matcher := .regex lineComment, lookbehind := true }⟩

/-- Where a text begins with two hash signs a token of more than one byte is offered, if comments come first in the
table. -/
theorem exists_offer?_of_hashes (more : List Entry) {c : Cursor} {rest : List Char}
    (hbefore : c.before = []) (hrest : c.rest = '#' :: '#' :: rest) :
    ∃ e m, offer? (blockEntry :: lineEntry :: more) c = some (e, m) ∧ c.offset + 1 < m.stop := by
  have hblockNone : blockEntry.pattern.length? c = none := by
    rw [blockEntry, Pattern.length?_blockComment rfl rfl, hbefore, hrest]
    rfl
  have hlineSome : lineEntry.pattern.length? c =
      some (byteLength ('#' :: '#' :: rest.takeWhile inLine.mem)) := by
    have hc : ¬ IsHidden c := fun h => List.cons_ne_nil _ _ (h.1.symm.trans hbefore)
    rw [lineEntry, length?_lineComment rfl rfl hc, hbefore, Pattern.tokenLength?, hrest, reads?_cat_char,
      reads?_star_set]
    rfl
  have hlength := map_offer? (blockEntry :: lineEntry :: more) c
  rw [List.findSome?_cons, hblockNone, Option.map_none, List.findSome?_cons, hlineSome,
    Option.map_some] at hlength
  obtain ⟨⟨e, m⟩, hoffer, hem⟩ := Option.map_eq_some_iff.1 hlength
  obtain ⟨-, hstop⟩ := Prod.mk.inj hem
  have hhash : '#'.utf8Size = 1 := rfl
  rw [byteLength_cons, byteLength_cons, hhash] at hstop
  exact ⟨e, m, hoffer, by omega⟩

/-- **No step leads to the second of two hash signs that begin a text**, if comments come first in the table. -/
theorem not_isHidden_of_commentsFirst {more : List Entry} {c d : Cursor} {p : Piece}
    (h : firstPiece? (blockEntry :: lineEntry :: more) c = some (p, d)) : ¬ IsHidden d := by
  rintro ⟨hbefore, hhead⟩
  have hspans := spans_of_firstPiece? h
  obtain ⟨rest, hrest⟩ := List.head?_eq_some_iff.1 hhead
  have hchars : p.chars = ['#'] ∧ c.before = [] := by
    have hlist := hspans.before.symm.trans hbefore
    rcases List.append_eq_singleton_iff.1 hlist with ⟨hnil, -⟩ | ⟨hchars, hnil⟩
    · exact absurd (List.reverse_eq_nil_iff.1 hnil) hspans.chars_ne_nil
    · exact ⟨List.reverse_eq_iff.1 hchars, hnil⟩
  have hcrest : c.rest = '#' :: '#' :: rest := by
    rw [hspans.rest, hchars.1, hrest, List.singleton_append]
  obtain ⟨e, m, hoffer, hlt⟩ := exists_offer?_of_hashes more hchars.2 hcrest
  have hoffset : d.offset = c.offset + 1 := by
    rw [← hspans.stop_eq, Piece.stop, hspans.start, hchars.1]
    rfl
  rcases stop_le_of_firstPiece? h hoffer with hle | hend
  · omega
  · rw [hrest] at hend
    cases hend

theorem entries_grammar : grammar.entries = blockEntry :: lineEntry :: grammar.entries.drop 2 := rfl

theorem not_isHidden_of_firstPiece? {c d : Cursor} {p : Piece}
    (h : firstPiece? grammar.entries c = some (p, d)) : ¬ IsHidden d := by
  rw [entries_grammar] at h
  exact not_isHidden_of_commentsFirst h

/-! ## Texts that end alike -/

theorem content_pieces_of_alike {c d : Cursor} (h : c.Alike d) (hc : ¬ IsHidden c)
    (hd : ¬ IsHidden d) :
    (pieces grammar.entries c).map Piece.content = (pieces grammar.entries d).map Piece.content :=
  Highlight.content_pieces_of_alike (fun _ he _ _ => length?_of_alike he)
    (fun _ _ _ => not_isHidden_of_firstPiece?) h hc hd

theorem left_behind_push (before : String) (c : Char) (rest : List Char) :
    (Cursor.behind (before.push c).toList rest).left = c := by
  have hbefore : (Cursor.behind (before.push c).toList rest).before = c :: before.toList.reverse := by
    change (before.push c).toList.reverse = _
    rw [String.toList_push, List.reverse_append]
    rfl
  rw [Cursor.left, hbefore]
  rfl

/-- What a run claims behind a boundary that no claimed token crosses, told by the pieces that are cut off there. -/
theorem claimedFrom_tokenize {before : String} {c : Char} {rest : String} {rescan : Bool}
    (hcross : ∀ t ∈ grammar.tokenize (before.push c ++ rest) rescan,
      ¬ t.Crosses (byteLength (before.push c).toList)) :
    ¬ IsHidden (.behind (before.push c).toList rest.toList) ∧
      Token.claimedFrom (byteLength (before.push c).toList)
          (grammar.tokenize (before.push c ++ rest) rescan) =
        (Token.claimed (tokensOf rescan grammar.entries 0
          ((pieces grammar.entries (.behind (before.push c).toList rest.toList)).map
            Piece.content))).map (Token.shift (byteLength (before.push c).toList)) := by
  have htext : (before.push c ++ rest).toList =
      (Cursor.behind (before.push c).toList rest.toList).text := by
    rw [Cursor.text_behind, String.toList_append]
  rw [Grammar.tokenize_eq, htext] at hcross ⊢
  obtain ⟨hlast, htokens⟩ := claimedFrom_tokensBy (d := Cursor.behind _ rest.toList)
    (fun _ => Grammar.kind_ne_plain) hcross
  refine ⟨?_, htokens⟩
  rcases hlast with hstart | ⟨b, p, hfirst⟩
  · rw [hstart]
    exact fun h => List.cons_ne_nil _ _ h.1.symm
  · exact not_isHidden_of_firstPiece? hfirst

/-- **Texts that end alike have alike tokens there.** Let `c` be the character before the common end `b` of two
texts, and let no claimed token of either cross the boundary. Then both have the same claimed tokens behind it,
at every depth, moved to where `b` begins. If `c` is a newline these are the claimed tokens of `b` alone. -/
theorem claimedFrom_tokenize_eq (u v b : String) (c : Char) (rescan : Bool)
    (hu : ∀ t ∈ grammar.tokenize (u.push c ++ b) rescan, ¬ t.Crosses (byteLength (u.push c).toList))
    (hv : ∀ t ∈ grammar.tokenize (v.push c ++ b) rescan,
      ¬ t.Crosses (byteLength (v.push c).toList)) :
    ∃ ts,
      Token.claimedFrom (byteLength (u.push c).toList) (grammar.tokenize (u.push c ++ b) rescan) =
        ts.map (Token.shift (byteLength (u.push c).toList)) ∧
      Token.claimedFrom (byteLength (v.push c).toList) (grammar.tokenize (v.push c ++ b) rescan) =
        ts.map (Token.shift (byteLength (v.push c).toList)) ∧
      (c = '\n' → ts = Token.claimed (grammar.tokenize b rescan)) := by
  obtain ⟨huHidden, huTokens⟩ := claimedFrom_tokenize hu
  obtain ⟨hvHidden, hvTokens⟩ := claimedFrom_tokenize hv
  have halike : (Cursor.behind (u.push c).toList b.toList).Alike
      (.behind (v.push c).toList b.toList) :=
    ⟨rfl, by rw [left_behind_push, left_behind_push]⟩
  refine ⟨_, huTokens, ?_, ?_⟩
  · rw [hvTokens, content_pieces_of_alike halike huHidden hvHidden]
  · rintro rfl
    have hstart : (Cursor.behind (u.push '\n').toList b.toList).Alike (.ofText b.toList) :=
      ⟨rfl, left_behind_push u '\n' _⟩
    have hnot : ¬ IsHidden (.ofText b.toList) := fun h => List.cons_ne_nil _ _ h.1.symm
    rw [Grammar.tokenize_eq, claimed_tokensBy, content_pieces_of_alike hstart huHidden hnot]
    rfl

/-- Behind a line that ends with a comment, `'a' t` has the two tokens that it has behind an empty line and alone. -/
theorem claimed_behind_comment :
    (∀ t ∈ grammar.tokenize ("".push '\n' ++ "'a' t") true, ¬ t.Crosses 1) ∧
      (∀ t ∈ grammar.tokenize ("x#y".push '\n' ++ "'a' t") true, ¬ t.Crosses 4) ∧
      ∃ ts, ts.length = 2 ∧
        Token.claimedFrom 1 (grammar.tokenize ("".push '\n' ++ "'a' t") true) =
          ts.map (Token.shift 1) ∧
        Token.claimedFrom 4 (grammar.tokenize ("x#y".push '\n' ++ "'a' t") true) =
          ts.map (Token.shift 4) ∧
        ts = Token.claimed (grammar.tokenize "'a' t" true) := by
  have hu : ∀ t ∈ grammar.tokenize ("".push '\n' ++ "'a' t") true, ¬ t.Crosses 1 := by
    decide +kernel
  have hv : ∀ t ∈ grammar.tokenize ("x#y".push '\n' ++ "'a' t") true, ¬ t.Crosses 4 := by
    decide +kernel
  have hlength : (Token.claimed (grammar.tokenize "'a' t" true)).length = 2 := by
    decide +kernel
  obtain ⟨ts, htu, htv, hts⟩ := claimedFrom_tokenize_eq "" "x#y" "'a' t" '\n' true hu hv
  exact ⟨hu, hv, ts, (hts rfl).symm ▸ hlength, htu, htv, hts rfl⟩

end Moonli

end Highlight
