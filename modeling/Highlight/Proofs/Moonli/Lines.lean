import Highlight.Proofs.Lexer
import Highlight.Proofs.Moonli.LeftContext
import Highlight.Proofs.Piece.Claim
import Highlight.Proofs.Regex.Cut

/-!
# Lines of moonli

Two tokens of moonli can go over several lines, block comments and strings in three quotes. Where neither
begins, a newline is for every pattern what the end of the text is (`length?_of_newline`), and nothing begins
with it. Behind it a text goes on as it begins, so that a text can be tokenized line by line.
-/

namespace Highlight

namespace Moonli

/-! ## Newlines end what patterns read -/

/-- No block comment and no string in three quotes begins anywhere in the text. -/
structure OneLiners (text : List Char) : Prop where
  quotes : ¬ ['"', '"', '"'] <:+: text
  block : ¬ ['#', '='] <:+: text

theorem OneLiners.of_suffix {text rest : List Char} (h : OneLiners text) (hrest : rest <:+ text) :
    OneLiners rest where
  quotes := fun hin => h.quotes (hin.trans hrest.isInfix)
  block := fun hin => h.block (hin.trans hrest.isInfix)

theorem length?_of_withinLine {p : Pattern} (hp : p.isOver .withinLine = true) {c d : Cursor}
    {more : List Char} (hrest : c.rest = d.rest ++ '\n' :: more) (hbefore : c.before = d.before) :
    p.length? c = p.length? d := by
  obtain ⟨r, hr, hl, hover⟩ := Pattern.exists_regex_of_isOver hp
  rw [Pattern.length?_regex hr hl, Pattern.length?_regex hr hl, hrest, hbefore,
    reads?_append_newline (Vocabulary.spells_singleton hover 0)]

theorem tokenLength?_of_newline {r : Regex} (hr : r.isOver .withinLine = true) {c d : Cursor}
    {more : List Char} (hrest : c.rest = d.rest ++ '\n' :: more) (hbefore : c.before = d.before) :
    Pattern.tokenLength? r c = Pattern.tokenLength? r d := by
  rw [Pattern.tokenLength?, Pattern.tokenLength?, hrest, hbefore,
    reads?_append_newline (Vocabulary.spells_singleton hr 2)]

theorem block?_of_not_prefix {text : List Char} (h : ¬ ['#', '='] <+: text) : block? text = none := by
  refine Option.eq_none_iff_forall_ne_some.2 fun n hn => h ?_
  obtain ⟨rest, rfl⟩ := Pattern.exists_of_block? hn
  exact List.prefix_append ['#', '='] rest

theorem length?_tripleQuoted {c : Cursor} (h : ¬ ['"', '"', '"'] <+: c.rest) :
    Pattern.length? { matcher := .regex tripleQuoted, greedy := true } c = none := by
  obtain ⟨r, hr⟩ : ∃ r, tripleQuoted =
      .cat (.char '"') (.cat (.char '"') (.cat (.char '"') r)) := ⟨_, rfl⟩
  rw [Pattern.length?_regex rfl rfl, hr]
  cases hreads : reads? [[⟨.cat (.char '"') (.cat (.char '"') (.cat (.char '"') r)), 0⟩]]
      c.before.head? c.rest with
  | none => rfl
  | some cs =>
    obtain ⟨more, ds, hmore, -, hds⟩ := exists_of_reads?_cat_char hreads
    obtain ⟨more', es, rfl, -, hes⟩ := exists_of_reads?_cat_char hds
    obtain ⟨more'', fs, rfl, -, -⟩ := exists_of_reads?_cat_char hes
    rw [hmore] at h
    exact absurd (List.prefix_append ['"', '"', '"'] more'') h

theorem prefix_of_prefix_append_newline {v text more : List Char} (hv : '\n' ∉ v)
    (h : v <+: text ++ '\n' :: more) : v <+: text := by
  obtain ⟨w, hw⟩ := h
  rcases List.append_eq_append_iff.1 hw with ⟨ms, rfl, -⟩ | ⟨ms, rfl, hms⟩
  · exact List.prefix_append _ _
  · cases ms with
    | nil => simp
    | cons a ms =>
      obtain ⟨rfl, -⟩ := List.cons.inj hms
      exact absurd (List.mem_append_right _ List.mem_cons_self) hv

/-- All but three patterns of the table are expressions that read no newline, and so are the tokens of two of the
others. -/
theorem pattern_of_mem_lines : ∀ e ∈ grammar.entries, e.pattern.isOver .withinLine = true ∨
    e.pattern = { matcher := .blockComment, lookbehind := true } ∨
    e.pattern = { matcher := .regex lineComment, lookbehind := true } ∨
    e.pattern = { matcher := .regex tripleQuoted, greedy := true } ∨
    e.pattern = { matcher := .regex charLiteral, lookbehind := true, greedy := true } := by
  decide

/-- **A newline is what the end of the text is**, for each pattern. -/
theorem length?_of_newline {e : Entry} (he : e ∈ grammar.entries) {c d : Cursor} {more : List Char}
    (hd : OneLiners d.rest) (hhidden : ¬ IsHidden d) (hrest : c.rest = d.rest ++ '\n' :: more)
    (hbefore : c.before = d.before) : e.pattern.length? c = e.pattern.length? d := by
  have hchidden : ¬ IsHidden c := by
    rintro ⟨hcbefore, hhead⟩
    refine hhidden ⟨hbefore ▸ hcbefore, ?_⟩
    rw [hrest] at hhead
    cases hdrest : d.rest with
    | nil => rw [hdrest] at hhead; cases hhead
    | cons a rest => rw [hdrest] at hhead; exact hhead
  rcases pattern_of_mem_lines e he with hline | hblock | hline | htriple | hchar
  · exact length?_of_withinLine hline hrest hbefore
  · have hc : ¬ ['#', '='] <+: c.rest := by
      rw [hrest]
      exact fun h => hd.block (prefix_of_prefix_append_newline (by decide) h).isInfix
    rw [hblock, Pattern.length?_blockComment rfl rfl, Pattern.length?_blockComment rfl rfl, hbefore,
      block?_of_not_prefix hc, block?_of_not_prefix fun h => hd.block h.isInfix]
  · rw [hline, length?_lineComment rfl rfl hchidden, length?_lineComment rfl rfl hhidden, hbefore,
      tokenLength?_of_newline (by decide) hrest hbefore]
  · have hc : ¬ ['"', '"', '"'] <+: c.rest := by
      rw [hrest]
      exact fun h => hd.quotes (prefix_of_prefix_append_newline (by decide) h).isInfix
    rw [htriple, length?_tripleQuoted hc, length?_tripleQuoted fun h => hd.quotes h.isInfix]
  · rw [hchar, length?_charLiteral rfl rfl, length?_charLiteral rfl rfl, hbefore,
      tokenLength?_of_newline (by decide) hrest hbefore]

theorem claim?_of_newline {c d : Cursor} {more : List Char} (hd : OneLiners d.rest)
    (hhidden : ¬ IsHidden d) (hrest : c.rest = d.rest ++ '\n' :: more) (hbefore : c.before = d.before) :
    claim? grammar.entries c = claim? grammar.entries d :=
  findSome?_congr fun e he => by rw [length?_of_newline he hd hhidden hrest hbefore]

/-! ## Line by line -/

theorem oneLiners_nil : OneLiners [] where
  quotes := by decide
  block := by decide

/-- **The pieces of a text with a newline** are those of the text before it, the newline, which nothing claims,
and behind it those of the text behind it. -/
theorem exists_pieces_newline {a : List Char} (ha : OneLiners a) (b : List Char) :
    ∃ e f : Cursor,
      pieces grammar.entries (.ofText (a ++ '\n' :: b)) =
        pieces grammar.entries (.ofText a) ++ ⟨none, ['\n'], e.offset⟩ :: pieces grammar.entries f ∧
      e.offset = byteLength a ∧ f.offset = byteLength a + 1 ∧
      (pieces grammar.entries f).map Piece.content =
        (pieces grammar.entries (.ofText b)).map Piece.content := by
  have hstart : ∀ text : List Char, ¬ IsHidden (.ofText text) :=
    fun text h => List.cons_ne_nil _ _ h.1.symm
  have hstep : ∀ (d : Cursor) (p : Piece) (e : Cursor), OneLiners d.rest ∧ ¬ IsHidden d →
      firstPiece? grammar.entries d = some (p, e) → OneLiners e.rest ∧ ¬ IsHidden e := by
    intro d p e hd hfirst
    have hsuffix : e.rest <:+ d.rest := ⟨p.chars, (spans_of_firstPiece? hfirst).rest.symm⟩
    exact ⟨hd.1.of_suffix hsuffix, not_isHidden_of_firstPiece? hfirst⟩
  have hclaim : ∀ c d : Cursor, OneLiners d.rest ∧ ¬ IsHidden d → c.rest = d.rest ++ '\n' :: b →
      c.before = d.before → claim? grammar.entries c = claim? grammar.entries d :=
    fun c d hd hrest hbefore => claim?_of_newline hd.1 hd.2 hrest hbefore
  obtain ⟨e, hpieces, herest, hebefore⟩ := exists_pieces_append_of_claim? hclaim hstep
    (c := .ofText (a ++ '\n' :: b)) (d := .ofText a) ⟨ha, hstart a⟩ rfl rfl
  obtain ⟨f, hnext, hfrest⟩ := Cursor.exists_next? herest
  have hebefore : e.before = a.reverse := hebefore.trans (List.append_nil _)
  -- nothing begins with a newline, as nothing begins at the end of a text
  have hnewline : claim? grammar.entries e = none := by
    obtain ⟨d, hdrest, hdbefore⟩ : ∃ d : Cursor, d.rest = [] ∧ d.before = a.reverse :=
      ⟨⟨a.reverse, [], byteLength a, (byteLength_reverse a).symm⟩, rfl, rfl⟩
    have hhidden : ¬ IsHidden d := by
      intro h
      have hhead := h.2
      rw [hdrest] at hhead
      cases hhead
    rw [claim?_of_newline (d := d) (hdrest ▸ oneLiners_nil) hhidden (by rw [herest, hdrest]; rfl)
      (hebefore.trans hdbefore.symm), claim?_of_end hdrest]
  have hfirst := firstPiece?_of_claim?_eq_none hnext hnewline
  have heoffset : e.offset = byteLength a := by rw [e.offset_eq, hebefore, byteLength_reverse]
  refine ⟨e, f, ?_, heoffset, ?_, ?_⟩
  · rw [hpieces, pieces_of_firstPiece? hfirst]
  · rw [Cursor.offset_next? hnext, heoffset]
    rfl
  · have hleft : f.left = '\n' := by
      rw [Cursor.left, (Cursor.next?_eq_some.1 hnext).2]
      rfl
    have halike : f.Alike (.ofText b) := ⟨hfrest, hleft⟩
    exact content_pieces_of_alike halike (not_isHidden_of_firstPiece? hfirst) (hstart b)

/-- **Moonli can be tokenized line by line.** If no block comment and no string in three quotes begins in `a`,
the tokens of `a`, a newline and `b` are what comes of pushing, one after another, the tokens of `a`, the
newline as plain text, and the tokens of `b`, moved to where `b` begins. -/
theorem tokenize_append_newline (a b : String) (rescan : Bool)
    (hquotes : ¬ "\"\"\"".toList <:+: a.toList) (hblock : ¬ "#=".toList <:+: a.toList) :
    grammar.tokenize (a ++ "\n" ++ b) rescan =
      ((grammar.tokenize a rescan ++
        ⟨.plain, none, "\n", ⟨byteLength a.toList, byteLength a.toList + 1⟩, []⟩ ::
          (grammar.tokenize b rescan).map (Token.shift (byteLength a.toList + 1))).foldl
            Lexer.push (.ofText (a ++ "\n" ++ b))).finish := by
  have htext : (a ++ "\n" ++ b).toList = a.toList ++ '\n' :: b.toList := by
    simp [String.toList_append]
  obtain ⟨e, f, hpieces, he, hf, hcontent⟩ := exists_pieces_newline ⟨hquotes, hblock⟩ b.toList
  have htail : (pieces grammar.entries f).map (fun p => p.token 0 (childrenBy rescan grammar.entries 0 p)) =
      ((cutAfresh grammar.entries b.toList).map fun p =>
        p.token 0 (childrenBy rescan grammar.entries 0 p)).map (Token.shift (byteLength a.toList + 1)) := by
    rw [← tokensOf_pieces, hcontent, hf, ← Nat.zero_add (byteLength a.toList + 1), tokensOf_add,
      Nat.zero_add]
    congr 1
    exact tokensOf_pieces rescan grammar.entries (.ofText b.toList)
  have hnewline : (⟨none, ['\n'], e.offset⟩ : Piece).token 0
      (childrenBy rescan grammar.entries 0 ⟨none, ['\n'], e.offset⟩) =
        ⟨.plain, none, "\n", ⟨byteLength a.toList, byteLength a.toList + 1⟩, []⟩ := by
    rw [he, Piece.token, Piece.stop, Nat.zero_add, Nat.zero_add]
    rfl
  rw [Lexer.finish_foldl_push, Grammar.tokenize_eq, Grammar.tokenize_eq, Grammar.tokenize_eq, tokensBy_eq,
    tokensBy_eq, tokensBy_eq, htext, ← Token.join_map_shift, Token.join_join_append_cons_join, cutAfresh,
    hpieces, List.map_append, List.map_cons, htail, hnewline]
  rfl

/-- A comment that ends in a quote opens no string on the next line. -/
theorem tokenize_comment_then_string :
    ¬ "\"\"\"".toList <:+: "#\"".toList ∧ ¬ "#=".toList <:+: "#\"".toList ∧
      grammar.tokenize ("#\"" ++ "\n" ++ "\"t\"") true =
        ((grammar.tokenize "#\"" true ++
          ⟨.plain, none, "\n", ⟨byteLength "#\"".toList, byteLength "#\"".toList + 1⟩, []⟩ ::
            (grammar.tokenize "\"t\"" true).map (Token.shift (byteLength "#\"".toList + 1))).foldl
              Lexer.push (.ofText ("#\"" ++ "\n" ++ "\"t\""))).finish := by
  have hquotes : ¬ "\"\"\"".toList <:+: "#\"".toList := by decide
  have hblock : ¬ "#=".toList <:+: "#\"".toList := by decide
  exact ⟨hquotes, hblock, tokenize_append_newline "#\"" "\"t\"" true hquotes hblock⟩

end Moonli

end Highlight
