import Highlight.Proofs.Boundary
import Highlight.Proofs.Plain
import Highlight.Proofs.Rescan

/-!
# Rules interfere only where they win

The first entry that offers a match claims the text, so at a position where another one comes first an entry could as
well be missing. Two runs, one with the rule of a kind and one without it, stay in step until that rule first claims
something (`exists_common_pieces`). Up to there they claim the same tokens and leave the same bytes plain, and if the
rule claims nothing at all, the tokens are the same (`Grammar.tokenize_withoutKinds`).
-/

namespace Highlight

/-! ## Cuts that stay in step -/

section

variable {entries : List Entry} {k : Kind} {c : Cursor}

theorem offer?_without (h : ∀ e m, offer? entries c = some (e, m) → e.kind ≠ k) :
    offer? (without entries k) c = offer? entries c := by
  induction entries with
  | nil => rfl
  | cons f more ih =>
    have hcons : ∀ es, offer? (f :: es) c = ((f.pattern.offer? c).map (f, ·)).or (offer? es c) := by
      intro es
      rw [offer?, List.findSome?_cons]
      cases f.pattern.offer? c <;> rfl
    rw [hcons] at h ⊢
    cases hf : f.pattern.offer? c with
    | some m =>
      have hkind : f.kind ≠ k := h f m (by rw [hf]; rfl)
      rw [without, List.filter_cons_of_pos (by simpa using hkind), hcons, hf]
      rfl
    | none =>
      rw [hf, Option.map_none, Option.none_or] at h
      rw [Option.map_none, Option.none_or, ← ih h, without, List.filter_cons]
      split
      · rw [hcons, hf, Option.map_none, Option.none_or, without]
      · rfl

theorem firstPiece?_without (h : ∀ e m, offer? entries c = some (e, m) → e.kind ≠ k) :
    firstPiece? (without entries k) c = firstPiece? entries c := by
  rw [firstPiece?, firstPiece?, offer?_without h]

/-- The rule of kind `k` claims the text at the position. -/
def Wins (entries : List Entry) (k : Kind) (c : Cursor) : Prop :=
  ∃ e m, offer? entries c = some (e, m) ∧ e.kind = k

/-- **With and without a rule the same pieces are cut off** up to where the rule first wins, or to the end. -/
theorem exists_common_pieces (entries : List Entry) (k : Kind) (c : Cursor) :
    ∃ ps d, pieces entries c = ps ++ pieces entries d ∧
      pieces (without entries k) c = ps ++ pieces (without entries k) d ∧
      (d.next? = none ∨ d.next? ≠ none ∧ Wins entries k d) := by
  induction hlength : c.rest.length using Nat.strongRecOn generalizing c with
  | ind n ih =>
    cases hfirst : firstPiece? entries c with
    | none =>
      exact ⟨[], c, rfl, rfl, Or.inl (Option.map_eq_none_iff.1 hfirst)⟩
    | some first =>
      obtain ⟨p, c'⟩ := first
      have hspans := spans_of_firstPiece? hfirst
      by_cases hwins : Wins entries k c
      · refine ⟨[], c, rfl, rfl, Or.inr ⟨fun hend => ?_, hwins⟩⟩
        rw [firstPiece?, hend] at hfirst
        cases hfirst
      · have hsame : firstPiece? (without entries k) c = some (p, c') :=
          (firstPiece?_without fun e m hoffer hkind => hwins ⟨e, m, hoffer, hkind⟩).trans hfirst
        obtain ⟨ps, d, hwith, hwithout, hlast⟩ := ih _ (hlength ▸ hspans.length_lt) c' rfl
        refine ⟨p :: ps, d, ?_, ?_, hlast⟩
        · rw [pieces_of_firstPiece? hfirst, hwith, List.cons_append]
        · rw [pieces_of_firstPiece? hsame, hwithout, List.cons_append]

end

/-! ## Tokens before a position -/

namespace Token

/-- The tokens that entries claim and that begin before the byte `n`. -/
def claimedBefore (n : Nat) (ts : List Token) : List Token :=
  (claimed ts).filter fun t => t.span.start < n

/-- The byte `n` is in a plain token. -/
def PlainAt (n : Nat) (ts : List Token) : Prop :=
  ∃ t ∈ ts, t.isPlain = true ∧ t.span.start ≤ n ∧ n < t.span.stop

/-- Where the first token of a kind begins, or the end of the text if there is none. -/
def firstStart (k : Kind) (source : String) (ts : List Token) : Nat :=
  ((ts.find? fun t => t.kind = k).map (·.span.start)).getD (byteLength source.toList)

variable {start n : Nat} {text : List Char} {ts us : List Token} {t : Token}

theorem claimedBefore_join (n : Nat) (ts : List Token) : claimedBefore n (join ts) = claimedBefore n ts := by
  rw [claimedBefore, claimed, filter_join]
  rfl

theorem claimedBefore_append (n : Nat) (ts us : List Token) :
    claimedBefore n (ts ++ us) = claimedBefore n ts ++ claimedBefore n us := by
  rw [claimedBefore, claimed, List.filter_append, List.filter_append]
  rfl

theorem plainAt_append : PlainAt n (ts ++ us) ↔ PlainAt n ts ∨ PlainAt n us := by
  simp only [PlainAt, List.mem_append, or_and_right, exists_or]

theorem plainAt_cons : PlainAt n (t :: us) ↔
    (t.isPlain = true ∧ t.span.start ≤ n ∧ n < t.span.stop) ∨ PlainAt n us := by
  simp only [PlainAt, List.mem_cons, exists_eq_or_imp]

theorem plainAt_attach (h : Tiles start text (t :: us)) : PlainAt n (attach t us) ↔ PlainAt n (t :: us) := by
  cases us with
  | nil => exact Iff.rfl
  | cons u us =>
    rw [attach]
    split
    · next hcontinues =>
      obtain ⟨hu, ht, hstop⟩ := continues_iff.1 hcontinues
      obtain ⟨-, hspan, rest, -, -, huspan, -⟩ := h
      have htle : t.span.start ≤ t.span.stop := by
        rw [hspan]
        exact Nat.le_add_right _ _
      have hule : u.span.start ≤ u.span.stop := by
        rw [huspan]
        exact Nat.le_add_right _ _
      have hbytes : t.span.start ≤ n ∧ n < u.span.stop ↔
          (t.span.start ≤ n ∧ n < t.span.stop) ∨ (u.span.start ≤ n ∧ n < u.span.stop) := by
        omega
      simp only [plainAt_cons, extend, isPlain, ht, hu, decide_true, true_and, hbytes, or_assoc]
    · exact Iff.rfl

theorem plainAt_join (h : Tiles start text ts) : PlainAt n (join ts) ↔ PlainAt n ts := by
  induction ts generalizing start text with
  | nil => exact Iff.rfl
  | cons t ts ih =>
    obtain ⟨hne, hspan, rest, htext, hrest⟩ := h
    rw [join_cons, plainAt_attach ⟨hne, hspan, rest, htext, hrest.join⟩, plainAt_cons, plainAt_cons, ih hrest]

theorem firstStart_le (h : Tiles start text ts) (ht : t ∈ ts) (source : String) :
    firstStart t.kind source ts ≤ t.span.start := by
  rw [firstStart]
  induction ts generalizing start text with
  | nil => cases ht
  | cons u us ih =>
    rw [List.find?_cons]
    by_cases hu : u.kind = t.kind
    · rw [decide_eq_true hu]
      rcases List.mem_cons.1 ht with rfl | ht
      · exact Nat.le_refl _
      · obtain ⟨-, hspan, rest, -, hrest⟩ := h
        have hle := hrest.start_le_of_mem ht
        have hu : u.span.start ≤ u.span.stop := by
          rw [hspan]
          exact Nat.le_add_right _ _
        exact Nat.le_trans hu hle
    · rw [decide_eq_false hu]
      rcases List.mem_cons.1 ht with rfl | ht
      · exact absurd rfl hu
      · obtain ⟨-, -, rest, -, hrest⟩ := h
        exact ih hrest ht

end Token

/-! ## Tokens with and without a rule -/

section

variable {entries : List Entry} {k : Kind} {text : List Char} {ps : List Piece} {d : Cursor}

/-- The token of a piece without children. -/
def Piece.flat (p : Piece) : Token :=
  p.token 0 fun _ => []

theorem tokensBy_flat (entries : List Entry) (text : List Char) :
    tokensBy cutAfresh false entries 0 text = Token.join ((cutAfresh entries text).map Piece.flat) := by
  rw [tokensBy_eq]
  rfl

theorem start_le_of_mem_pieces {p : Piece} (hp : p ∈ pieces entries d) : d.offset ≤ p.start := by
  rw [← layout_pieces] at hp
  exact Piece.start_le_of_mem_layout hp

theorem claimedBefore_tokensBy (hpieces : cutAfresh entries text = ps ++ pieces entries d) {n : Nat}
    (hn : n ≤ d.offset) :
    Token.claimedBefore n (tokensBy cutAfresh false entries 0 text) =
      Token.claimedBefore n (ps.map Piece.flat) := by
  have hbehind : Token.claimedBefore n ((pieces entries d).map Piece.flat) = [] := by
    rw [Token.claimedBefore, List.filter_eq_nil_iff]
    intro t ht hlt
    obtain ⟨p, hp, rfl⟩ := List.mem_map.1 (List.mem_filter.1 ht).1
    have hle := start_le_of_mem_pieces hp
    have hlt : 0 + p.start < n := of_decide_eq_true hlt
    omega
  rw [tokensBy_flat, Token.claimedBefore_join, hpieces, List.map_append, Token.claimedBefore_append, hbehind,
    List.append_nil]

theorem plainAt_tokensBy (hpieces : cutAfresh entries text = ps ++ pieces entries d) {n : Nat}
    (hn : n < d.offset) :
    Token.PlainAt n (tokensBy cutAfresh false entries 0 text) ↔ Token.PlainAt n (ps.map Piece.flat) := by
  have hbehind : ¬ Token.PlainAt n ((pieces entries d).map Piece.flat) := by
    rintro ⟨t, ht, -, hstart, -⟩
    obtain ⟨p, hp, rfl⟩ := List.mem_map.1 ht
    have hle := start_le_of_mem_pieces hp
    have hstart : 0 + p.start ≤ n := hstart
    omega
  have htiles : Token.Tiles 0 text ((cutAfresh entries text).map Piece.flat) := tiles_pieces false entries 0 text
  rw [tokensBy_flat, Token.plainAt_join htiles, hpieces, List.map_append, Token.plainAt_append,
    or_iff_left hbehind]

theorem exists_token_of_wins (hentries : ∀ e ∈ entries, e.kind ≠ .plain)
    (hpieces : cutAfresh entries text = ps ++ pieces entries d) (hnext : d.next? ≠ none)
    (hwins : Wins entries k d) :
    ∃ t ∈ tokensBy cutAfresh false entries 0 text, t.kind = k ∧ t.span.start = d.offset := by
  obtain ⟨e, m, hoffer, rfl⟩ := hwins
  obtain ⟨⟨a, d'⟩, hnext⟩ := Option.ne_none_iff_exists'.1 hnext
  have hmem : (⟨some e, a :: (d'.cut m.stop).1, d.offset⟩ : Piece) ∈ cutAfresh entries text := by
    rw [hpieces, pieces_of_offer? hnext hoffer]
    exact List.mem_append_right ps List.mem_cons_self
  exact ⟨_, token_mem_tokensBy false 0 hentries hmem nofun, rfl, Nat.zero_add _⟩

end

namespace Grammar

/-- **Rules interfere only where they win.** Up to the first token of a kind, the tokens that are claimed and the
bytes that are left plain are those of the table without the rule of the kind. If there is no token of the kind, the
rule can be left out. -/
theorem tokenize_withoutKinds (g : Grammar) (k : Kind) (source : String) :
    Token.claimedBefore (Token.firstStart k source (g.tokenize source false)) (g.tokenize source false) =
      Token.claimedBefore (Token.firstStart k source (g.tokenize source false))
        ((g.withoutKinds [k]).tokenize source false) ∧
    (∀ n < Token.firstStart k source (g.tokenize source false),
      Token.PlainAt n (g.tokenize source false) ↔
        Token.PlainAt n ((g.withoutKinds [k]).tokenize source false)) ∧
    ((∀ t ∈ g.tokenize source false, t.kind ≠ k) →
      (g.withoutKinds [k]).tokenize source false = g.tokenize source false) := by
  have hentries : (g.withoutKinds [k]).entries = without g.entries k := by
    rw [entries_withoutKinds, ← without_withoutAll, withoutAll_nil]
  rw [tokenize_eq, tokenize_eq, hentries]
  obtain ⟨ps, d, hwith, hwithout, hend | ⟨hnext, hwins⟩⟩ :=
    exists_common_pieces g.entries k (.ofText source.toList)
  · -- the rule never wins
    have hsame : tokensBy cutAfresh false (without g.entries k) 0 source.toList =
        tokensBy cutAfresh false g.entries 0 source.toList := by
      rw [tokensBy_flat, tokensBy_flat, cutAfresh, cutAfresh, hwith, hwithout, pieces_of_end hend,
        pieces_of_end hend]
    rw [hsame]
    exact ⟨rfl, fun _ _ => Iff.rfl, fun _ => rfl⟩
  · obtain ⟨t, ht, rfl, hstart⟩ := exists_token_of_wins (fun _ => kind_ne_plain) hwith hnext hwins
    have hle := Token.firstStart_le (tiles_tokensBy false g.entries 0 source.toList) ht source
    rw [hstart] at hle
    refine ⟨?_, fun n hn => ?_, fun hnone => absurd rfl (hnone t ht)⟩
    · rw [claimedBefore_tokensBy hwith hle, claimedBefore_tokensBy hwithout hle]
    · have hlt := Nat.lt_of_lt_of_le hn hle
      rw [plainAt_tokensBy hwith hlt, plainAt_tokensBy hwithout hlt]

end Grammar

/-- In `f "t"` the rule for strings wins behind the blank, and up to there its absence is not noticed. The rule for
characters wins nowhere. -/
theorem Moonli.tokenize_withoutKinds_string :
    Token.firstStart .string "f \"t\"" (Moonli.grammar.tokenize "f \"t\"" false) = 2 ∧
      (Token.PlainAt 0 (Moonli.grammar.tokenize "f \"t\"" false) ↔
        Token.PlainAt 0 ((Moonli.grammar.withoutKinds [.string]).tokenize "f \"t\"" false)) ∧
      (∀ t ∈ Moonli.grammar.tokenize "f \"t\"" false, t.kind ≠ .char) ∧
      (Moonli.grammar.withoutKinds [.char]).tokenize "f \"t\"" false =
        Moonli.grammar.tokenize "f \"t\"" false := by
  have hstart : Token.firstStart .string "f \"t\"" (Moonli.grammar.tokenize "f \"t\"" false) = 2 := by
    decide +kernel
  have hnone : ∀ t ∈ Moonli.grammar.tokenize "f \"t\"" false, t.kind ≠ .char := by
    decide +kernel
  have hstring := Grammar.tokenize_withoutKinds Moonli.grammar .string "f \"t\""
  have hchar := Grammar.tokenize_withoutKinds Moonli.grammar .char "f \"t\""
  exact ⟨hstart, hstring.2.1 0 (by rw [hstart]; decide), hnone, hchar.2.2 hnone⟩

end Highlight
