import Highlight.Moonli.Basic
import Highlight.Proofs.Tokenize

/-!
# Tokens partition their text

The tokens of a text lie side by side from its start to its end, each one is what the text holds in its span, and the
children of a token divide the token in the same way.

* `Tiles start text ts`: the values of `ts` make up `text`, which begins at byte `start`, and the spans say where they
  lie. It is kept by joining plain text (`Tiles.join`) and by putting the leaves of the tokens in their place
  (`Tiles.flatten`).
* `tiles_tokensBy`: the tokens of a run tile its text.
* `Partition text span ts`: the same with spans and slices of a text that surrounds the tokens.
* `Grammar.partition_tokenize`: what is said above, at every depth.
-/

namespace Highlight

namespace Token

/-- The values of the tokens make up the text that begins at byte `start`, and their spans say where they lie. -/
def Tiles (start : Nat) (text : List Char) : List Token → Prop
  | [] => text = []
  | t :: ts => t.value.toList ≠ [] ∧ t.span = ⟨start, start + byteLength t.value.toList⟩ ∧
      ∃ rest, text = t.value.toList ++ rest ∧ Tiles t.span.stop rest ts

/-- The tokens are not empty and lie side by side from `start` to `stop`. -/
def Fill (start stop : Nat) : List Token → Prop
  | [] => start = stop
  | t :: ts => t.span.start = start ∧ t.span.start < t.span.stop ∧ Fill t.span.stop stop ts

/-- The value of the token is what the text holds in its span, which leads from one boundary of the text to
another. -/
def IsSliceOf (text : List Char) (t : Token) : Prop :=
  ∃ before after, text = before ++ t.value.toList ++ after ∧
    t.span = ⟨byteLength before, byteLength (before ++ t.value.toList)⟩

/-- The tokens divide a range of a text: they fill it and are slices of the text. -/
structure Partition (text : List Char) (span : Span) (ts : List Token) : Prop where
  fill : Fill span.start span.stop ts
  slices : ∀ t ∈ ts, t.IsSliceOf text

namespace Tiles

variable {start : Nat} {text : List Char} {ts : List Token}

theorem append {text' : List Char} {us : List Token} (hts : Tiles start text ts)
    (hus : Tiles (start + byteLength text) text' us) : Tiles start (text ++ text') (ts ++ us) := by
  induction ts generalizing start text with
  | nil =>
    cases hts
    exact hus
  | cons t ts ih =>
    obtain ⟨hne, hspan, rest, rfl, hrest⟩ := hts
    refine ⟨hne, hspan, rest ++ text', List.append_assoc _ _ _, ih hrest ?_⟩
    rw [byteLength_append, ← Nat.add_assoc] at hus
    rw [hspan]
    exact hus

theorem attach {t : Token} (h : Tiles start text (t :: ts)) : Tiles start text (attach t ts) := by
  cases ts with
  | nil => exact h
  | cons u us =>
    rw [Token.attach]
    split
    · obtain ⟨hne, hspan, rest, rfl, hune, huspan, rest', rfl, hrest⟩ := h
      have hvalue : (extend t u).value.toList = t.value.toList ++ u.value.toList :=
        String.toList_append
      refine ⟨?_, ?_, rest', ?_, hrest⟩
      · rw [hvalue]
        exact List.append_ne_nil_of_left_ne_nil hne _
      · have hstop : u.span.stop = start + byteLength t.value.toList + byteLength u.value.toList := by
          rw [huspan, hspan]
        rw [hvalue, byteLength_append, ← Nat.add_assoc, ← hstop]
        exact congrArg (Span.mk · u.span.stop) (congrArg Span.start hspan)
      · rw [hvalue, List.append_assoc]
    · exact h

theorem join (h : Tiles start text ts) : Tiles start text (join ts) := by
  induction ts generalizing start text with
  | nil => exact h
  | cons t ts ih =>
    obtain ⟨hne, hspan, rest, htext, hrest⟩ := h
    rw [join_cons]
    exact attach ⟨hne, hspan, rest, htext, ih hrest⟩

theorem of_mem (h : Tiles start text ts) {t : Token} (ht : t ∈ ts) :
    Tiles t.span.start t.value.toList [t] := by
  induction ts generalizing start text with
  | nil => cases ht
  | cons u us ih =>
    obtain ⟨hne, hspan, rest, -, hrest⟩ := h
    rcases List.mem_cons.1 ht with rfl | ht
    · refine ⟨hne, ?_, [], (List.append_nil _).symm, rfl⟩
      rw [hspan]
    · exact ih hrest ht

theorem flatMap {f : Token → List Token} (h : Tiles start text ts)
    (hf : ∀ t ∈ ts, Tiles t.span.start t.value.toList (f t)) : Tiles start text (ts.flatMap f) := by
  induction ts generalizing start text with
  | nil => exact h
  | cons t ts ih =>
    obtain ⟨-, hspan, rest, rfl, hrest⟩ := h
    obtain ⟨ht, hts⟩ := List.forall_mem_cons.1 hf
    rw [hspan] at ht hrest
    rw [List.flatMap_cons]
    exact append ht (ih hrest hts)

theorem isChain (h : Tiles start text ts) : ts.IsChain fun t u => t.span.stop = u.span.start := by
  induction ts generalizing start text with
  | nil => exact List.isChain_nil
  | cons t ts ih =>
    obtain ⟨-, -, rest, -, hrest⟩ := h
    cases ts with
    | nil => exact List.isChain_singleton t
    | cons u us =>
      have hu : u.span.start = t.span.stop := congrArg Span.start hrest.2.1
      exact List.isChain_cons_cons.2 ⟨hu.symm, ih hrest⟩

theorem flatMap_value (h : Tiles start text ts) : ts.flatMap (fun t => t.value.toList) = text := by
  induction ts generalizing start text with
  | nil => exact h.symm
  | cons t ts ih =>
    obtain ⟨-, -, rest, rfl, hrest⟩ := h
    rw [List.flatMap_cons, ih hrest]

theorem partition {before after : List Char} (h : Tiles (byteLength before) text ts) :
    Partition (before ++ text ++ after)
      ⟨byteLength before, byteLength (before ++ text)⟩ ts := by
  induction ts generalizing before text with
  | nil =>
    cases h
    exact ⟨by simp [Fill], by simp⟩
  | cons t ts ih =>
    obtain ⟨hne, hspan, rest, rfl, hrest⟩ := h
    have hpos := byteLength_pos.2 hne
    have hslice : t.span = ⟨byteLength before, byteLength (before ++ t.value.toList)⟩ := by
      rw [hspan, byteLength_append]
    have hstop : t.span.stop = byteLength (before ++ t.value.toList) := congrArg Span.stop hslice
    rw [hstop] at hrest
    obtain ⟨hfill, hslices⟩ := ih hrest
    refine ⟨⟨by rw [hspan], ?_, ?_⟩, List.forall_mem_cons.2 ⟨?_, ?_⟩⟩
    · rw [hspan]
      exact Nat.lt_add_of_pos_right hpos
    · rw [hstop, ← List.append_assoc]
      exact hfill
    · exact ⟨before, rest ++ after, by simp only [List.append_assoc], hslice⟩
    · rw [← List.append_assoc]
      exact hslices

end Tiles

end Token

/-! ## Runs tile their texts -/

theorem tiles_layout (base : Nat) (children : Piece → Entry → List Token)
    {contents : List (Option Entry × List Char)} (hne : ∀ x ∈ contents, x.2 ≠ []) (start : Nat) :
    Token.Tiles (base + start) (contents.flatMap Prod.snd)
      ((Piece.layout start contents).map fun p => p.token base (children p)) := by
  induction contents generalizing start with
  | nil => rfl
  | cons x more ih =>
    obtain ⟨claim, chars⟩ := x
    obtain ⟨hchars, hmore⟩ := List.forall_mem_cons.1 hne
    rw [List.flatMap_cons, Piece.layout, List.map_cons]
    have hvalue : (String.ofList chars).toList = chars := String.toList_ofList
    refine ⟨?_, ?_, more.flatMap Prod.snd, ?_, ?_⟩
    · exact hvalue.symm ▸ hchars
    · simp only [Piece.token, Piece.stop, hvalue, Nat.add_assoc]
    · exact congrArg (· ++ _) hvalue.symm
    · exact ih hmore (start + byteLength chars)

theorem tiles_pieces (rescan : Bool) (entries : List Entry) (base : Nat) (text : List Char) :
    Token.Tiles base text
      ((cutAfresh entries text).map fun p => p.token base (childrenBy rescan entries base p)) := by
  have htext : ((cutAfresh entries text).map Piece.content).flatMap Prod.snd = text := by
    rw [List.flatMap_map]
    exact flatMap_chars_pieces entries (.ofText text)
  have h := tiles_layout base (childrenBy rescan entries base)
    (content_ne_nil entries (.ofText text)) 0
  rw [← cutAfresh, layout_cutAfresh, htext] at h
  exact h

/-- **The tokens of a run tile its text.** -/
theorem tiles_tokensBy (rescan : Bool) (entries : List Entry) (base : Nat) (text : List Char) :
    Token.Tiles base text (tokensBy cutAfresh rescan entries base text) := by
  rw [tokensBy_eq]
  exact (tiles_pieces rescan entries base text).join

/-! ## All depths of the tokens of a text -/

namespace Grammar

variable {g : Grammar} {source : String} {rescan : Bool} {above : List Token} {t : Token}

theorem tiles_tokenize (g : Grammar) (source : String) (rescan : Bool) :
    Token.Tiles 0 source.toList (g.tokenize source rescan) := by
  rw [tokenize_eq]
  exact tiles_tokensBy rescan g.entries 0 source.toList

theorem tiles_self_of_occurs (h : Token.Occurs (g.tokenize source rescan) above t) :
    Token.Tiles t.span.start t.value.toList [t] :=
  (tiles_tokensBy rescan _ _ _).of_mem (mem_run_of_occurs h)

theorem tiles_children_of_occurs (h : Token.Occurs (g.tokenize source rescan) above t)
    (hchildren : t.children ≠ []) : Token.Tiles t.span.start t.value.toList t.children := by
  rw [children_of_mem (kind_ne_plain_of_withoutAll _) (mem_run_of_occurs h) hchildren]
  exact tiles_tokensBy rescan _ _ _

theorem tiles_leaves_of_occurs (h : Token.Occurs (g.tokenize source rescan) above t) :
    Token.Tiles t.span.start t.value.toList t.leaves := by
  induction t using Token.induction generalizing above with
  | h t ih =>
    rw [Token.leaves_eq]
    split
    · exact tiles_self_of_occurs h
    · next hchildren =>
      exact (tiles_children_of_occurs h hchildren).flatMap fun u hu => ih u hu (.child h hu)

end Grammar

namespace Token

theorem children_of_mem_leaves {t u : Token} (h : u ∈ t.leaves) : u.children = [] := by
  induction t using Token.induction with
  | h t ih =>
    rw [leaves_eq] at h
    split at h
    · next hchildren =>
      rw [List.mem_singleton.1 h]
      exact hchildren
    · obtain ⟨v, hv, hu⟩ := List.mem_flatMap.1 h
      exact ih v hv hu

theorem IsSliceOf.partition {text : List Char} {t : Token} (h : t.IsSliceOf text) {ts : List Token}
    (hts : Tiles t.span.start t.value.toList ts) : Partition text t.span ts := by
  obtain ⟨before, after, rfl, hspan⟩ := h
  rw [hspan] at hts ⊢
  exact hts.partition

end Token

theorem Token.Tiles.partition_self {text : List Char} {ts : List Token} (h : Tiles 0 text ts) :
    Partition text ⟨0, byteLength text⟩ ts := by
  have hp : Partition ([] ++ text ++ []) ⟨byteLength [], byteLength ([] ++ text)⟩ ts := partition h
  rw [List.nil_append, List.append_nil] at hp
  exact hp

theorem Grammar.isSliceOf_of_occurs {g : Grammar} {source : String} {rescan : Bool}
    {above : List Token} {t : Token} (h : Token.Occurs (g.tokenize source rescan) above t) :
    t.IsSliceOf source.toList := by
  induction h with
  | top h => exact (tiles_tokenize g source rescan).partition_self.slices _ h
  | @child above parent t hparent h ih =>
    have hchildren := tiles_children_of_occurs hparent (List.ne_nil_of_mem h)
    exact (ih.partition hchildren).slices t h

/-- **Tokens partition their text at every depth.** So do the tokens without children, one after another, and
these make up the text. -/
theorem Grammar.partition_tokenize (g : Grammar) (source : String) (rescan : Bool) :
    Token.Partition source.toList ⟨0, byteLength source.toList⟩ (g.tokenize source rescan) ∧
      (∀ above t, Token.Occurs (g.tokenize source rescan) above t → t.children ≠ [] →
        Token.Partition source.toList t.span t.children) ∧
      Token.Partition source.toList ⟨0, byteLength source.toList⟩
        (Token.flatten (g.tokenize source rescan)) ∧
      (∀ t ∈ Token.flatten (g.tokenize source rescan), t.children = []) ∧
      String.join ((Token.flatten (g.tokenize source rescan)).map Token.value) = source := by
  have htop := tiles_tokenize g source rescan
  have hflat : Token.Tiles 0 source.toList (Token.flatten (g.tokenize source rescan)) :=
    htop.flatMap fun t ht => tiles_leaves_of_occurs (.top ht)
  refine ⟨htop.partition_self, ?_, hflat.partition_self, ?_, ?_⟩
  · intro above t h hchildren
    exact (isSliceOf_of_occurs h).partition (tiles_children_of_occurs h hchildren)
  · intro t ht
    obtain ⟨u, -, hu⟩ := List.mem_flatMap.1 ht
    exact Token.children_of_mem_leaves hu
  · apply String.toList_injective
    rw [String.toList_join, List.flatMap_map]
    exact hflat.flatMap_value

/-- The string literal `"t"` has children, the quotes and the word between them, which partition it. -/
theorem Moonli.partition_children_of_string :
    ∃ t ∈ Moonli.grammar.tokenize "\"t\"" true, t.children ≠ [] ∧
      Token.Partition "\"t\"".toList t.span t.children := by
  have hfirst : ∃ t ∈ Moonli.grammar.tokenize "\"t\"" true, 0 < t.children.length := by
    decide +kernel
  obtain ⟨t, hmem, hlength⟩ := hfirst
  have hchildren : t.children ≠ [] := List.length_pos_iff.1 hlength
  exact ⟨t, hmem, hchildren,
    (Grammar.partition_tokenize Moonli.grammar "\"t\"" true).2.1 [] t (.top hmem) hchildren⟩

end Highlight
