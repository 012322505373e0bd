import Mathlib.Data.List.Forall2
import Highlight.Moonli.Basic
import Highlight.Proofs.Nesting
import Highlight.Proofs.Output.Row
import Highlight.Proofs.Text.Line

/-!
# What a listing tells of the tokens

A listing goes through the trees in pre-order and leaves out plain text with all that is below it. Since nothing is
below plain text, it shows exactly the tokens of the pre-order that are to be shown (`lines_eq`). Each of them
lies in the text, so that its place is known, and each line is read back as the row of its token. For moonli this says
that a listing is a faithful account of the tokens (`Moonli.listing_tokenize`): no name of an alternative has a blank.
-/

namespace Highlight

namespace Token

mutual

/-- The tokens of a tree in pre-order, each with its depth. -/
def preorder (depth : Nat) : Token → List (Nat × Token)
  | ⟨kind, label, value, span, children⟩ =>
    (depth, ⟨kind, label, value, span, children⟩) :: preorderAll (depth + 1) children

def preorderAll (depth : Nat) : List Token → List (Nat × Token)
  | [] => []
  | t :: ts => preorder depth t ++ preorderAll depth ts

end

theorem preorderAll_eq (depth : Nat) (ts : List Token) :
    preorderAll depth ts = ts.flatMap (preorder depth) := by
  induction ts with
  | nil => rfl
  | cons t ts ih => rw [preorderAll, ih, List.flatMap_cons]

theorem preorder_eq (depth : Nat) (t : Token) :
    t.preorder depth = (depth, t) :: t.children.flatMap (preorder (depth + 1)) := by
  obtain ⟨kind, label, value, span, children⟩ := t
  rw [preorder, preorderAll_eq]

theorem exists_occurs_of_mem_preorder {ts above : List Token} {t : Token} (h : Occurs ts above t)
    {depth : Nat} {u : Token} (hu : (depth, u) ∈ t.preorder above.length) :
    ∃ parents, Occurs ts parents u ∧ depth = parents.length := by
  induction t using Token.induction generalizing above with
  | h t ih =>
    rw [preorder_eq] at hu
    rcases List.mem_cons.1 hu with heq | hu
    · obtain ⟨rfl, rfl⟩ := Prod.mk.inj heq
      exact ⟨above, h, rfl⟩
    · obtain ⟨v, hv, hu⟩ := List.mem_flatMap.1 hu
      exact ih v hv (.child h hv) hu

/-- At the top all tokens are listed but plain text that shows nothing, below it those that are not plain. -/
def isListed (x : Nat × Token) : Bool :=
  if x.1 = 0 then !x.2.isBlank else !x.2.isPlain

/-- The tokens that a listing shows, in pre-order. -/
def listed (ts : List Token) : List (Nat × Token) :=
  (preorderAll 0 ts).filter isListed

end Token

open Token (preorder preorderAll isListed listed)

/-! ## The lines -/

section

variable {g : Grammar} {source : String} {rescan : Bool} {above : List Token} {t : Token}

theorem Grammar.children_of_isPlain (h : Token.Occurs (g.tokenize source rescan) above t)
    (hplain : t.isPlain = true) : t.children = [] := by
  rcases plain_or_produced h with ⟨-, -, hchildren⟩ | ⟨e, he, -, hkind, -⟩
  · exact hchildren
  · have hplain : t.kind = .plain := of_decide_eq_true hplain
    exact absurd (hkind.symm.trans hplain) (kind_ne_plain (mem_of_mem_withoutAll he))

/-- The lines of listed tokens. -/
def rows (text : List Char) (xs : List (Nat × Token)) : List String :=
  (xs.filter isListed).map fun x => listingLine text x.1 x.2

theorem rows_append (text : List Char) (xs ys : List (Nat × Token)) :
    rows text (xs ++ ys) = rows text xs ++ rows text ys := by
  rw [rows, List.filter_append, List.map_append]
  rfl

theorem rows_preorder_of_isListed {depth : Nat} (hlisted : isListed (depth, t) = true)
    (text : List Char) :
    rows text (t.preorder depth) =
      listingLine text depth t :: rows text (t.children.flatMap (preorder (depth + 1))) := by
  rw [Token.preorder_eq, rows, List.filter_cons_of_pos hlisted, List.map_cons]
  rfl

theorem rows_preorder_of_isPlain (h : Token.Occurs (g.tokenize source rescan) above t)
    (hplain : t.isPlain = true) (text : List Char) (depth : Nat)
    (hlisted : isListed (depth, t) = false) : rows text (t.preorder depth) = [] := by
  rw [Token.preorder_eq, Grammar.children_of_isPlain h hplain, List.flatMap_nil, rows,
    List.filter_cons_of_neg (by rw [hlisted]; decide), List.filter_nil, List.map_nil]

/-- **The lines of a token** are its own and those of the listed tokens below it. -/
theorem listingLines_eq (h : Token.Occurs (g.tokenize source rescan) above t) (text : List Char)
    (depth : Nat) :
    listingLines text depth t =
      listingLine text depth t :: rows text (t.children.flatMap (preorder (depth + 1))) := by
  induction t using Token.induction generalizing above depth with
  | h t ih =>
    have hwithin : ∀ us, (∀ u ∈ us, u ∈ t.children) →
        listingLinesWithin text (depth + 1) us = rows text (us.flatMap (preorder (depth + 1))) := by
      intro us hus
      induction us with
      | nil => rfl
      | cons u us ihus =>
        have hu := hus u List.mem_cons_self
        rw [listingLinesWithin, ihus fun v hv => hus v (List.mem_cons_of_mem u hv), List.flatMap_cons,
          rows_append]
        split
        · next hplain =>
          have hlisted : isListed (depth + 1, u) = false := by simp [isListed, hplain]
          rw [rows_preorder_of_isPlain (.child h hu) hplain text _ hlisted, List.nil_append]
        · next hplain =>
          have hlisted : isListed (depth + 1, u) = true := by simp [isListed, hplain]
          rw [ih u hu (.child h hu), rows_preorder_of_isListed hlisted]
    obtain ⟨kind, label, value, span, children⟩ := t
    rw [listingLines, hwithin children fun _ hu => hu]

theorem lines_eq (g : Grammar) (source : String) (rescan : Bool) (text : List Char) :
    ((g.tokenize source rescan).filter fun t => !t.isBlank).flatMap (listingLines text 0) =
      (listed (g.tokenize source rescan)).map fun x => listingLine text x.1 x.2 := by
  have htop : ∀ ts, (∀ t ∈ ts, t ∈ g.tokenize source rescan) →
      (ts.filter fun t => !t.isBlank).flatMap (listingLines text 0) = rows text (preorderAll 0 ts) := by
    intro ts hts
    induction ts with
    | nil => rfl
    | cons t ts ih =>
      have h : Token.Occurs (g.tokenize source rescan) [] t := .top (hts t List.mem_cons_self)
      rw [preorderAll, rows_append, ← ih fun u hu => hts u (List.mem_cons_of_mem t hu)]
      by_cases hblank : t.isBlank = true
      · have hplain : t.isPlain = true := (Bool.and_eq_true_iff.1 hblank).1
        have hlisted : isListed (0, t) = false := by simp [isListed, hblank]
        rw [List.filter_cons_of_neg (by simp [hblank]),
          rows_preorder_of_isPlain h hplain text 0 hlisted, List.nil_append]
      · have hlisted : isListed (0, t) = true := by simp [isListed, hblank]
        rw [List.filter_cons_of_pos (by simp [hblank]), List.flatMap_cons, listingLines_eq h,
          rows_preorder_of_isListed hlisted]
  exact htop _ fun _ ht => ht

/-! ## The rows -/

/-- A line shows a token at a depth: it is read as the row of the token, with the place where the token begins. -/
def Shows (source : String) (line : List Char) (x : Nat × Token) : Prop :=
  ∃ before after, source.toList = before ++ after ∧ byteLength before = x.2.span.start ∧
    Row.read? line = some
      ⟨x.1, 1 + before.count '\n', byteLength (lastLine before) + 1, x.2.kind, x.2.label, x.2.value⟩

theorem shows_listingLine (h : Token.Occurs (g.tokenize source rescan) above t)
    (hlabels : ∀ e ∈ g.entries, ∀ text ∈ e.label, ' ' ∉ text.toList ∧ '\n' ∉ text.toList) (depth : Nat) :
    '\n' ∉ (listingLine source.toList depth t).toList ∧
      Shows source (listingLine source.toList depth t).toList (depth, t) := by
  obtain ⟨before, after, htext, hspan⟩ := Grammar.isSliceOf_of_occurs h
  have hstart : byteLength before = t.span.start := by rw [hspan]
  obtain ⟨c, value, hvalue⟩ := List.exists_cons_of_ne_nil (Grammar.tiles_self_of_occurs h).1
  have hcons : source.toList = before ++ c :: (value ++ after) := by
    rw [htext, hvalue, List.append_assoc, List.cons_append]
  obtain ⟨line, hplace⟩ := exists_place? before c (value ++ after)
  rw [← hcons, hstart] at hplace
  have hlabel : ∀ text ∈ t.label, ' ' ∉ text.toList ∧ '\n' ∉ text.toList := by
    rcases Grammar.plain_or_produced h with ⟨-, hnone, -⟩ | ⟨e, he, -, -, hlabel⟩
    · rw [hnone]
      exact nofun
    · rw [hlabel]
      exact hlabels e (mem_of_mem_withoutAll he)
  refine ⟨Row.newline_not_mem_listingLine hplace (fun text ht => (hlabel text ht).2) depth,
    before, c :: (value ++ after), hcons, hstart, ?_⟩
  rw [Row.read?_listingLine hplace (fun text ht => (hlabel text ht).1) depth]

theorem Grammar.shows_lines_listing
    (hlabels : ∀ e ∈ g.entries, ∀ text ∈ e.label, ' ' ∉ text.toList ∧ '\n' ∉ text.toList)
    (source : String) (rescan : Bool) :
    (listed (g.tokenize source rescan) = [] ∧ listing source (g.tokenize source rescan) = "") ∨
      (listed (g.tokenize source rescan) ≠ [] ∧
        List.Forall₂ (Shows source) ((listing source (g.tokenize source rescan)).toList.splitOn '\n')
          (listed (g.tokenize source rescan))) := by
  have hshows : ∀ x ∈ listed (g.tokenize source rescan),
      '\n' ∉ (listingLine source.toList x.1 x.2).toList ∧
        Shows source (listingLine source.toList x.1 x.2).toList x := by
    rintro ⟨depth, t⟩ hx
    have hmem := (List.mem_filter.1 hx).1
    rw [Token.preorderAll_eq] at hmem
    obtain ⟨u, hu, ht⟩ := List.mem_flatMap.1 hmem
    obtain ⟨above, h, -⟩ := Token.exists_occurs_of_mem_preorder (.top hu) ht
    exact shows_listingLine h hlabels depth
  rw [listing, lines_eq]
  by_cases hnil : listed (g.tokenize source rescan) = []
  · rw [hnil]
    exact Or.inl ⟨rfl, rfl⟩
  · refine Or.inr ⟨hnil, ?_⟩
    rw [String.toList_intercalate, List.map_map]
    have hlines : ∀ l ∈ (listed (g.tokenize source rescan)).map
        (String.toList ∘ fun x => listingLine source.toList x.1 x.2), '\n' ∉ l := by
      intro l hl
      obtain ⟨x, hx, rfl⟩ := List.mem_map.1 hl
      exact (hshows x hx).1
    have hsplit := List.splitOn_intercalate '\n' hlines (by simpa using hnil)
    rw [show "\n".toList = ['\n'] from rfl, hsplit, List.forall₂_map_left_iff]
    exact List.forall₂_same.2 fun x hx => (hshows x hx).2

end

/-- **The listing of a moonli text is a faithful account of its tokens.** -/
theorem Moonli.listing_tokenize (source : String) (rescan : Bool) :
    (listed (Moonli.grammar.tokenize source rescan) = [] ∧
        listing source (Moonli.grammar.tokenize source rescan) = "") ∨
      (listed (Moonli.grammar.tokenize source rescan) ≠ [] ∧
        List.Forall₂ (Shows source)
          ((listing source (Moonli.grammar.tokenize source rescan)).toList.splitOn '\n')
          (listed (Moonli.grammar.tokenize source rescan))) :=
  Grammar.shows_lines_listing (by decide) source rescan

end Highlight
