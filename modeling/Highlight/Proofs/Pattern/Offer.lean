import Highlight.Proofs.Regex.Completeness
import Highlight.Proofs.Regex.Lookbehind
import Highlight.Proofs.Regex.Search

/-!
# What a pattern offers

A pattern offers a token of some length at a position, `Pattern.length?`. It is told here from the rest of the
text and the characters before it, without the search:

* for an expression by what it reads (`length?_regex`), and whether it offers one by where it leads
  (`isSome_length?_iff`);
* for a look-behind expression by what its token reads, if the character before the position is context and tokens
  begin with a character that is none (`length?_behind_char`);
* for a block comment by the block that the rest begins with, if no backslash stands before it
  (`length?_blockComment`).

The last two are patterns with context (`Pattern.HasContext`): they match a token behind the start of the text
or behind one character, and the start is preferred. So a token that begins the text hides one that begins
behind the first character (`Pattern.IsHidden`).
-/

namespace Highlight

namespace Pattern

/-- The number of bytes of the token that the pattern offers at a position. -/
def length? (p : Pattern) (c : Cursor) : Option Nat :=
  (p.offer? c).map fun m => m.stop - c.offset

variable {p : Pattern} {c : Cursor}

theorem fits_of_offer? {m : Match} (h : p.offer? c = some m) :
    m.contextEnd = c.offset ∧ c.offset < m.stop := by
  obtain ⟨b, -, hb⟩ := List.exists_of_findSome?_eq_some h
  simpa [Match.fits] using (Option.filter_eq_some_iff.1 hb).2

theorem offer?_of_not_lookbehind (hp : p.lookbehind = false) :
    p.offer? c = (p.matchAt? c).filter (Match.fits c) := by
  rw [offer?, starts, hp]
  exact List.findSome?_singleton

theorem offer?_of_prev?_eq_none (hp : p.lookbehind = true) (hc : c.prev? = none) :
    p.offer? c = (p.matchAt? c).filter (Match.fits c) := by
  rw [offer?, starts, hp, hc]
  exact List.findSome?_singleton

theorem offer?_of_prev? (hp : p.lookbehind = true) {b : Cursor} {a : Char}
    (hc : c.prev? = some (a, b)) :
    p.offer? c =
      ((p.matchAt? b).filter (Match.fits c)).or ((p.matchAt? c).filter (Match.fits c)) := by
  rw [offer?, starts, hp, hc, if_pos rfl, List.findSome?_append, List.findSome?_singleton]
  congr 1
  exact List.findSome?_singleton

/-! ## Expressions -/

/-- **An expression offers what it reads**, if that is something. -/
theorem length?_regex {r : Regex} (hp : p.matcher = .regex r) (hl : p.lookbehind = false) :
    p.length? c =
      ((reads? [[⟨r, 0⟩]] c.before.head? c.rest).map byteLength).filter (fun n => 0 < n) := by
  have hstop := stop_run [⟨[⟨r, 0⟩], none⟩] c
  rw [length?, offer?_of_not_lookbehind hl, matchAt?_regex hp, Regex.matchHere]
  cases hrun : run [⟨[⟨r, 0⟩], none⟩] c with
  | none =>
    rw [hrun, Option.map_none, eq_comm, Option.map_eq_none_iff] at hstop
    rw [List.map_cons, List.map_nil] at hstop
    rw [hstop]
    rfl
  | some hit =>
    rw [hrun, Option.map_some] at hstop
    obtain ⟨cs, hcs, hstop⟩ := Option.map_eq_some_iff.1 hstop.symm
    rw [List.map_cons, List.map_nil] at hcs
    rw [hcs, Option.map_some, Option.map_some, Option.filter_some, Option.filter_some]
    have hfits : Match.fits c (p.matchOf c hit) = decide (0 < byteLength cs) := by
      simp [Match.fits, matchOf, hl, ← hstop]
    rw [hfits]
    split
    · simp [matchOf, ← hstop]
    · rfl

/-- **An expression that always reads offers a token exactly where it leads somewhere.** -/
theorem isSome_length?_iff {r : Regex} (hp : p.matcher = .regex r) (hl : p.lookbehind = false)
    (hr : r.nullable = false) : (p.length? c).isSome ↔ ∃ d, r.Leads c d := by
  have hreads : (p.length? c).isSome ↔ (reads? [[⟨r, 0⟩]] c.before.head? c.rest).isSome := by
    rw [length?_regex hp hl]
    cases hcs : reads? [[⟨r, 0⟩]] c.before.head? c.rest with
    | none => exact Iff.rfl
    | some cs =>
      obtain ⟨d, hlead, hrest⟩ := exists_leads_of_reads? hcs
      have hlt := Regex.length_rest_lt_of_leads hr hlead
      have hne : cs ≠ [] := by
        rintro rfl
        rw [hrest] at hlt
        exact Nat.lt_irrefl _ hlt
      rw [Option.map_some, Option.filter_some, if_pos (decide_eq_true (byteLength_pos.2 hne))]
      exact Iff.rfl
  exact hreads.trans isSome_reads?_iff

theorem reads?_of_length? {r : Regex} (hp : p.matcher = .regex r) (hl : p.lookbehind = false)
    {v w : List Char} (hrest : c.rest = v ++ w) (h : p.length? c = some (byteLength v)) :
    reads? [[⟨r, 0⟩]] c.before.head? c.rest = some v := by
  rw [length?_regex hp hl, Option.filter_eq_some_iff] at h
  obtain ⟨cs, hcs, hlength⟩ := Option.map_eq_some_iff.1 h.1
  obtain ⟨more, hmore⟩ := exists_append_of_reads? hcs
  rw [hcs, eq_of_byteLength_eq (hmore.symm.trans hrest) hlength]

/-- The pattern is an expression that keeps to the vocabulary and does not look behind. -/
def isOver (V : Vocabulary) (p : Pattern) : Bool :=
  match p.matcher with
  | .regex r => !p.lookbehind && r.isOver V
  | .blockComment => false

theorem exists_regex_of_isOver {V : Vocabulary} (h : p.isOver V = true) :
    ∃ r, p.matcher = .regex r ∧ p.lookbehind = false ∧ r.isOver V = true := by
  unfold isOver at h
  split at h
  · next r hr =>
    obtain ⟨hl, hover⟩ := (Bool.and_eq_true _ _).mp h
    exact ⟨r, hr, by rwa [Bool.not_eq_true'] at hl, hover⟩
  · cases h

theorem not_mem_of_length? {a : Char} (hp : p.isOver (.avoiding a) = true) {v w : List Char}
    (hrest : c.rest = v ++ w) (h : p.length? c = some (byteLength v)) : a ∉ v := by
  obtain ⟨r, hr, hl, hover⟩ := exists_regex_of_isOver hp
  exact not_mem_of_reads? hover (reads?_of_length? hr hl hrest h)

/-! ## Tokens behind context -/

section

variable {context : Char → Bool} {token : Cursor → Option Nat}

/-- The pattern matches tokens behind context, the start of the text or one character. `token c` is the length of the
token that begins at `c`. -/
structure HasContext (p : Pattern) (context : Char → Bool) (token : Cursor → Option Nat) : Prop where
  lookbehind : p.lookbehind = true
  matchAt? : ∀ c, p.matchAt? c =
    (if c.before = [] then (token c).map fun n => ⟨c.offset, c.offset, c.offset + n⟩ else none).or
      (c.next?.bind fun (a, d) =>
        if context a then (token d).map fun n => ⟨c.offset, d.offset, d.offset + n⟩ else none)

/-- All the text before the position is one character, and a token begins there. -/
def IsHidden (token : Cursor → Option Nat) (c : Cursor) : Prop :=
  ∃ a b, c.prev? = some (a, b) ∧ b.before = [] ∧ (token b).isSome

/-- A token that begins at the position and is not empty is offered there, wherever its context begins. -/
theorem length_of_token (token : Cursor → Option Nat) (c : Cursor) (start : Nat) :
    (((token c).map fun n => (⟨start, c.offset, c.offset + n⟩ : Match)).filter (Match.fits c)).map
        (fun m => m.stop - c.offset) = (token c).filter (fun n => 0 < n) := by
  cases htoken : token c with
  | none => rfl
  | some n =>
    have hfits : Match.fits c ⟨start, c.offset, c.offset + n⟩ = decide (0 < n) := by
      simp [Match.fits]
    rw [Option.map_some, Option.filter_some, Option.filter_some, hfits]
    split
    · rw [Option.map_some, Nat.add_sub_cancel_left]
    · rfl

theorem not_fits_of_ne {c d : Cursor} (hd : d.offset ≠ c.offset) (start : Nat) (n : Option Nat) :
    (n.map fun n => (⟨start, d.offset, d.offset + n⟩ : Match)).filter (Match.fits c) = none := by
  cases n <;> simp [Match.fits, hd]

theorem not_fits_of_next? (context : Char → Bool) (token : Cursor → Option Nat) (c : Cursor) :
    (c.next?.bind fun (a, d) =>
      if context a then (token d).map fun n => (⟨c.offset, d.offset, d.offset + n⟩ : Match)
      else none).filter (Match.fits c) = none := by
  cases hnext : c.next? with
  | none => rfl
  | some next =>
    obtain ⟨a, d⟩ := next
    have ha := a.utf8Size_pos
    have hd : d.offset ≠ c.offset := by
      rw [Cursor.offset_next? hnext]
      omega
    rw [Option.bind_some]
    dsimp only
    split
    · exact not_fits_of_ne hd _ _
    · rfl

/-- The match that a pattern with context has at the position itself is that of a token that begins the text there. -/
theorem HasContext.filter_matchAt? (h : p.HasContext context token) (c : Cursor) :
    ((p.matchAt? c).filter (Match.fits c)).map (fun m => m.stop - c.offset) =
      if c.before = [] then (token c).filter (fun n => 0 < n) else none := by
  rw [h.matchAt?]
  by_cases hbefore : c.before = []
  · rw [if_pos hbefore, if_pos hbefore]
    cases htoken : token c with
    | none => rw [Option.map_none, Option.none_or, not_fits_of_next?]; rfl
    | some n => rw [Option.map_some, Option.some_or, ← htoken, ← length_of_token token c c.offset, htoken]; rfl
  · rw [if_neg hbefore, if_neg hbefore, Option.none_or, not_fits_of_next?]
    rfl

theorem before_of_prev?_eq_none (h : c.prev? = none) : c.before = [] := by
  unfold Cursor.prev? at h
  split at h
  · assumption
  · cases h

theorem HasContext.length?_of_prev? (h : p.HasContext context token) {a : Char} {b : Cursor}
    (hprev : c.prev? = some (a, b)) :
    p.length? c = ((p.matchAt? b).filter (Match.fits c)).map fun m => m.stop - c.offset := by
  have hcb := (Cursor.next?_eq_some.1 (Cursor.prev?_eq_some.1 hprev)).2
  have hafter := h.filter_matchAt? c
  rw [if_neg (by simp [hcb]), Option.map_eq_none_iff] at hafter
  rw [length?, offer?_of_prev? h.lookbehind hprev, hafter, Option.or_none]

/-- **A token that begins the text hides one behind its first character.** -/
theorem HasContext.length?_of_isHidden (h : p.HasContext context token) (hc : IsHidden token c) :
    p.length? c = none := by
  obtain ⟨a, b, hprev, hbefore, htoken⟩ := hc
  obtain ⟨n, hn⟩ := Option.isSome_iff_exists.1 htoken
  have ha := a.utf8Size_pos
  have hoffset := Cursor.offset_next? (Cursor.prev?_eq_some.1 hprev)
  have hne : b.offset ≠ c.offset := by omega
  have hnot := not_fits_of_ne hne b.offset (token b)
  rw [h.length?_of_prev? hprev, h.matchAt?, if_pos hbefore]
  rw [hn, Option.map_some] at hnot ⊢
  rw [Option.some_or, hnot, Option.map_none]

/-- **A token is offered behind its context**, if no token hides it. -/
theorem HasContext.length?_eq (h : p.HasContext context token) (hc : ¬ IsHidden token c) :
    p.length? c =
      if c.before.head?.all context then (token c).filter (fun n => 0 < n) else none := by
  cases hprev : c.prev? with
  | none =>
    have hbefore := before_of_prev?_eq_none hprev
    rw [length?, offer?_of_prev?_eq_none h.lookbehind hprev, h.filter_matchAt?, if_pos hbefore, hbefore,
      List.head?_nil, Option.all_none, if_pos rfl]
  | some prev =>
    obtain ⟨a, b⟩ := prev
    have hnext := Cursor.prev?_eq_some.1 hprev
    have hnone : (if b.before = [] then
        (token b).map fun n => (⟨b.offset, b.offset, b.offset + n⟩ : Match) else none) = none := by
      split
      · next hbefore =>
        have htoken : token b = none :=
          Option.not_isSome_iff_eq_none.1 fun hsome => hc ⟨a, b, hprev, hbefore, hsome⟩
        rw [htoken, Option.map_none]
      · rfl
    rw [h.length?_of_prev? hprev, h.matchAt?, hnone, Option.none_or, hnext, Option.bind_some,
      (Cursor.next?_eq_some.1 hnext).2, List.head?_cons, Option.all_some]
    dsimp only
    split
    · exact length_of_token token c b.offset
    · rfl

end

/-! ## Look-behind expressions and block comments -/

section

variable {C : CharSet} {r : Regex}

/-- The length of the token that begins at a position. -/
def tokenLength? (r : Regex) (c : Cursor) : Option Nat :=
  (reads? [[⟨r, 2⟩]] c.before.head? c.rest).map byteLength

theorem stop_tokenHere (r : Regex) (c : Cursor) :
    (r.tokenHere c).map Hit.stop = (tokenLength? r c).map (c.offset + ·) := by
  rw [Regex.tokenHere, stop_run, tokenLength?, Option.map_map]
  rfl

theorem map_tokenHere (hr : r.isOver .unmarked = true) (hl : p.lookbehind = true) (b c : Cursor) :
    (r.tokenHere c).map (p.matchOf b) =
      (tokenLength? r c).map fun n => ⟨b.offset, c.offset, c.offset + n⟩ := by
  have hstop := stop_tokenHere r c
  cases hrun : r.tokenHere c with
  | none =>
    rw [hrun, Option.map_none, eq_comm, Option.map_eq_none_iff] at hstop
    rw [hstop]
    rfl
  | some hit =>
    have hmark := Regex.mark_tokenHere hr hrun
    rw [hrun, Option.map_some] at hstop
    obtain ⟨n, hn, hstop⟩ := Option.map_eq_some_iff.1 hstop.symm
    rw [hn, Option.map_some, Option.map_some, matchOf, hmark, hl, ← hstop]
    rfl

theorem hasContext_behind (hp : p.matcher = .regex (.behind C r)) (hl : p.lookbehind = true)
    (hr : r.isOver .unmarked = true) : p.HasContext C.mem (tokenLength? r) where
  lookbehind := hl
  matchAt? := by
    intro c
    rw [matchAt?_regex hp, Regex.matchHere_behind, Option.map_or, ← map_tokenHere hr hl]
    congr 1
    · split <;> rfl
    · cases c.next? with
      | none => rfl
      | some next =>
        rw [Option.bind_some, Option.bind_some]
        dsimp only
        split
        · exact map_tokenHere hr hl c next.2
        · rfl

variable {h : Char}

theorem of_tokenLength? {n : Nat} (hn : tokenLength? (.cat (.char h) r) c = some n) :
    0 < n ∧ c.rest.head? = some h := by
  obtain ⟨cs, hcs, rfl⟩ := Option.map_eq_some_iff.1 hn
  obtain ⟨rest, ds, hrest, rfl, -⟩ := exists_of_reads?_cat_char hcs
  exact ⟨byteLength_pos.2 (List.cons_ne_nil _ _), by rw [hrest, List.head?_cons]⟩

/-- A token that begins with `h` is hidden only behind another `h`. -/
theorem length?_behind_char (hp : p.matcher = .regex (.behind C (.cat (.char h) r)))
    (hl : p.lookbehind = true) (hr : r.isOver .unmarked = true)
    (hc : ¬ (c.before = [h] ∧ C.mem h = true ∧ c.rest.head? = some h)) :
    p.length? c =
      if c.before.head?.all C.mem then tokenLength? (.cat (.char h) r) c else none := by
  have hunmarked : (Regex.cat (.char h) r).isOver .unmarked = true := hr
  have hcontext := hasContext_behind hp hl hunmarked
  by_cases hhidden : IsHidden (tokenLength? (.cat (.char h) r)) c
  · rw [hcontext.length?_of_isHidden hhidden]
    obtain ⟨a, b, hprev, hbefore, htoken⟩ := hhidden
    obtain ⟨n, hn⟩ := Option.isSome_iff_exists.1 htoken
    obtain ⟨hbr, hcb⟩ := Cursor.next?_eq_some.1 (Cursor.prev?_eq_some.1 hprev)
    have hhead := (of_tokenLength? hn).2
    rw [hbr] at hhead
    obtain rfl : a = h := Option.some.inj hhead
    rw [hbefore] at hcb
    rw [hcb, List.head?_cons, Option.all_some]
    split
    · next hC =>
      cases htoken : tokenLength? (.cat (.char a) r) c with
      | none => rfl
      | some m => exact absurd ⟨hcb, hC, (of_tokenLength? htoken).2⟩ hc
    · rfl
  · rw [hcontext.length?_eq hhidden]
    cases htoken : tokenLength? (.cat (.char h) r) c with
    | none => rfl
    | some n => rw [Option.filter_some, if_pos (decide_eq_true (of_tokenLength? htoken).1)]

end

theorem exists_of_block? {cs : List Char} {n : Nat} (hn : block? cs = some n) :
    ∃ rest, cs = '#' :: '=' :: rest := by
  unfold block? at hn
  split at hn
  · next rest => exact ⟨rest, rfl⟩
  · cases hn

theorem pos_of_block? {cs : List Char} {n : Nat} (hn : block? cs = some n) : 0 < n := by
  unfold block? at hn
  split at hn
  · obtain ⟨m, -, rfl⟩ := Option.map_eq_some_iff.1 hn
    omega
  · cases hn

theorem block?_of_cons {a : Char} {cs : List Char} {n : Nat} (hn : block? (a :: cs) = some n) :
    block? cs = none := by
  obtain ⟨rest, heq⟩ := exists_of_block? hn
  obtain ⟨-, rfl⟩ := List.cons.inj heq
  rfl

theorem hasContext_blockComment (hp : p.matcher = .blockComment) (hl : p.lookbehind = true) :
    p.HasContext (fun a => a ≠ '\\') fun c => block? c.rest where
  lookbehind := hl
  matchAt? := by
    intro c
    have hstart : c.offset = 0 ↔ c.before = [] := by rw [c.offset_eq, byteLength_eq_zero]
    rw [matchAt?_of_not_looksAhead (by rw [looksAhead, hp]), find?, hp]
    dsimp only
    rw [blockComment?]
    simp only [hstart, Cursor.blockEnd?, Option.map_map]
    congr 1
    cases c.next? with
    | none => rfl
    | some next =>
      obtain ⟨a, d⟩ := next
      rw [Option.bind_some]
      dsimp only
      by_cases ha : a = '\\'
      · rw [if_pos ha, if_neg (by simpa using ha)]
      · rw [if_neg ha, if_pos (by simpa using ha)]
        rfl

/-- **A block comment is offered where a block begins** and no backslash stands before it. Blocks do not hide each
other. -/
theorem length?_blockComment (hp : p.matcher = .blockComment) (hl : p.lookbehind = true) :
    p.length? c = if c.before.head?.all (fun a => a ≠ '\\') then block? c.rest else none := by
  have hcontext := hasContext_blockComment hp hl
  have hpos : (block? c.rest).filter (fun n => 0 < n) = block? c.rest := by
    cases hblock : block? c.rest with
    | none => rfl
    | some n => rw [Option.filter_some, if_pos (decide_eq_true (pos_of_block? hblock))]
  by_cases hc : IsHidden (fun c => block? c.rest) c
  · rw [hcontext.length?_of_isHidden hc]
    obtain ⟨a, b, hprev, -, htoken⟩ := hc
    obtain ⟨n, hn⟩ := Option.isSome_iff_exists.1 htoken
    have hbrest := (Cursor.next?_eq_some.1 (Cursor.prev?_eq_some.1 hprev)).1
    dsimp only at hn
    rw [hbrest] at hn
    rw [block?_of_cons hn, ite_self]
  · rw [hcontext.length?_eq hc, hpos]

end Pattern

end Highlight
