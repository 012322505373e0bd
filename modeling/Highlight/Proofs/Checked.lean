import Highlight.Lexer
import Highlight.Proofs.Boundary

/-!
# Dividing a text never fails

A run can be told in bytes: it keeps a position and takes slices of the text, searches from positions, and divides
the texts of greedy tokens by runs of their own. `Checked.divide` is such a run that gives up with a `Fault` when

* a slice does not lead from one boundary of the text to a later one, or the position is no boundary of the text;
* a search begins beyond the end of the text;
* a token is empty, or a step does not move on;
* more steps are made than the text has bytes, or more texts lie in one another than is allowed.

The entries, the starts of a look-behind pattern and the memories of the searches are asked in the same order as
without the checks. No run has a fault, and each gives the tokens of its text, if as many texts may lie in one another
as the table has rules (`Grammar.divide_eq_tokenize`).
-/

namespace Highlight

/-- What a run gives up for. -/
inductive Fault
  /-- The bytes are no range of the text, or one of them is within a character. -/
  | badSlice (start stop : Nat)
  /-- The search begins beyond the end of the text. -/
  | badSearch (position : Nat)
  | emptyToken (position : Nat)
  /-- The step does not move on. -/
  | stuck (position : Nat)
  /-- There are more steps than bytes. -/
  | endless
  /-- Too many texts lie in one another. -/
  | tooDeep
  deriving DecidableEq, Repr

namespace Checked

/-! ## Runs with checks -/

/-- The characters of a text from one byte to another. -/
def slice (text : List Char) (start stop : Nat) : Except Fault (List Char) :=
  match Cursor.at? text start, Cursor.at? text stop with
  | some c, some _ => if start ≤ stop then .ok (c.cut stop).1 else .error (.badSlice start stop)
  | _, _ => .error (.badSlice start stop)

/-- Searches for a pattern from a position of the text. -/
def search (p : Pattern) (text : List Char) (position : Nat) : Except Fault (Option Match) :=
  if position ≤ byteLength text then .ok (p.findFrom text position).match?
  else .error (.badSearch position)

/-- Where the character before the position begins. -/
def previousBoundary (l : Lexer) : Except Fault (Option Nat) := do
  let before ← slice l.source 0 l.position
  return before.getLast?.map fun a => l.position - a.utf8Size

/-- The match of the entry that begins at a position. -/
def matchAt (text : List Char) (s : Slot) (position : Nat) : Except Fault (Option Match × Slot) :=
  if s.entry.pattern.looksAhead then
    match s.answer? position with
    | some answer => .ok (answer, s)
    | none => do
      let found ← search s.entry.pattern text position
      return (found.filter fun m => m.start = position, { s with last := some (position, found) })
  else do
    let found ← search s.entry.pattern text position
    return (found, s)

/-- The first match at one of the given positions whose token begins at the position of the lexer. -/
def offerFrom (l : Lexer) (s : Slot) : List Nat → Except Fault (Option Match × Slot)
  | [] => .ok (none, s)
  | start :: more => do
    let (m, s) ← matchAt l.source s start
    match m.filter fun m => m.contextEnd = l.position && l.position < m.stop with
    | some m => return (some m, s)
    | none => offerFrom l s more

/-- The match that the entry offers. -/
def offer (l : Lexer) (s : Slot) : Except Fault (Option Match × Slot) := do
  let context ← if s.entry.pattern.lookbehind then previousBoundary l else .ok none
  offerFrom l s (context.toList ++ [l.position])

/-- The first of the entries that offers a match. -/
def offerAmong (l : Lexer) : List Slot → Except Fault (Option (Entry × Match) × List Slot)
  | [] => .ok (none, [])
  | s :: more => do
    match ← offer l s with
    | (some m, s) => return (some (s.entry, m), s :: more)
    | (none, s) =>
      let (found, more) ← offerAmong l more
      return (found, s :: more)

/-- Adds a token and goes behind it. -/
def emit (l : Lexer) (t : Token) : Except Fault Lexer :=
  if t.span.isEmpty then .error (.emptyToken t.span.start)
  else .ok ((l.push t).advance t.span.length)

section

variable (rescan : Bool) (base : Nat) (inner : Entry → Nat → List Char → Except Fault (List Token))

/-- The tokens below a token of the entry. Its text is divided by `inner` if it has to be divided again. -/
def childrenOf (e : Entry) (start : Nat) (value : List Char) : Except Fault (List Token) :=
  if rescan && e.pattern.greedy then inner e start value else .ok []

/-- Adds the token of a match. -/
def emitMatch (l : Lexer) (e : Entry) (m : Match) : Except Fault Lexer := do
  let value ← slice l.source m.contextEnd m.stop
  let below ← childrenOf rescan inner e (base + m.contextEnd) value
  emit l ⟨e.kind, e.label, String.ofList value, ⟨base + m.contextEnd, base + m.stop⟩, below⟩

/-- Adds the next token, which begins with the character `a`. -/
def step (l : Lexer) (slots : List Slot) (a : Char) : Except Fault (Lexer × List Slot) := do
  let (found, slots) ← offerAmong l slots
  let next ← match found with
    | some (e, m) => emitMatch rescan base inner l e m
    | none =>
      emit l ⟨.plain, none, String.ofList [a], ⟨base + l.position, base + (l.position + a.utf8Size)⟩, []⟩
  if l.position < next.position then return (next, slots) else .error (.stuck l.position)

/-- Goes on to the end of the text, with so many steps at most. -/
def run : Nat → Lexer → List Slot → Except Fault (List Token)
  | 0, _, _ => .error .endless
  | steps + 1, l, slots => do
    match ← slice l.source l.position (byteLength l.source) with
    | [] => return l.finish
    | a :: _ =>
      let (l, slots) ← step rescan base inner l slots a
      run steps l slots

end

/-- The tokens of a text that begins at `base`, below tokens of the kinds `above`. At most `depth` texts may lie in
one another below it. -/
def divide (g : Grammar) (rescan : Bool) : (depth : Nat) → (above : List Kind) → (base : Nat) →
    (text : List Char) → Except Fault (List Token)
  | 0, above, base, text =>
    run rescan base (fun _ _ _ => .error .tooDeep) (byteLength text + 1) ⟨text, 0, []⟩
      ((withoutAll g.entries above).map Slot.fresh)
  | depth + 1, above, base, text =>
    run rescan base (fun e => divide g rescan depth (e.kind :: above)) (byteLength text + 1) ⟨text, 0, []⟩
      ((withoutAll g.entries above).map Slot.fresh)

/-! ## The checks of a step -/

theorem ok_bind {α β : Type} (a : α) (f : α → Except Fault β) : (Except.ok a >>= f) = f a := rfl

theorem slice_of_precedes {c d : Cursor} {v : List Char} (hrest : c.rest = v ++ d.rest)
    (hbefore : d.before = v.reverse ++ c.before) : slice c.text c.offset d.offset = .ok v := by
  have hprecedes : c.Precedes d := ⟨v, hrest, hbefore⟩
  have hd := Cursor.at?_offset d
  rw [hprecedes.text_eq] at hd
  simp only [slice, Cursor.at?_offset, hd]
  rw [if_pos hprecedes.offset_le, Cursor.cut_of_precedes hrest hbefore]

/-- A slice may not begin within a character. -/
example : slice ['é'] 1 2 = .error (.badSlice 1 2) := rfl

theorem slice_rest (c : Cursor) : slice c.text c.offset (byteLength c.text) = .ok c.rest := by
  have hbefore : (Cursor.behind c.text []).before = c.rest.reverse ++ c.before := by
    change (c.before.reverse ++ c.rest).reverse = _
    rw [List.reverse_append, List.reverse_reverse]
  exact slice_of_precedes (List.append_nil _).symm hbefore

theorem slice_before (c : Cursor) : slice c.text 0 c.offset = .ok c.before.reverse := by
  have hbefore : c.before = c.before.reverse.reverse ++ (Cursor.ofText c.text).before := by
    rw [List.reverse_reverse]
    exact (List.append_nil _).symm
  exact slice_of_precedes (c := .ofText c.text) rfl hbefore

theorem previousBoundary_eq (c : Cursor) (ts : List Token) :
    previousBoundary ⟨c.text, c.offset, ts⟩ = .ok ((c.prev?.map Prod.snd).map Cursor.offset) := by
  have hlast : (c.before.reverse.getLast?.map fun a => c.offset - a.utf8Size) =
      (c.prev?.map Prod.snd).map Cursor.offset := by
    rw [List.getLast?_reverse]
    cases hprev : c.prev? with
    | none =>
      rw [Pattern.before_of_prev?_eq_none hprev]
      rfl
    | some prev =>
      obtain ⟨a, b⟩ := prev
      have hnext := Cursor.prev?_eq_some.1 hprev
      rw [(Cursor.next?_eq_some.1 hnext).2, Cursor.offset_next? hnext, List.head?_cons, Option.map_some,
        Nat.add_sub_cancel]
      rfl
  rw [previousBoundary, slice_before, ok_bind, hlast]
  rfl

theorem search_eq (p : Pattern) (c : Cursor) : search p c.text c.offset = .ok (p.find? c) := by
  rw [search, if_pos c.offset_le_byteLength_text, Pattern.match?_findFrom_offset]

theorem matchAt_eq (s : Slot) (c : Cursor) : matchAt c.text s c.offset = .ok (s.matchAt c) := by
  rw [matchAt, Slot.matchAt, search_eq]
  split
  · cases s.answer? c.offset <;> rfl
  · rfl

theorem offerFrom_eq (c : Cursor) (ts : List Token) (s : Slot) {starts : List Cursor}
    (hstarts : ∀ b ∈ starts, b.text = c.text) :
    offerFrom ⟨c.text, c.offset, ts⟩ s (starts.map Cursor.offset) = .ok (s.offerFrom c starts) := by
  induction starts generalizing s with
  | nil => rfl
  | cons b bs ih =>
    obtain ⟨hb, hbs⟩ := List.forall_mem_cons.1 hstarts
    rw [List.map_cons, offerFrom, Slot.offerFrom]
    rw [← hb, matchAt_eq, ok_bind, hb]
    have hfits : (fun m : Match => decide (m.contextEnd = c.offset) && decide (c.offset < m.stop)) =
        Match.fits c := rfl
    dsimp only
    rw [hfits]
    cases (s.matchAt b).1.filter (Match.fits c) with
    | some m => rfl
    | none => exact ih _ hbs

theorem offer_eq (c : Cursor) (ts : List Token) (s : Slot) :
    offer ⟨c.text, c.offset, ts⟩ s = .ok (s.offer c) := by
  have hstarts := offerFrom_eq c ts s fun b => Pattern.text_of_mem_starts (p := s.entry.pattern)
  rw [Slot.offer, ← hstarts, offer, Pattern.starts]
  split
  · rw [previousBoundary_eq, ok_bind, List.map_append]
    cases c.prev? <;> rfl
  · rfl

theorem offerAmong_eq (c : Cursor) (ts : List Token) (slots : List Slot) :
    offerAmong ⟨c.text, c.offset, ts⟩ slots = .ok (Slot.offerAmong c slots) := by
  induction slots with
  | nil => rfl
  | cons s more ih =>
    rw [offerAmong, Slot.offerAmong, offer_eq, ok_bind, ih]
    rcases s.offer c with ⟨- | m, t⟩ <;> rfl

/-! ## Steps and runs -/

section

variable {rescan : Bool} (base : Nat) {inner : Entry → Nat → List Char → Except Fault (List Token)}
  {slots : List Slot} {c : Cursor}

theorem emit_eq {start stop : Nat} (hlt : start < stop) (text : List Char) (ts : List Token)
    (kind : Kind) (label : Option String) (value : String) (children : List Token) :
    emit ⟨text, start, ts⟩ ⟨kind, label, value, ⟨base + start, base + stop⟩, children⟩ =
      .ok ⟨text, stop, Token.push ts ⟨kind, label, value, ⟨base + start, base + stop⟩, children⟩⟩ := by
  have hspan : (⟨base + start, base + stop⟩ : Span).isEmpty = false := by
    have hne : base + start ≠ base + stop := by omega
    exact decide_eq_false hne
  have hstop : start + (base + stop - (base + start)) = stop := by omega
  rw [emit, if_neg (by rw [hspan]; exact Bool.false_ne_true)]
  simp only [Lexer.push, Lexer.advance, Span.length, hstop]

/-- The texts of greedy tokens are divided into the tokens that the table without their rule gives. -/
def Divides (rescan : Bool) (entries : List Entry)
    (inner : Entry → Nat → List Char → Except Fault (List Token)) : Prop :=
  rescan = true → ∀ e ∈ entries, e.pattern.greedy = true → ∀ base text,
    inner e base text = .ok (tokensBy cutAfresh rescan (without entries e.kind) base text)

theorem exists_slice_of_offer? {entries : List Entry} {e : Entry} {m : Match}
    (hoffer : offer? entries c = some (e, m)) :
    ∃ v d, firstPiece? entries c = some (⟨some e, v, c.offset⟩, d) ∧ c.offset < d.offset ∧
      m.contextEnd = c.offset ∧ m.stop = d.offset ∧ slice c.text m.contextEnd m.stop = .ok v := by
  obtain ⟨-, hmatch⟩ := mem_of_offer? hoffer
  obtain ⟨hcontext, -⟩ := Pattern.fits_of_offer? hmatch
  obtain ⟨hlt, d', ⟨v, hrest, hbefore⟩, hstop⟩ := Pattern.exists_precedes_of_offer? hmatch
  have hlength : m.stop = c.offset + byteLength v := hstop.symm.trans (Cursor.offset_of_before hbefore)
  have hclaim : claim? entries c = some (e, byteLength v) := by
    have hsub : m.stop - c.offset = byteLength v := by omega
    rw [claim?, ← map_offer?, hoffer, ← hsub]
    rfl
  obtain ⟨d, hfirst, -⟩ := firstPiece?_of_claim? hrest hclaim
  have hd : m.stop = d.offset := hlength.trans (spans_of_firstPiece? hfirst).stop_eq
  refine ⟨v, d, hfirst, hd ▸ hlt, hcontext, hd, ?_⟩
  rw [hcontext, ← hstop]
  exact slice_of_precedes hrest hbefore

theorem emitMatch_eq {entries : List Entry} (hinner : Divides rescan entries inner) {e : Entry} {m : Match}
    (hoffer : offer? entries c = some (e, m)) (ts : List Token) :
    ∃ p d, firstPiece? entries c = some (p, d) ∧ c.offset < d.offset ∧
      emitMatch rescan base inner ⟨c.text, c.offset, ts⟩ e m =
        .ok ⟨c.text, d.offset, Token.push ts (p.token base (childrenBy rescan entries base p))⟩ := by
  obtain ⟨he, -⟩ := mem_of_offer? hoffer
  obtain ⟨v, d, hfirst, hlt, hcontext, hstop, hvalue⟩ := exists_slice_of_offer? hoffer
  have hchildren : childrenOf rescan inner e (base + c.offset) v =
      .ok (childrenBy rescan entries base ⟨some e, v, c.offset⟩ e) := by
    rw [childrenOf, childrenBy]
    split
    · next hagain =>
      obtain ⟨hrescan, hgreedy⟩ := (Bool.and_eq_true _ _).mp hagain
      exact hinner hrescan e he hgreedy (base + c.offset) v
    · rfl
  refine ⟨_, d, hfirst, hlt, ?_⟩
  rw [emitMatch, hvalue, ok_bind, hcontext, hchildren, ok_bind, hstop, emit_eq base hlt,
    ← (spans_of_firstPiece? hfirst).stop_eq]
  rfl

/-- **A step does not fail.** It adds the token of the next piece and goes behind it, and the memories of the searches
stay good. -/
theorem step_eq (hslots : ∀ s ∈ slots, s.Recalls c.text) (hinner : Divides rescan (slots.map Slot.entry) inner)
    {a : Char} {d : Cursor} (hnext : c.next? = some (a, d)) (ts : List Token) :
    ∃ p d' slots', firstPiece? (slots.map Slot.entry) c = some (p, d') ∧
      slots'.map Slot.entry = slots.map Slot.entry ∧ (∀ s ∈ slots', s.Recalls c.text) ∧
      step rescan base inner ⟨c.text, c.offset, ts⟩ slots a =
        .ok (⟨c.text, d'.offset,
          Token.push ts (p.token base (childrenBy rescan (slots.map Slot.entry) base p))⟩, slots') := by
  obtain ⟨hanswer, hentries, hrecalls⟩ := Slot.offerAmong_spec hslots
  rw [step, offerAmong_eq, ok_bind]
  cases hfound : Slot.offerAmong c slots with
  | mk found slots' =>
    rw [hfound] at hanswer hentries hrecalls
    cases found with
    | none =>
      have hlt : c.offset < c.offset + a.utf8Size := Nat.lt_add_of_pos_right a.utf8Size_pos
      refine ⟨⟨none, [a], c.offset⟩, d, slots', ?_, hentries, hrecalls, ?_⟩
      · rw [firstPiece?, hnext, Option.map_some, ← hanswer]
      · dsimp only
        rw [emit_eq base hlt, ok_bind, if_pos hlt, Cursor.offset_next? hnext]
        rfl
    | some offered =>
      obtain ⟨e, m⟩ := offered
      obtain ⟨p, d', hfirst, hlt, hemit⟩ := emitMatch_eq base hinner hanswer.symm ts
      refine ⟨p, d', slots', hfirst, hentries, hrecalls, ?_⟩
      dsimp only
      rw [hemit, ok_bind, if_pos hlt]
      rfl

/-- **A run does not fail**, if it may make a step for each byte that is left. -/
theorem run_eq {entries : List Entry} (hinner : Divides rescan entries inner)
    (hentries : slots.map Slot.entry = entries) (hslots : ∀ s ∈ slots, s.Recalls c.text) {steps : Nat}
    (hsteps : byteLength c.rest < steps) (ts : List Token) :
    run rescan base inner steps ⟨c.text, c.offset, ts⟩ slots =
      .ok (((pieces entries c).map fun p =>
        p.token base (childrenBy rescan entries base p)).foldl Token.push ts).reverse := by
  induction steps generalizing c slots ts with
  | zero => exact absurd hsteps (Nat.not_lt_zero _)
  | succ steps ih =>
    rw [run]
    dsimp only
    rw [slice_rest, ok_bind]
    cases hrest : c.rest with
    | nil =>
      rw [pieces_of_end (Cursor.next?_eq_none.2 hrest)]
      rfl
    | cons a rest =>
      obtain ⟨b, hnext, -⟩ := Cursor.exists_next? hrest
      obtain ⟨p, d, slots', hfirst, hentries', hrecalls, hstep⟩ :=
        step_eq base hslots (hentries.symm ▸ hinner) hnext ts
      rw [hentries] at hfirst hstep hentries'
      have hspans := spans_of_firstPiece? hfirst
      have hlt : byteLength d.rest < steps := by
        have hpos := byteLength_pos.2 hspans.chars_ne_nil
        rw [hspans.rest, byteLength_append] at hsteps
        omega
      have htext : d.text = c.text := hspans.precedes.text_eq
      dsimp only
      rw [hstep, ok_bind, pieces_of_firstPiece? hfirst, List.map_cons, List.foldl_cons]
      dsimp only
      rw [← htext] at hrecalls ⊢
      exact ih hentries' hrecalls hlt _

theorem run_ofText {entries : List Entry} (hinner : Divides rescan entries inner) (text : List Char) :
    run rescan base inner (byteLength text + 1) ⟨text, 0, []⟩ (entries.map Slot.fresh) =
      .ok (tokensBy cutAfresh rescan entries base text) := by
  have hentries : (entries.map Slot.fresh).map Slot.entry = entries := by
    rw [List.map_map]
    exact List.map_id entries
  have hslots : ∀ s ∈ entries.map Slot.fresh, s.Recalls (Cursor.ofText text).text := by
    intro s hs
    obtain ⟨e, -, rfl⟩ := List.mem_map.1 hs
    exact Slot.recalls_fresh _ e
  rw [tokensBy_eq]
  exact run_eq base (c := .ofText text) hinner hentries hslots (Nat.lt_succ_self _) []

end

/-- The kinds of the table that are not among the given ones. -/
def kindsLeft (g : Grammar) (above : List Kind) : List Kind :=
  g.kinds.filter fun k => k ∉ above

theorem kind_mem_kindsLeft {g : Grammar} {above : List Kind} {e : Entry}
    (he : e ∈ withoutAll g.entries above) : e.kind ∈ kindsLeft g above := by
  obtain ⟨hentry, hkind⟩ := List.mem_filter.1 he
  refine List.mem_filter.2 ⟨?_, hkind⟩
  obtain ⟨⟨kind, rule⟩, hrule, hmem⟩ := List.mem_flatMap.1 hentry
  obtain ⟨p, -, rfl⟩ := List.mem_map.1 hmem
  exact List.mem_map_of_mem hrule

theorem length_kindsLeft_lt {g : Grammar} {above : List Kind} {k : Kind} (hk : k ∈ kindsLeft g above) :
    (kindsLeft g (k :: above)).length < (kindsLeft g above).length := by
  have hleft : kindsLeft g (k :: above) = (kindsLeft g above).filter fun k' => k' ≠ k := by
    rw [kindsLeft, kindsLeft, List.filter_filter]
    congr 1
    funext k'
    simp
  rw [hleft]
  exact List.length_filter_lt_length_iff_exists.2 ⟨k, hk, by simp⟩

/-- **A text lies in no more texts than there are kinds left.** -/
theorem divide_eq {g : Grammar} {rescan : Bool} {depth : Nat} {above : List Kind}
    (hdepth : (kindsLeft g above).length ≤ depth) (base : Nat) (text : List Char) :
    divide g rescan depth above base text =
      .ok (tokensBy cutAfresh rescan (withoutAll g.entries above) base text) := by
  induction depth generalizing above base text with
  | zero =>
    refine run_ofText base (fun _ e he => ?_) text
    have hmem := kind_mem_kindsLeft he
    rw [List.length_eq_zero_iff.1 (Nat.le_zero.1 hdepth)] at hmem
    cases hmem
  | succ depth ih =>
    refine run_ofText base (fun _ e he _ start value => ?_) text
    have hlt := length_kindsLeft_lt (kind_mem_kindsLeft he)
    rw [ih (by omega), without_withoutAll]

end Checked

namespace Grammar

/-- **Dividing a text never fails and always ends.** With all its checks a run gives the tokens of the text: each step
moves on, from one boundary of the text to another, every slice is one between boundaries, no token is empty, no
search begins beyond the text, there are no more steps than bytes, and no more texts lie in one another than the table
has rules. -/
theorem divide_eq_tokenize (g : Grammar) (source : String) (rescan : Bool) :
    Checked.divide g rescan g.rules.length [] 0 source.toList = .ok (g.tokenize source rescan) := by
  have hdepth : (Checked.kindsLeft g []).length ≤ g.rules.length := by
    have hkinds : g.kinds.length = g.rules.length := List.length_map _
    exact hkinds ▸ List.length_filter_le _ _
  rw [Checked.divide_eq hdepth, withoutAll_nil, tokenize_eq]

end Grammar

end Highlight
