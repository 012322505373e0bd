import Highlight.Proofs.Memory
import Highlight.Proofs.Regex.Reading
import Highlight.Regex.Parse

/-!
# Where matches lie

A search finds a match at or behind the position where it was begun. The start of the match, the end of its context and
its end stand in this order, each on a boundary of the text (`Pattern.exists_of_find?`). For an expression this is what
its threads keep: the first group ends where a thread stands, and threads only go forward. For a block comment it
is told by the characters that a block takes (`block?_spec`).

A search that is begun at a byte, perhaps within a character, is one from the first boundary at or after it. So what is
known of searches from boundaries holds of searches from bytes (`Pattern.findFrom_spec`).
-/

namespace Highlight

/-! ## Block comments -/

/-- The bytes of a block are those of the characters that it takes, and what follows these does not count. -/
theorem blockRest?_spec {inner : Bool} {cs : List Char} {n : Nat} (h : blockRest? inner cs = some n) :
    ∃ v w, cs = v ++ w ∧ byteLength v = n ∧ ∀ more, blockRest? inner (v ++ more) = some n := by
  fun_induction blockRest? inner cs generalizing n with
  | case1 => cases h
  | case2 cs ih =>
    obtain ⟨m, hm, rfl⟩ := Option.map_eq_some_iff.1 h
    obtain ⟨v, w, rfl, rfl, hv⟩ := ih hm
    refine ⟨'=' :: '#' :: v, w, rfl, by simp only [byteLength_cons, ← Nat.add_assoc]; rfl, fun more => ?_⟩
    exact congrArg (Option.map (2 + ·)) (hv more)
  | case3 inner cs hinner =>
    cases h
    refine ⟨['=', '#'], cs, rfl, rfl, fun more => ?_⟩
    rw [List.cons_append, List.cons_append, blockRest?, if_neg hinner]
  | case4 => cases h
  | case5 inner cs hinner ih =>
    obtain ⟨m, hm, rfl⟩ := Option.map_eq_some_iff.1 h
    obtain ⟨v, w, rfl, rfl, hv⟩ := ih hm
    refine ⟨'#' :: '=' :: v, w, rfl, by simp only [byteLength_cons, ← Nat.add_assoc]; rfl, fun more => ?_⟩
    rw [List.cons_append, List.cons_append, blockRest?, if_neg hinner, hv more]
    rfl
  | case6 inner c cs hclose hopen ih =>
    obtain ⟨m, hm, rfl⟩ := Option.map_eq_some_iff.1 h
    obtain ⟨v, w, rfl, rfl, hv⟩ := ih hm
    refine ⟨c :: v, w, rfl, rfl, fun more => ?_⟩
    -- the two characters that are looked at are both taken
    cases v with
    | nil => cases hv []
    | cons a v =>
      rw [List.cons_append, blockRest?, hv more]
      · rfl
      · exact fun ds hc hds => hclose (v ++ w) hc (congrArg (· :: _) (List.cons.inj hds).1)
      · exact fun ds hc hds => hopen (v ++ w) hc (congrArg (· :: _) (List.cons.inj hds).1)

theorem block?_spec {cs : List Char} {n : Nat} (h : block? cs = some n) :
    ∃ v w, cs = v ++ w ∧ byteLength v = n ∧ ∀ more, block? (v ++ more) = some n := by
  unfold block? at h
  split at h
  · obtain ⟨m, hm, rfl⟩ := Option.map_eq_some_iff.1 h
    obtain ⟨v, w, rfl, rfl, hv⟩ := blockRest?_spec hm
    refine ⟨'#' :: '=' :: v, w, rfl, by simp only [byteLength_cons, ← Nat.add_assoc]; rfl, fun more => ?_⟩
    exact congrArg (Option.map (2 + ·)) (hv more)
  · cases h

theorem exists_precedes_of_blockEnd? {c : Cursor} {stop : Nat} (h : c.blockEnd? = some stop) :
    ∃ d, c.Precedes d ∧ d.offset = stop := by
  obtain ⟨n, hn, rfl⟩ := Option.map_eq_some_iff.1 h
  obtain ⟨v, w, hrest, rfl, -⟩ := block?_spec hn
  exact Cursor.exists_precedes hrest

theorem exists_of_blockComment? {c : Cursor} {m : Match} (h : blockComment? c = some m) :
    ∃ k e : Cursor, c.Precedes k ∧ k.Precedes e ∧ m = ⟨c.offset, k.offset, e.offset⟩ := by
  obtain ⟨k, stop, hck, hstop, rfl⟩ := Pattern.exists_blockEnd?_of_blockComment? h
  obtain ⟨e, hke, rfl⟩ := exists_precedes_of_blockEnd? hstop
  exact ⟨k, e, hck, hke, rfl⟩

/-! ## Expressions -/

/-- A mark, if there is one, is a position between `b` and `c`. -/
def MarksBetween (b c : Cursor) (mark : Option Nat) : Prop :=
  ∀ n ∈ mark, ∃ k : Cursor, b.Precedes k ∧ k.Precedes c ∧ k.offset = n

/-- The mark that a step hands on. -/
def Step.mark : Step → Option Nat
  | stop mark => mark
  | go t => t.mark

theorem Thread.mark_step (t : Thread) (offset : Nat) (m : Move) :
    (t.step offset m).mark = if m.closes then some offset else t.mark := by
  cases m <;> rfl

section

variable {b c d : Cursor} {mark : Option Nat}

theorem MarksBetween.mono (h : MarksBetween b c mark) (hcd : c.Precedes d) : MarksBetween b d mark := by
  intro n hn
  obtain ⟨k, hbk, hkc, hk⟩ := h n hn
  exact ⟨k, hbk, hkc.trans hcd, hk⟩

theorem MarksBetween.step {t : Thread} (ht : MarksBetween b c t.mark) (hbc : b.Precedes c) {s : Step}
    (hs : t.CanStep c s) : MarksBetween b c s.mark := by
  obtain ⟨v, m, -, rfl⟩ := hs
  rw [Thread.mark_step]
  split
  · intro n hn
    cases hn
    exact ⟨c, hbc, .refl c, rfl⟩
  · exact ht

/-- **A match ends behind its start**, and the first group ends in between. -/
theorem Regex.exists_of_matchHere {r : Regex} {hit : Hit} (h : r.matchHere c = some hit) :
    ∃ e : Cursor, c.Precedes e ∧ e.offset = hit.stop ∧ MarksBetween c e hit.mark := by
  refine run_invariant (P := fun d t => c.Precedes d ∧ MarksBetween c d t.mark)
    (Q := fun hit => ∃ e : Cursor, c.Precedes e ∧ e.offset = hit.stop ∧ MarksBetween c e hit.mark)
    ?_ ?_ (List.forall_mem_singleton.2 ⟨.refl c, fun n hn => by cases hn⟩) h
  · rintro d t mark ⟨hcd, ht⟩ hs
    exact ⟨d, hcd, rfl, ht.step hcd hs⟩
  · rintro d e a t u ⟨hcd, ht⟩ hnext hs
    have hde := Cursor.precedes_next? hnext
    have hu : MarksBetween c d u.mark := ht.step hcd hs
    exact ⟨hcd.trans hde, hu.mono hde⟩

end

/-! ## Patterns -/

namespace Pattern

/-- **A match lies behind the position where the search begins**, and its start, the end of its context and its end are
positions in this order. -/
theorem exists_of_find? {p : Pattern} {c : Cursor} {m : Match} (h : p.find? c = some m) :
    ∃ b k e : Cursor, c.Precedes b ∧ b.Precedes k ∧ k.Precedes e ∧ m = ⟨b.offset, k.offset, e.offset⟩ := by
  cases hp : p.matcher with
  | regex r =>
    rw [find?_regex hp] at h
    obtain ⟨⟨b, hit⟩, hsearch, rfl⟩ := Option.map_eq_some_iff.1 h
    obtain ⟨hcb, hhit⟩ := Regex.search_spec hsearch
    obtain ⟨e, hbe, hstop, hmark⟩ := Regex.exists_of_matchHere hhit
    obtain ⟨k, hbk, hke, hk⟩ : ∃ k : Cursor, b.Precedes k ∧ k.Precedes e ∧
        k.offset = if p.lookbehind then hit.mark.getD b.offset else b.offset := by
      split
      · cases hm : hit.mark with
        | none => exact ⟨b, .refl b, hbe, rfl⟩
        | some n => exact hmark n hm
      · exact ⟨b, .refl b, hbe, rfl⟩
    exact ⟨b, k, e, hcb, hbk, hke, by rw [hk, hstop]; rfl⟩
  | blockComment =>
    rw [find?, hp] at h
    obtain ⟨k, e, hck, hke, rfl⟩ := exists_of_blockComment? h
    exact ⟨c, k, e, .refl c, hck, hke, rfl⟩

variable {p : Pattern} {text : List Char} {position : Nat}

theorem findFrom_regex {r : Regex} (hp : p.matcher = .regex r) (h : position ≤ byteLength text) :
    p.findFrom text position = .ofOption (p.find? ((Cursor.ofText text).seek position)) := by
  rw [findFrom, hp]
  exact if_pos h

theorem findFrom_block (hp : p.matcher = .blockComment) :
    p.findFrom text position = .ofOption ((Cursor.at? text position).bind blockComment?) := by
  have hfind : p.find? = blockComment? := by
    funext c
    rw [find?, hp]
  rw [findFrom, hp, hfind]

theorem findFrom_eq_nothing_or (p : Pattern) (h : position ≤ byteLength text) :
    p.findFrom text position = .nothing ∨
      ∃ c : Cursor, c.text = text ∧ position ≤ c.offset ∧ p.findFrom text position = .ofOption (p.find? c) := by
  cases hp : p.matcher with
  | regex r =>
    exact Or.inr ⟨_, Cursor.text_seek (.ofText text) position, Cursor.le_offset_seek h, findFrom_regex hp h⟩
  | blockComment =>
    cases hat : Cursor.at? text position with
    | none => exact Or.inl (by rw [findFrom_block hp, hat]; rfl)
    | some c =>
      obtain ⟨rfl, rfl⟩ := Cursor.at?_eq_some_iff.1 hat
      exact Or.inr ⟨c, rfl, Nat.le_refl _, findFrom_offset p c⟩

end Pattern

/-- A match lies in a text, from a byte on: its start, the end of its context and its end stand in this order, each
on a boundary. -/
structure Match.LiesIn (text : List Char) (position : Nat) (m : Match) : Prop where
  le_start : position ≤ m.start
  start_le : m.start ≤ m.contextEnd
  contextEnd_le : m.contextEnd ≤ m.stop
  stop_le : m.stop ≤ byteLength text
  boundaries : ∀ n ∈ [m.start, m.contextEnd, m.stop],
    ∃ before after, text = before ++ after ∧ byteLength before = n

namespace Pattern

variable {p : Pattern} {text : List Char} {position later : Nat} {m : Match}

theorem liesIn_of_find? {c : Cursor} (h : p.find? c = some m) (hc : position ≤ c.offset) :
    m.LiesIn c.text position := by
  obtain ⟨b, k, e, hcb, hbk, hke, rfl⟩ := exists_of_find? h
  have hck := hcb.trans hbk
  have hce := hck.trans hke
  refine ⟨Nat.le_trans hc hcb.offset_le, hbk.offset_le, hke.offset_le, ?_, ?_⟩
  · rw [← hce.text_eq]
    exact e.offset_le_byteLength_text
  · simp only [List.forall_mem_cons]
    refine ⟨?_, ?_, ?_, nofun⟩
    · rw [← hcb.text_eq]
      exact b.exists_append
    · rw [← hck.text_eq]
      exact k.exists_append
    · rw [← hce.text_eq]
      exact e.exists_append

theorem start_of_findFrom_block (hp : p.matcher = .blockComment) (h : p.findFrom text position = .found m) :
    m.start = position := by
  rw [findFrom_block hp, SearchResult.ofOption_eq_found_iff] at h
  obtain ⟨c, hat, hm⟩ := Option.bind_eq_some_iff.1 h
  rw [start_of_blockComment? hm, (Cursor.at?_eq_some_iff.1 hat).2]

section

variable {r : Regex} (hp : p.matcher = .regex r) (hposition : position ≤ byteLength text) (hle : position ≤ later)

include hp hposition hle

theorem findFrom_of_le_start (h : p.findFrom text position = .found m) (hlater : later ≤ m.start) :
    p.findFrom text later = .found m := by
  rw [findFrom_regex hp hposition, SearchResult.ofOption_eq_found_iff] at h
  obtain ⟨b, k, e, hcb, -, -, rfl⟩ := exists_of_find? h
  have hb : (Cursor.ofText text).Precedes b := (Cursor.precedes_seek _ position).trans hcb
  have hend : later ≤ byteLength text := by
    have htext : b.text = text := hb.text_eq
    rw [← htext]
    exact Nat.le_trans hlater b.offset_le_byteLength_text
  rw [findFrom_regex hp hend, SearchResult.ofOption_eq_found_iff]
  exact find?_of_offset_le (by rw [looksAhead, hp]) h (Cursor.seek_precedes_seek hle hend)
    (Cursor.seek_precedes hb hlater).offset_le

theorem findFrom_eq_nothing_of_le (h : p.findFrom text position = .nothing) (hlater : later ≤ byteLength text) :
    p.findFrom text later = .nothing := by
  rw [findFrom_regex hp hposition, SearchResult.ofOption_eq_nothing_iff] at h
  rw [findFrom_regex hp hlater, SearchResult.ofOption_eq_nothing_iff]
  exact find?_eq_none_of_precedes (by rw [looksAhead, hp]) h (Cursor.seek_precedes_seek hle hlater)

end

/-- **Matches are well placed, and searches are stable.** A search from a byte of a text finds nothing, or a match that
lies in the text from the byte on. That of a block comment begins at the byte. That of an expression is found from
every byte up to its start, and where an expression is not found it is not found farther on. -/
theorem findFrom_spec (p : Pattern) (text : List Char) (position : Nat) (h : position ≤ byteLength text) :
    (p.findFrom text position = .nothing ∨
      ∃ m, p.findFrom text position = .found m ∧ m.LiesIn text position) ∧
    (p.matcher = .blockComment → ∀ m, p.findFrom text position = .found m → m.start = position) ∧
    ∀ r, p.matcher = .regex r →
      (∀ m, p.findFrom text position = .found m →
        ∀ later, position ≤ later → later ≤ m.start → p.findFrom text later = .found m) ∧
      (p.findFrom text position = .nothing →
        ∀ later, position ≤ later → later ≤ byteLength text → p.findFrom text later = .nothing) := by
  refine ⟨?_, fun hp m => start_of_findFrom_block hp, fun r hp => ⟨?_, ?_⟩⟩
  · rcases p.findFrom_eq_nothing_or h with hnothing | ⟨c, rfl, hc, hfind⟩
    · exact Or.inl hnothing
    · rw [hfind]
      cases hm : p.find? c with
      | none => exact Or.inl rfl
      | some m => exact Or.inr ⟨m, rfl, liesIn_of_find? hm hc⟩
  · exact fun m hm later hle hlater => findFrom_of_le_start hp h hle hm hlater
  · exact fun hnothing later hle hlater => findFrom_eq_nothing_of_le hp h hle hnothing hlater

/-- Some `x`, each with an `é` behind it or not, and a `b`; the last `é` ends the context: `(?:x(é)?)+b` -/
def repeatedGroup : Pattern where
  matcher := .regex (.cat (.plus (.cat (.char 'x') (.optional (.group 1 (.char 'é')) true)) true) (.char 'b'))
  lookbehind := true

example : (Regex.parse? "(?:x(é)?)+b").map .regex = some repeatedGroup.matcher := by
  decide +kernel

/-- The search from a byte within the first `é` comes to the first `x`, and so does that from the `x`. The group is
passed once in two passes, and the context ends there. Behind the match there is nothing. -/
theorem findFrom_repeated_group :
    repeatedGroup.findFrom "éxéxb".toList 1 = .found ⟨2, 5, 7⟩ ∧
      Match.LiesIn "éxéxb".toList 1 ⟨2, 5, 7⟩ ∧
      repeatedGroup.findFrom "éxéxb".toList 2 = .found ⟨2, 5, 7⟩ ∧
      repeatedGroup.findFrom "éxéxb".toList 7 = .nothing := by
  obtain ⟨hplaced, -, hstable⟩ := repeatedGroup.findFrom_spec "éxéxb".toList 1 (by decide +kernel)
  obtain ⟨-, -, hbehind⟩ := repeatedGroup.findFrom_spec "éxéxb".toList 6 (by decide +kernel)
  have hfound : repeatedGroup.findFrom "éxéxb".toList 1 = .found ⟨2, 5, 7⟩ := by decide +kernel
  refine ⟨hfound, ?_, (hstable _ rfl).1 _ hfound 2 (by decide) (by decide), ?_⟩
  · rcases hplaced with hnothing | ⟨m, hm, hlies⟩
    · rw [hfound] at hnothing
      cases hnothing
    · rw [hfound] at hm
      cases hm
      exact hlies
  · exact (hbehind _ rfl).2 (by decide +kernel) 7 (by decide) (by decide +kernel)

end Pattern

end Highlight
