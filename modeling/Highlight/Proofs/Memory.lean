import Highlight.Piece.Memory
import Highlight.Proofs.Piece.Basic
import Highlight.Proofs.Regex.Search
import Highlight.Tokenize

/-!
# Remembering searches changes nothing

A slot keeps the last search for its entry. `Slot.Recalls text s` is what makes this harmless: the search was begun
at some position of `text` and found what the slot says. It holds of a fresh slot, and each step keeps it.

* `Slot.answer?_eq`: what follows from the last search for a position is the match that a new search would give.
* `Slot.matchAt_spec`, `Slot.offer_spec`, `Slot.offerAmong_spec`: the steps with a memory answer as the steps without
  one, and the slots still recall. The invariant says nothing of the order of the positions asked for, so the two
  starts of a look-behind pattern and the jumps over tokens need no care.
* `piecesRemembering_eq`: a cut with a memory is the cut without.
-/

namespace Highlight

namespace Slot

/-- The last search of the slot was made in the text, and found what the slot remembers. -/
def Recalls (text : List Char) (s : Slot) : Prop :=
  ∀ position found, s.last = some (position, found) →
    ∃ c : Cursor, c.text = text ∧ c.offset = position ∧ s.entry.pattern.find? c = found

theorem recalls_fresh (text : List Char) (e : Entry) : (fresh e).Recalls text := by
  intro position found h
  cases h

/-- **What follows from the last search is what a new one would give.** -/
theorem answer?_eq {s : Slot} {c : Cursor} {answer : Option Match} (hs : s.Recalls c.text)
    (hp : s.entry.pattern.looksAhead = true) (h : s.answer? c.offset = some answer) :
    s.entry.pattern.matchAt? c = answer := by
  unfold answer? at h
  split at h
  · cases h
  · next searched found hlast =>
    obtain ⟨b, hbt, rfl, hfound⟩ := hs _ _ hlast
    split at h
    · cases h
    · next hle =>
      have hbc : b.Precedes c := Cursor.precedes_of_offset_le hbt (Nat.not_lt.1 hle)
      split at h
      · cases h
        rw [Pattern.matchAt?, Pattern.find?_eq_none_of_precedes hp hfound hbc, Option.filter_none]
      · next m =>
        split at h
        · next hlt =>
          cases h
          rw [Pattern.matchAt?, Pattern.find?_of_offset_le hp hfound hbc (Nat.le_of_lt hlt),
            Option.filter_some, if_neg (by simp; omega)]
        · split at h
          · next heq =>
            cases h
            rw [Pattern.matchAt?, Pattern.find?_of_offset_le hp hfound hbc (Nat.le_of_eq heq.symm),
              Option.filter_some, if_pos (by simpa using heq)]
          · cases h

/-- A step with a memory: the answer is the one without, and the slot is as good as before. -/
structure Answers (text : List Char) (s : Slot) (answer : Option Match)
    (result : Option Match × Slot) : Prop where
  answer_eq : result.1 = answer
  entry_eq : result.2.entry = s.entry
  recalls : result.2.Recalls text

theorem matchAt_spec {s : Slot} {c : Cursor} (hs : s.Recalls c.text) :
    Answers c.text s (s.entry.pattern.matchAt? c) (s.matchAt c) := by
  unfold matchAt
  split
  · next hp =>
    cases hanswer : s.answer? c.offset with
    | some answer => exact ⟨(answer?_eq hs hp hanswer).symm, rfl, hs⟩
    | none =>
      refine ⟨rfl, rfl, ?_⟩
      intro position found h
      cases h
      exact ⟨c, rfl, rfl, rfl⟩
  · next hp =>
    exact ⟨(Pattern.matchAt?_of_not_looksAhead (by simpa using hp) c).symm, rfl, hs⟩

theorem offerFrom_spec {text : List Char} (c : Cursor) {s : Slot} (hs : s.Recalls text)
    {starts : List Cursor} (hstarts : ∀ b ∈ starts, b.text = text) :
    Answers text s
      (starts.findSome? fun b => (s.entry.pattern.matchAt? b).filter (Match.fits c))
      (s.offerFrom c starts) := by
  induction starts generalizing s with
  | nil => exact ⟨rfl, rfl, hs⟩
  | cons b bs ih =>
    obtain ⟨rfl, hbs⟩ := List.forall_mem_cons.1 hstarts
    obtain ⟨hanswer, hentry, hanswers⟩ := matchAt_spec hs
    rw [offerFrom, List.findSome?_cons, ← hanswer]
    cases hfits : (s.matchAt b).1.filter (Match.fits c) with
    | some m => simpa [hfits] using ⟨rfl, hentry, hanswers⟩
    | none =>
      obtain ⟨hmore, hmoreEntry, hmoreRecalls⟩ := ih hanswers hbs
      rw [hentry] at hmore
      simpa [hfits] using ⟨hmore, hmoreEntry.trans hentry, hmoreRecalls⟩

end Slot

theorem Pattern.text_of_mem_starts {p : Pattern} {b c : Cursor} (h : b ∈ p.starts c) :
    b.text = c.text := by
  unfold starts at h
  split at h
  · rcases List.mem_append.1 h with hprev | hself
    · obtain ⟨⟨a, d⟩, hd, rfl⟩ := Option.map_eq_some_iff.1 (Option.mem_toList.1 hprev)
      exact Cursor.text_prev? hd
    · rw [List.mem_singleton.1 hself]
  · rw [List.mem_singleton.1 h]

namespace Slot

theorem offer_spec {s : Slot} {c : Cursor} (hs : s.Recalls c.text) :
    Answers c.text s (s.entry.pattern.offer? c) (s.offer c) :=
  offerFrom_spec c hs fun _ => Pattern.text_of_mem_starts

/-- **The entries offer with their memories what they offer without**, and their memories stay good. -/
theorem offerAmong_spec {c : Cursor} {slots : List Slot} (hs : ∀ s ∈ slots, s.Recalls c.text) :
    (offerAmong c slots).1 = offer? (slots.map entry) c ∧
      (offerAmong c slots).2.map entry = slots.map entry ∧
      ∀ s ∈ (offerAmong c slots).2, s.Recalls c.text := by
  induction slots with
  | nil => exact ⟨rfl, rfl, by simp [offerAmong]⟩
  | cons s more ih =>
    obtain ⟨hsr, hmore⟩ := List.forall_mem_cons.1 hs
    obtain ⟨hanswer, hentry, hanswers⟩ := offer_spec hsr
    obtain ⟨ihOffer, ihEntries, ihRecalls⟩ := ih hmore
    rw [offer?] at ihOffer ⊢
    rw [List.map_cons, List.findSome?_cons, ← hanswer, ← hentry]
    unfold offerAmong
    split
    · next m t hoffer =>
      rw [hoffer] at hanswers ⊢
      exact ⟨rfl, rfl, List.forall_mem_cons.2 ⟨hanswers, hmore⟩⟩
    · next t hoffer =>
      rw [hoffer] at hanswers ⊢
      exact ⟨ihOffer, by rw [List.map_cons, ihEntries],
        List.forall_mem_cons.2 ⟨hanswers, ihRecalls⟩⟩

end Slot

/-- **A cut with a memory is the cut without.** -/
theorem piecesRemembering_eq {slots : List Slot} {c : Cursor}
    (hs : ∀ s ∈ slots, s.Recalls c.text) :
    piecesRemembering slots c = pieces (slots.map Slot.entry) c := by
  fun_induction piecesRemembering slots c with
  | case1 slots c hend => rw [pieces_of_end hend]
  | case2 slots c a d hnext slots' hoffer ih =>
    obtain ⟨hanswer, hentries, hanswers⟩ := Slot.offerAmong_spec hs
    rw [hoffer] at hanswer hentries hanswers
    rw [pieces_of_offer_eq_none hnext hanswer.symm, ← hentries, ih]
    intro s hmem
    rw [Cursor.text_next? hnext]
    exact hanswers s hmem
  | case3 slots c a d hnext e m slots' hoffer ih =>
    obtain ⟨hanswer, hentries, hanswers⟩ := Slot.offerAmong_spec hs
    rw [hoffer] at hanswer hentries hanswers
    rw [pieces_of_offer? hnext hanswer.symm, ← hentries, ih]
    intro s hmem
    rw [Cursor.text_cut, Cursor.text_next? hnext]
    exact hanswers s hmem

theorem cutRemembering_eq : cutRemembering = cutAfresh := by
  funext entries text
  have hs : ∀ s ∈ entries.map Slot.fresh, s.Recalls (Cursor.ofText text).text := by
    intro s h
    obtain ⟨e, -, rfl⟩ := List.mem_map.1 h
    exact Slot.recalls_fresh _ e
  rw [cutRemembering, piecesRemembering_eq hs, List.map_map]
  exact congrArg (pieces · _) (List.map_id entries)

/-! ## Searches by byte offset -/

namespace SearchResult

theorem ofOption_eq_found_iff {found? : Option Match} {m : Match} :
    ofOption found? = found m ↔ found? = some m := by
  cases found? <;> simp [ofOption]

theorem ofOption_eq_nothing_iff {found? : Option Match} :
    ofOption found? = nothing ↔ found? = none := by
  cases found? <;> simp [ofOption]

end SearchResult

/-- The match that a search came to. -/
def SearchResult.match? : SearchResult → Option Match
  | found m => some m
  | _ => none

namespace Pattern

theorem findFrom_offset (p : Pattern) (c : Cursor) :
    p.findFrom c.text c.offset = .ofOption (p.find? c) := by
  unfold findFrom
  split
  · rw [if_pos c.offset_le_byteLength_text, Cursor.seek_offset]
  · rw [Cursor.at?_offset]
    rfl

theorem match?_findFrom_offset (p : Pattern) (c : Cursor) :
    (p.findFrom c.text c.offset).match? = p.find? c := by
  rw [findFrom_offset]
  cases p.find? c <;> rfl

theorem offer?_eq_findFrom (p : Pattern) (c : Cursor) :
    p.offer? c = (p.starts c).findSome? fun b =>
      (p.findFrom c.text b.offset).match?.filter fun m =>
        m.start = b.offset && m.contextEnd = c.offset && c.offset < m.stop := by
  rw [offer?]
  apply findSome?_congr
  intro b hb
  rw [← text_of_mem_starts hb, match?_findFrom_offset, matchAt?, Option.filter_filter]
  congr 1
  funext m
  rw [Match.fits, Bool.and_assoc]

end Pattern

/-- **A memory of the searches changes no answer.** A text has the tokens that are found when every search is
begun afresh. Then a pattern offers at a position what its search finds right where it was begun, at the
character before the position for a look-behind pattern and else at the position, with a context that ends at
the position and a token that goes beyond it. -/
theorem Grammar.tokenize_eq_tokenizeAfresh (g : Grammar) (source : String) (rescan : Bool) :
    g.tokenize source rescan = g.tokenizeAfresh source rescan ∧
      ∀ (p : Pattern) (c : Cursor), p.offer? c = (p.starts c).findSome? fun b =>
        (p.findFrom c.text b.offset).match?.filter fun m =>
          m.start = b.offset && m.contextEnd = c.offset && c.offset < m.stop := by
  refine ⟨?_, Pattern.offer?_eq_findFrom⟩
  rw [tokenize, tokenizeAfresh, cutRemembering_eq]

end Highlight
