import Highlight.Proofs.Memory
import Highlight.Proofs.Pattern.Context
import Highlight.Proofs.Regex.Lockstep

/-!
# Where the matches of a pattern end

A search from a byte offset either finds a match that begins there, or it does not. What is found there, and what
is offered there, is told by matching one way after another.
-/

namespace Highlight.Pattern

/-- The search from the offset of a position finds a match that begins there and ends at `e`. -/
def Finds (p : Pattern) (c : Cursor) (e : Nat) : Prop :=
  ∃ m, p.findFrom c.text c.offset = .found m ∧ m.start = c.offset ∧ m.stop = e

/-- A token is offered at a position that ends at `e`. -/
def Offers (p : Pattern) (c : Cursor) (e : Nat) : Prop :=
  ∃ m, p.offer? c = some m ∧ m.contextEnd = c.offset ∧ m.stop = e

variable {p : Pattern} {c : Cursor} {e : Nat}

theorem finds_iff_matchAt? : p.Finds c e ↔ (p.matchAt? c).map Match.stop = some e := by
  have hfound : ∀ m, p.findFrom c.text c.offset = .found m ↔ p.find? c = some m := by
    intro m
    rw [findFrom_offset, SearchResult.ofOption_eq_found_iff]
  rw [matchAt?, Option.map_eq_some_iff]
  constructor
  · rintro ⟨m, hm, hstart, hstop⟩
    exact ⟨m, Option.filter_eq_some_iff.2 ⟨(hfound m).1 hm, decide_eq_true hstart⟩, hstop⟩
  · rintro ⟨m, hm, hstop⟩
    obtain ⟨hm, hstart⟩ := Option.filter_eq_some_iff.1 hm
    exact ⟨m, (hfound m).2 hm, of_decide_eq_true hstart, hstop⟩

/-- **An expression finds what matching one way after another comes to.** -/
theorem finds_iff {r : Regex} (hp : p.matcher = .regex r) (hr : r.isSolid = true) :
    p.Finds c e ↔ r.backtrack (fun d => some d.offset) c = some e := by
  rw [finds_iff_matchAt?, matchAt?_regex hp, Option.map_map, ← Regex.map_stop_matchHere hr]
  rfl

theorem tokenLength?_eq {r : Regex} (hr : r.isSolid = true) :
    (tokenLength? r c).map (c.offset + ·) = r.backtrack (fun d => some d.offset) c := by
  rw [← stop_matchHere, Regex.map_stop_matchHere hr]

theorem offers_iff_length? : p.Offers c e ↔ (p.length? c).map (c.offset + ·) = some e := by
  rw [length?, Option.map_map, Option.map_eq_some_iff]
  constructor
  · rintro ⟨m, hm, -, rfl⟩
    exact ⟨m, hm, Nat.add_sub_cancel' (Nat.le_of_lt (fits_of_offer? hm).2)⟩
  · rintro ⟨m, hm, rfl⟩
    exact ⟨m, hm, (fits_of_offer? hm).1, (Nat.add_sub_cancel' (Nat.le_of_lt (fits_of_offer? hm).2)).symm⟩

end Highlight.Pattern
