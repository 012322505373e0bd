import Highlight.Proofs.Pattern.Finds
import Mathlib.Data.Bool.AllAny

/-!
# The way that an expression prefers

An expression is read one way after another, and the first way counts behind which nothing fails. `Prefers r c d` says
that the first way of all leads from `c` to `d`. Such ways are put together as the expression is: `Prefers.cat` and
its fellows follow the constructors, and an alternative is left out, or a loop left, where its expression leads
nowhere. `Takes r v w` says the same of texts, for an expression that does not ask for what is before it: in front of
`w` it prefers `v`.

What is preferred is what a pattern offers (`Pattern.length?_of_prefers`).
-/

namespace Highlight

/-- The first character of the text, if there is one, has the property. -/
def Opens (P : Char → Prop) (w : List Char) : Prop :=
  ∀ a ∈ w.head?, P a

namespace Opens

variable {P Q : Char → Prop} {v w : List Char}

theorem nil : Opens P [] :=
  nofun

theorem cons {a : Char} (ha : P a) (v : List Char) : Opens P (a :: v) := by
  intro b hb
  rwa [← Option.some.inj hb]

theorem append (hv : Opens P v) (hw : Opens P w) : Opens P (v ++ w) := by
  cases v with
  | nil => exact hw
  | cons a v => exact hv

theorem mono (h : Opens P w) (hPQ : ∀ a, P a → Q a) : Opens Q w :=
  fun a ha => hPQ a (h a ha)

theorem of_all [DecidablePred Q] {cs : List Char} (h : Opens (· ∈ cs) w) (hall : cs.all (Q ·) = true) :
    Opens Q w :=
  h.mono (List.all_iff_forall_prop.1 hall)

end Opens

namespace Regex

/-- The way through the expression that is tried first leads from `c` to `d`. -/
def Prefers (r : Regex) (c d : Cursor) : Prop :=
  ∀ (β : Type) (k : Onward β) (x : β), k d = some x → r.backtrack k c = some x

namespace Prefers

variable {r s : Regex} {c d e : Cursor}

theorem set {S : CharSet} {a : Char} (hnext : c.next? = some (a, d)) (ha : S.mem a = true) :
    (Regex.set S).Prefers c d := by
  intro β k x hk
  rw [backtrack_set, Cursor.over?_of_next hnext, if_pos ha]
  exact hk

theorem char {a : Char} (hnext : c.next? = some (a, d)) : (Regex.char a).Prefers c d :=
  set hnext (by rw [CharSet.mem_single, decide_eq_true_eq])

theorem look {a : Assertion} (ha : a.holds c.gap = true) : (Regex.look a).Prefers c c := by
  intro β k x hk
  rw [backtrack_look, if_pos ha]
  exact hk

theorem cat (hr : r.Prefers c e) (hs : s.Prefers e d) : (Regex.cat r s).Prefers c d :=
  fun β _ x hk => hr β _ x (hs β _ x hk)

theorem left (hr : r.Prefers c d) : (Regex.alt r s).Prefers c d := by
  intro β k x hk
  rw [backtrack_alt, hr β k x hk, Option.some_or]

theorem right (hr : ∀ e, ¬ r.Leads c e) (hs : s.Prefers c d) : (Regex.alt r s).Prefers c d := by
  intro β k x hk
  rw [backtrack_alt, backtrack_eq_none hr, Option.none_or]
  exact hs β k x hk

theorem enter_cat (hn : r.nullable = false) (h : (Regex.cat r (.cat (star r true) s)).Prefers c d) :
    (Regex.cat (star r true) s).Prefers c d := by
  intro β k x hk
  have hpass : r.backtrack ((star r true).backtrack (s.backtrack k)) c = some x := h β k x hk
  rw [backtrack_cat, backtrack_star hn, prefer_true, hpass, Option.some_or]

theorem enter (hn : r.nullable = false) (h : (Regex.cat r (star r true)).Prefers c d) :
    (star r true).Prefers c d :=
  enter_cat (s := .empty) hn h

theorem leave (hn : r.nullable = false) (hr : ∀ e, ¬ r.Leads c e) : (star r true).Prefers c c := by
  intro β k x hk
  rw [backtrack_star hn, prefer_true, backtrack_eq_none hr, Option.none_or]
  exact hk

theorem once (hr : r.Prefers c d) : (upTo r 1 true).Prefers c d := by
  intro β k x hk
  have hthen : r.backtrack ((upTo r 0 true).backtrack k) c = some x := hr β k x hk
  rw [backtrack_upTo_succ, prefer_true, hthen, Option.some_or]

theorem without (hr : ∀ e, ¬ r.Leads c e) : (upTo r 1 true).Prefers c c := by
  intro β k x hk
  rw [backtrack_upTo_succ, prefer_true, backtrack_eq_none hr, Option.none_or]
  exact hk

end Prefers

/-- Before `v ++ w` the way through the expression that is tried first leads over `v`. -/
def Takes (r : Regex) (v w : List Char) : Prop :=
  ∀ before, r.Prefers (.behind before (v ++ w)) (.behind (before ++ v) w)

section

variable {S : CharSet} {r s : Regex} {v v' w : List Char}

theorem not_leads_set (hw : Opens (fun a => S.mem a = false) w) (before : List Char) (e : Cursor) :
    ¬ (set S).Leads (.behind before w) e := by
  rintro ⟨a, hnext, ha⟩
  have hhead : w = a :: e.rest := (Cursor.next?_eq_some.1 hnext).1
  rw [hw a (by rw [hhead]; rfl)] at ha
  cases ha

theorem not_leads_cat {c : Cursor} (hr : ∀ e, ¬ r.Leads c e) (e : Cursor) : ¬ (cat r s).Leads c e :=
  fun ⟨f, hf, _⟩ => hr f hf

theorem not_leads_plus {c : Cursor} (hr : ∀ e, ¬ r.Leads c e) (e : Cursor) :
    ¬ (plus r true).Leads c e :=
  fun ⟨f, hf, _⟩ => hr f hf

namespace Takes

theorem set {a : Char} (ha : S.mem a = true) (w : List Char) : (Regex.set S).Takes [a] w :=
  fun before => .set (Cursor.next?_behind before a w) ha

theorem char (a : Char) (w : List Char) : (Regex.char a).Takes [a] w :=
  fun before => .char (Cursor.next?_behind before a w)

theorem cat (hr : r.Takes v (v' ++ w)) (hs : s.Takes v' w) : (Regex.cat r s).Takes (v ++ v') w := by
  intro before
  rw [List.append_assoc, ← List.append_assoc before]
  exact (hr before).cat (hs (before ++ v))

theorem once (hr : r.Takes v w) : (upTo r 1 true).Takes v w :=
  fun before => .once (hr before)

theorem without (hr : ∀ before e, ¬ r.Leads (.behind before w) e) : (upTo r 1 true).Takes [] w := by
  intro before
  rw [List.append_nil]
  exact .without (hr before)

theorem leave (hn : r.nullable = false) (hr : ∀ before e, ¬ r.Leads (.behind before w) e) :
    (star r true).Takes [] w := by
  intro before
  rw [List.append_nil]
  exact .leave hn (hr before)

end Takes

end

end Regex
/-- **A pattern offers what its expression prefers**, if that is something. -/
theorem Pattern.length?_of_prefers {p : Pattern} {r : Regex} (hp : p.matcher = .regex r)
    (hl : p.lookbehind = false) (hr : r.isSolid = true) {before v w : List Char} (hv : v ≠ [])
    (h : r.Prefers (.behind before (v ++ w)) (.behind (before ++ v) w)) :
    p.length? (.behind before (v ++ w)) = some (byteLength v) := by
  have hends : ends? [[⟨r, 0⟩]] (.behind before (v ++ w)) = some (byteLength (before ++ v)) := by
    rw [ends?_eq hr]
    exact h _ _ _ rfl
  obtain ⟨cs, hreads, hlength⟩ := Option.map_eq_some_iff.1 hends
  have hcs : byteLength cs = byteLength v := by
    have hsum : byteLength before + byteLength cs = byteLength (before ++ v) := hlength
    rw [byteLength_append] at hsum
    omega
  rw [length?_regex hp hl, hreads, Option.map_some, hcs, Option.filter_some,
    if_pos (decide_eq_true (byteLength_pos.2 hv))]

end Highlight
