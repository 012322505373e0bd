import Highlight.Regex.Escape

/-!
# Digits

Numbers are read back from their digits: decimal numbers as the library does (`Nat.ofDigitChars_ten_toDigits`),
hexadecimal ones as the escapes of expressions are (`hexNumber?_toDigits`), and characters from their code points.
Only zero begins with a zero.
-/

namespace Highlight

open Regex (hexDigit? hexNumber? charAt?)

theorem charAt?_toNat (c : Char) : charAt? c.toNat = some c := by
  have hvalid : c.toNat.isValidChar := c.valid
  have hc := Char.ofNat_toNat c
  rw [Char.ofNat, dif_pos hvalid] at hc
  rw [charAt?, dif_pos hvalid, hc]

theorem hexDigit?_digitChar {n : Nat} (h : n < 16) : hexDigit? n.digitChar = some n := by
  have hall : ∀ k < 16, hexDigit? k.digitChar = some k := by decide
  exact hall n h

theorem foldlM_hexDigit?_toDigits (n : Nat) :
    (Nat.toDigits 16 n).foldlM (fun m c => (hexDigit? c).map (16 * m + ·)) 0 = some n := by
  induction n using Nat.strongRecOn with
  | ind n ih =>
    rw [Nat.toDigits_eq_if (by decide)]
    split
    · next h => simp [hexDigit?_digitChar h]
    · next h =>
      have hlast : hexDigit? (n % 16).digitChar = some (n % 16) :=
        hexDigit?_digitChar (Nat.mod_lt n (by decide))
      rw [List.foldlM_append, ih (n / 16) (by omega)]
      simp [hlast, Nat.div_add_mod]

/-- **A number is read back from its hexadecimal digits.** -/
theorem hexNumber?_toDigits (n : Nat) : hexNumber? (Nat.toDigits 16 n) = some n := by
  rw [hexNumber?, if_neg (by simp [Nat.toDigits_ne_nil]), foldlM_hexDigit?_toDigits]

theorem isSome_hexDigit?_of_mem_toDigits {n : Nat} {c : Char} (h : c ∈ Nat.toDigits 16 n) :
    (hexDigit? c).isSome = true := by
  induction n using Nat.strongRecOn with
  | ind n ih =>
    rw [Nat.toDigits_eq_if (by decide)] at h
    split at h
    · next hn =>
      rw [List.mem_singleton.1 h, hexDigit?_digitChar hn]
      rfl
    · rcases List.mem_append.1 h with h | h
      · exact ih (n / 16) (by omega) h
      · rw [List.mem_singleton.1 h, hexDigit?_digitChar (Nat.mod_lt n (by decide))]
        rfl

theorem head?_toDigits_ne {n : Nat} (h : n ≠ 0) : (Nat.toDigits 10 n).head? ≠ some '0' := by
  induction n using Nat.strongRecOn with
  | ind n ih =>
    rw [Nat.toDigits_eq_if (by decide)]
    split
    · simpa using h
    · next hn =>
      rw [List.head?_append, Option.or_of_isSome (by simp [Nat.toDigits_ne_nil])]
      exact ih (n / 10) (by omega) (by omega)

theorem isDigit_of_mem_toDigits {n : Nat} {c : Char} (h : c ∈ Nat.toDigits 10 n) :
    c.isDigit = true :=
  Nat.isDigit_of_mem_toDigits (by decide) (by decide) h

theorem span_append {p : Char → Bool} {cs rest : List Char} (hcs : ∀ c ∈ cs, p c = true)
    (hrest : ∀ c ∈ rest.head?, p c = false) :
    (cs ++ rest).takeWhile p = cs ∧ (cs ++ rest).dropWhile p = rest := by
  rw [List.takeWhile_append_of_pos hcs, List.dropWhile_append_of_pos hcs]
  cases rest with
  | nil => exact ⟨List.append_nil _, rfl⟩
  | cons c rest =>
    have hc : p c ≠ true := by simpa using hrest c rfl
    rw [List.takeWhile_cons_of_neg hc, List.append_nil, List.dropWhile_cons_of_neg hc]
    exact ⟨rfl, rfl⟩

end Highlight
