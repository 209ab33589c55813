import Mathlib.Tactic.NormNum

/-!
Fixed-width hexadecimal text.

`hexText width n` has at least `width` digits, zeros on the left. Reading the digits back
recovers `n` whatever the width (`hexValue_hexText`), so the text determines the number.
-/

namespace Hex

/-- The hexadecimal digits of `n`, filled with zeros on the left up to `width` digits. -/
def hexText (width n : ℕ) : List Char :=
  List.replicate (width - (Nat.toDigits 16 n).length) '0' ++ Nat.toDigits 16 n

/-- The value of a lower-case hexadecimal digit. -/
def digitValue (c : Char) : ℕ := if c.isDigit then c.toNat - 48 else c.toNat - 87

def hexValue (cs : List Char) : ℕ := cs.foldl (fun acc c => 16 * acc + digitValue c) 0

theorem digitValue_digitChar {d : ℕ} (small : d < 16) : digitValue d.digitChar = d := by
  have all : ∀ d : Fin 16, digitValue (Nat.digitChar d) = d := by decide
  exact all ⟨d, small⟩

theorem hexValue_append_digit (cs : List Char) {d : ℕ} (small : d < 16) :
    hexValue (cs ++ [d.digitChar]) = 16 * hexValue cs + d := by
  simp [hexValue, digitValue_digitChar small]

theorem hexValue_toDigits (n : ℕ) : hexValue (Nat.toDigits 16 n) = n := by
  induction n using Nat.strong_induction_on with
  | _ n ih =>
      rw [Nat.toDigits_eq_if (by decide)]
      split
      · rename_i small
        exact (hexValue_append_digit [] small).trans (by simp [hexValue])
      · rename_i large
        rw [hexValue_append_digit _ (Nat.mod_lt _ (by decide)), ih (n / 16) (by omega)]
        omega

theorem hexValue_hexText (width n : ℕ) : hexValue (hexText width n) = n := by
  have zeros : ∀ k cs, hexValue (List.replicate k '0' ++ cs) = hexValue cs := by
    intro k cs
    induction k with
    | zero => rfl
    | succ k ih => exact ih
  rw [hexText, zeros, hexValue_toDigits]

theorem hexText_injective (width : ℕ) {n m : ℕ} (same : hexText width n = hexText width m) :
    n = m := by
  rw [← hexValue_hexText width n, same, hexValue_hexText]

/-- Hexadecimal digits are not colons. -/
theorem colon_notMem_hexText (width n : ℕ) : ':' ∉ hexText width n := by
  have digit : ∀ d : Fin 16, Nat.digitChar d ≠ ':' := by decide
  have digits : ':' ∉ Nat.toDigits 16 n := by
    induction n using Nat.strong_induction_on with
    | _ n ih =>
        rw [Nat.toDigits_eq_if (by decide)]
        split
        · rename_i small
          exact fun mem => digit ⟨n, small⟩ (List.mem_singleton.mp mem).symm
        · rename_i large
          intro mem
          rcases List.mem_append.mp mem with front | last
          · exact ih (n / 16) (by omega) front
          · exact digit ⟨n % 16, Nat.mod_lt _ (by decide)⟩ (List.mem_singleton.mp last).symm
  intro mem
  rcases List.mem_append.mp mem with zero | digit
  · exact absurd (List.mem_replicate.mp zero).2 (by decide)
  · exact digits digit

end Hex
