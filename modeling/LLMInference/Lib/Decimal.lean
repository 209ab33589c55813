import Mathlib.Data.Int.Log
import Mathlib.Data.Rat.Floor
import Mathlib.Tactic.FieldSimp
import Mathlib.Tactic.Positivity
import Mathlib.Tactic.Ring
import Mathlib.Tactic.NormNum

/-!
Rounding and fixed-point decimal text, over exact rationals.

* `roundHalfEven`, `roundTo`, `roundSignificant`: rounding to the nearest integer, to `d` decimal
  places, and to `d` significant digits, ties to the even neighbour.
* `formatFixed d x`: the text of `x` with exactly `d` digits after the point.
* `parseFixed`: reads such a text back. It accepts an optional sign, digits, and an
  optional point followed by digits, and nothing else.

`parseFixed_formatFixed` is the round trip: a non-negative multiple of `10 ^ (-d)`
loses nothing.
-/

namespace Decimal

/-- The integer nearest to `x`; a tie goes to the even one. -/
def roundHalfEven (x : ℚ) : ℤ :=
  let below := ⌊x⌋
  let rest := x - below
  if rest < 1 / 2 then below
  else if 1 / 2 < rest then below + 1
  else if below % 2 = 0 then below else below + 1

@[simp] theorem roundHalfEven_intCast (n : ℤ) : roundHalfEven n = n := by
  simp [roundHalfEven]

@[simp] theorem roundHalfEven_natCast (n : ℕ) : roundHalfEven n = n := by
  simpa using roundHalfEven_intCast n

/-- Rounding a fraction, in integer arithmetic. -/
theorem roundHalfEven_div (k : ℤ) {n : ℕ} (pos : 0 < n) :
    roundHalfEven (k / n) =
      if 2 * (k % n) < n then k / n
      else if n < 2 * (k % n) then k / n + 1
      else if k / n % 2 = 0 then k / n else k / n + 1 := by
  have scale : (0 : ℚ) < n := Nat.cast_pos.mpr pos
  have rest : (k : ℚ) / n - (k / n : ℤ) = (k % n : ℤ) / n := by
    have whole : (k : ℚ) = n * (k / n : ℤ) + (k % n : ℤ) := by
      exact_mod_cast (Int.mul_ediv_add_emod k n).symm
    rw [eq_div_iff scale.ne', sub_mul, div_mul_cancel₀ _ scale.ne']
    linarith
  have below : ((k % n : ℤ) : ℚ) / n < 1 / 2 ↔ 2 * (k % n) < n := by
    rw [div_lt_div_iff₀ scale two_pos, one_mul, mul_comm]
    exact_mod_cast Iff.rfl
  have above : (1 : ℚ) / 2 < (k % n : ℤ) / n ↔ n < 2 * (k % n) := by
    rw [div_lt_div_iff₀ two_pos scale, one_mul, mul_comm _ (2 : ℚ)]
    exact_mod_cast Iff.rfl
  simp only [roundHalfEven, Rat.floor_intCast_div_natCast, rest, below, above]

/-- `x` rounded to `d` decimal places. -/
def roundTo (d : ℕ) (x : ℚ) : ℚ := roundHalfEven (x * 10 ^ d) / 10 ^ d

/-- `x` rounded to `d` significant digits. -/
def roundSignificant (d : ℕ) (x : ℚ) : ℚ :=
  let scale : ℚ := 10 ^ ((d : ℤ) - 1 - Int.log 10 |x|)
  roundHalfEven (x * scale) / scale

/-- The decimal digits of `n`, filled with zeros on the left up to `d` digits. -/
def padded (d n : ℕ) : List Char :=
  List.replicate (d - (Nat.toDigits 10 n).length) '0' ++ Nat.toDigits 10 n

/-- Fixed-point text with `d` digits after the point. -/
def formatFixed (d : ℕ) (x : ℚ) : List Char :=
  let units := (roundHalfEven (|x| * 10 ^ d)).toNat
  (if x < 0 then ['-'] else []) ++ Nat.toDigits 10 (units / 10 ^ d) ++
    '.' :: padded d (units % 10 ^ d)

/-- A nonempty run of digits, as a number. -/
def digits? (cs : List Char) : Option ℕ :=
  if cs ≠ [] ∧ cs.all Char.isDigit = true then some (Nat.ofDigitChars 10 cs 0) else none

def parseUnsigned (cs : List Char) : Option ℚ :=
  match cs.dropWhile (· ≠ '.') with
  | [] => (digits? (cs.takeWhile (· ≠ '.'))).map fun whole => (whole : ℚ)
  | _ :: frac =>
      match digits? (cs.takeWhile (· ≠ '.')), digits? frac with
      | some whole, some part => some (whole + part / 10 ^ frac.length)
      | _, _ => none

/-- Read fixed-point text. -/
def parseFixed : List Char → Option ℚ
  | '-' :: cs => (parseUnsigned cs).map fun x => -x
  | cs => parseUnsigned cs

/-! ### The round trip -/

theorem isDigit_of_mem_toDigits {n : ℕ} {c : Char} (mem : c ∈ Nat.toDigits 10 n) :
    c.isDigit = true :=
  Nat.isDigit_of_mem_toDigits (by decide) (by decide) mem

theorem isDigit_of_mem_padded {d n : ℕ} {c : Char} (mem : c ∈ padded d n) :
    c.isDigit = true := by
  rcases List.mem_append.mp mem with zero | digit
  · rw [(List.mem_replicate.mp zero).2]
    decide
  · exact isDigit_of_mem_toDigits digit

theorem length_padded {d n : ℕ} (pos : 0 < d) (small : n < 10 ^ d) : (padded d n).length = d := by
  have short := (Nat.length_toDigits_le_iff (b := 10) (by decide) pos).mpr small
  simp only [padded, List.length_append, List.length_replicate]
  omega

@[simp] theorem digits?_toDigits (n : ℕ) : digits? (Nat.toDigits 10 n) = some n := by
  have all : (Nat.toDigits 10 n).all Char.isDigit = true :=
    List.all_eq_true.mpr fun _ mem => isDigit_of_mem_toDigits mem
  simp [digits?, all]

@[simp] theorem digits?_padded (d n : ℕ) : digits? (padded d n) = some n := by
  have all : (padded d n).all Char.isDigit = true :=
    List.all_eq_true.mpr fun _ mem => isDigit_of_mem_padded mem
  have ne : padded d n ≠ [] := by simp [padded]
  rw [digits?, if_pos ⟨ne, all⟩, padded, Nat.ofDigitChars_append, Nat.ofDigitChars_replicate_zero]
  simp

theorem ne_of_isDigit {c e : Char} (digit : c.isDigit = true) (not : e.isDigit = false) : c ≠ e := by
  rintro rfl
  rw [digit] at not
  cases not

/-- The point splits digits from digits. -/
theorem parseUnsigned_point {whole frac : List Char} (digits : ∀ c ∈ whole, c.isDigit = true) :
    parseUnsigned (whole ++ '.' :: frac) =
      match digits? whole, digits? frac with
      | some w, some p => some (w + p / 10 ^ frac.length)
      | _, _ => none := by
  have noPoint : ∀ c ∈ whole, decide (c ≠ '.') = true := fun c mem =>
    decide_eq_true (ne_of_isDigit (digits c mem) (by decide))
  have dropped : (whole ++ '.' :: frac).dropWhile (· ≠ '.') = '.' :: frac := by
    rw [List.dropWhile_append_of_pos noPoint]
    rfl
  have taken : (whole ++ '.' :: frac).takeWhile (· ≠ '.') = whole := by
    rw [List.takeWhile_append_of_pos noPoint]
    simp
  simp only [parseUnsigned, dropped, taken]

/-- A non-negative multiple of `10 ^ (-d)` is written without loss. -/
theorem formatFixed_units {d : ℕ} (n : ℕ) :
    formatFixed d ((n : ℚ) / 10 ^ d) = Nat.toDigits 10 (n / 10 ^ d) ++ '.' :: padded d (n % 10 ^ d) := by
  have scaled : |(n : ℚ) / 10 ^ d| * 10 ^ d = (n : ℚ) := by
    rw [abs_of_nonneg (by positivity)]
    field_simp
  have nonneg : ¬ (n : ℚ) / 10 ^ d < 0 := not_lt.mpr (by positivity)
  simp [formatFixed, scaled, nonneg]

theorem parseFixed_formatFixed {d : ℕ} (pos : 0 < d) (n : ℕ) :
    parseFixed (formatFixed d ((n : ℚ) / 10 ^ d)) = some ((n : ℚ) / 10 ^ d) := by
  have digits : ∀ c ∈ Nat.toDigits 10 (n / 10 ^ d), c.isDigit = true := fun _ =>
    isDigit_of_mem_toDigits
  have unsigned : ∀ tail, parseFixed (Nat.toDigits 10 (n / 10 ^ d) ++ tail) =
      parseUnsigned (Nat.toDigits 10 (n / 10 ^ d) ++ tail) := by
    intro tail
    cases whole : Nat.toDigits 10 (n / 10 ^ d) with
    | nil => exact absurd whole Nat.toDigits_ne_nil
    | cons c cs =>
        have ne : c ≠ '-' :=
          ne_of_isDigit (digits c (by simp [whole])) (by decide)
        rw [List.cons_append, parseFixed]
        intro cs' eq
        exact ne (List.cons.inj eq).1
  have width : (padded d (n % 10 ^ d)).length = d :=
    length_padded pos (Nat.mod_lt _ (by positivity))
  rw [formatFixed_units, unsigned, parseUnsigned_point digits]
  simp only [digits?_toDigits, digits?_padded, width]
  have split : (n : ℚ) = 10 ^ d * (n / 10 ^ d : ℕ) + (n % 10 ^ d : ℕ) := by
    exact_mod_cast (Nat.div_add_mod n (10 ^ d)).symm
  congr 1
  conv_rhs => rw [split]
  field_simp

example : formatFixed 4 (1 / 8) = ['0', '.', '1', '2', '5', '0'] := by decide +kernel

example : parseFixed ['-', '1', '2', '.', '5'] = some (-25 / 2) := by decide +kernel

end Decimal
