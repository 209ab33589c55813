import Mathlib.Data.List.TakeWhile
import LLMInference.Lib.Json

/-!
The strings and the numbers of JSON are read as they were written.

* `scanString_text`: the characters of a string come back, escaped or not, and those beyond the
  basic plane from their surrogate pairs.
* `scanParts_append`: a number literal is read the same before anything that does not go on with
  it; `scanParts_eq`: its parts make it up.
* `scanInteger_intText`, `readInt_intText`: an integer comes back.
-/

namespace Json

/-! ### Strings -/

theorem hexDigit?_digitChar {d : ℕ} (small : d < 16) : hexDigit? d.digitChar = some d := by
  have all : ∀ d : Fin 16, hexDigit? (Nat.digitChar d) = some (d : ℕ) := by decide
  exact all ⟨d, small⟩

theorem scanUnit_unitDigits {unit : ℕ} (small : unit < 0x10000) (rest : List Char) :
    scanUnit (unitDigits unit ++ rest) = some (unit, rest) := by
  have digit : ∀ n, hexDigit? (n % 16).digitChar = some (n % 16) := fun n =>
    hexDigit?_digitChar (Nat.mod_lt _ (by decide))
  simp only [unitDigits, List.cons_append, List.nil_append, scanUnit, digit]
  congr 2
  omega

/-- A code point that is one code unit is not half of a pair. -/
theorem scanUnits_single {v : ℕ} (small : v < 0x10000) (valid : v.isValidChar)
    (rest : List Char) : scanUnits (unitDigits v ++ rest) = some (Char.ofNat v, rest) := by
  have high : ¬ isHighSurrogate v = true := by
    simp only [isHighSurrogate, Bool.and_eq_true, decide_eq_true_eq]
    unfold Nat.isValidChar at valid
    omega
  have low : ¬ isLowSurrogate v = true := by
    simp only [isLowSurrogate, Bool.and_eq_true, decide_eq_true_eq]
    unfold Nat.isValidChar at valid
    omega
  rw [scanUnits, scanUnit_unitDigits small]
  simp only
  rw [if_neg high, if_neg low]

theorem scanUnits_high {high low : ℕ} (first : isHighSurrogate high = true)
    (second : isLowSurrogate low = true) (rest : List Char) :
    scanUnits (unitDigits high ++ (escapeUnit low ++ rest)) =
      some (Char.ofNat (0x10000 + (high - 0xd800) * 0x400 + (low - 0xdc00)), rest) := by
  have smallHigh : high < 0x10000 := by
    simp only [isHighSurrogate, Bool.and_eq_true, decide_eq_true_eq] at first
    omega
  have smallLow : low < 0x10000 := by
    simp only [isLowSurrogate, Bool.and_eq_true, decide_eq_true_eq] at second
    omega
  rw [scanUnits, scanUnit_unitDigits smallHigh]
  simp only
  rw [if_pos first, escapeUnit, List.cons_append, List.cons_append, scanLow,
    scanUnit_unitDigits smallLow]
  simp only
  rw [if_pos second]

/-- A pair makes the code point it was made of. -/
theorem scanUnits_pair {v : ℕ} (large : 0x10000 ≤ v) (valid : v.isValidChar) (rest : List Char) :
    scanUnits (unitDigits (0xd800 + (v - 0x10000) / 0x400) ++
        (escapeUnit (0xdc00 + (v - 0x10000) % 0x400) ++ rest)) = some (Char.ofNat v, rest) := by
  unfold Nat.isValidChar at valid
  generalize atHigh : 0xd800 + (v - 0x10000) / 0x400 = high
  generalize atLow : 0xdc00 + (v - 0x10000) % 0x400 = low
  have first : isHighSurrogate high = true := by
    simp only [isHighSurrogate, Bool.and_eq_true, decide_eq_true_eq]
    omega
  have second : isLowSurrogate low = true := by
    simp only [isLowSurrogate, Bool.and_eq_true, decide_eq_true_eq]
    omega
  have whole : 0x10000 + (high - 0xd800) * 0x400 + (low - 0xdc00) = v := by omega
  rw [scanUnits_high first second, whole]

theorem scanString_unit (unit n : ℕ) (cs : List Char) :
    scanString (n + 1) (escapeUnit unit ++ cs) =
      match scanUnits (unitDigits unit ++ cs) with
      | some (c, rest) => (scanString n rest).map fun found => (c :: found.1, found.2)
      | none => none := by
  simp only [escapeUnit, List.cons_append, scanString, scanEscape]
  rfl

theorem scanString_units {v : ℕ} (valid : v.isValidChar) (n : ℕ) (cs : List Char) :
    scanString (n + 1) (escapeUnits v ++ cs) =
      (scanString n cs).map fun found => (Char.ofNat v :: found.1, found.2) := by
  unfold escapeUnits
  split
  · rename_i small
    rw [scanString_unit, scanUnits_single small valid]
  · rename_i large
    rw [List.append_assoc, scanString_unit, scanUnits_pair (not_lt.mp large) valid]

theorem unescape_shortEscape {c letter : Char} (short : shortEscape c = some letter) :
    letter ≠ 'u' ∧ unescape letter = some c := by
  unfold shortEscape at short
  split_ifs at short <;> cases short <;> subst_vars <;> decide

/-- A character that needs no letter is neither a quote nor a backslash. -/
theorem ne_of_shortEscape {c : Char} (long : shortEscape c = none) : c ≠ '"' ∧ c ≠ '\\' := by
  constructor <;> rintro rfl <;> cases long

/-- One character is read for one that was written. -/
theorem scanString_escape (o : Options) (c : Char) (n : ℕ) (cs : List Char) :
    scanString (n + 1) (o.escape c ++ cs) =
      (scanString n cs).map fun found => (c :: found.1, found.2) := by
  unfold Options.escape
  cases short : shortEscape c with
  | some letter =>
      obtain ⟨notUnit, back⟩ := unescape_shortEscape short
      simp [scanString, scanEscape, notUnit, back]
  | none =>
      obtain ⟨notQuote, notSlash⟩ := ne_of_shortEscape short
      cases plain : o.plain c with
      | true =>
          have printable : ¬ c < ' ' := by
            simp only [Options.plain, Bool.and_eq_true, decide_eq_true_eq] at plain
            exact not_lt.mpr plain.1
          simp [scanString, notQuote, notSlash, printable]
      | false =>
          simp only [Bool.false_eq_true, if_false]
          rw [scanString_units (v := c.toNat) c.valid, Char.ofNat_toNat]

theorem scanString_text (o : Options) (s : List Char) {n : ℕ} (enough : s.length < n)
    (rest : List Char) : scanString n (s.flatMap o.escape ++ '"' :: rest) = some (s, rest) := by
  induction s generalizing n with
  | nil =>
      obtain ⟨n, rfl⟩ := Nat.exists_eq_succ_of_ne_zero (Nat.ne_zero_of_lt enough)
      simp [scanString]
  | cons c s ih =>
      obtain ⟨n, rfl⟩ := Nat.exists_eq_succ_of_ne_zero (Nat.ne_zero_of_lt enough)
      rw [List.flatMap_cons, List.append_assoc, scanString_escape,
        ih (Nat.lt_of_succ_lt_succ enough)]
      rfl

theorem escape_ne_nil (o : Options) (c : Char) : o.escape c ≠ [] := by
  unfold Options.escape escapeUnits
  split
  · simp
  · split
    · simp
    · split <;> simp [escapeUnit]

theorem length_le_flatMap_escape (o : Options) (s : List Char) :
    s.length ≤ (s.flatMap o.escape).length := by
  induction s with
  | nil => exact le_rfl
  | cons c s ih =>
      have := List.length_pos_of_ne_nil (escape_ne_nil o c)
      rw [List.flatMap_cons, List.length_append, List.length_cons]
      omega

/-! ### Numbers -/

/-- A character a number literal may go on with. -/
def isNumberChar (c : Char) : Bool := c.isDigit || ['.', 'e', 'E', '+', '-'].contains c

/-- What follows does not go on with a number. -/
def Delimited (rest : List Char) : Prop := ∀ c, rest.head? = some c → isNumberChar c = false

theorem delimited_cons {c : Char} {rest : List Char} (other : isNumberChar c = false) :
    Delimited (c :: rest) := by
  rintro _ ⟨⟩
  exact other

section Scanners

variable {cs rest : List Char}

theorem Delimited.takeWhile (stop : Delimited rest) :
    (cs ++ rest).takeWhile Char.isDigit = cs.takeWhile Char.isDigit ∧
      (cs ++ rest).dropWhile Char.isDigit = cs.dropWhile Char.isDigit ++ rest := by
  induction cs with
  | nil =>
      cases rest with
      | nil => simp
      | cons c rest =>
          have other : c.isDigit = false := by
            have := stop c rfl
            simp only [isNumberChar, Bool.or_eq_false_iff] at this
            exact this.1
          simp [other]
  | cons c cs ih =>
      cases digit : c.isDigit with
      | true => simp [digit, ih.1, ih.2]
      | false => simp [digit]

theorem Delimited.ne (stop : Delimited rest) {c : Char} (number : isNumberChar c = true)
    (tail : List Char) : rest ≠ c :: tail := by
  rintro rfl
  exact absurd (stop c rfl) (by simp [number])

theorem scanUnsigned_append {found : List Char × List Char} (stop : Delimited rest)
    (read : scanUnsigned cs = some found) :
    scanUnsigned (cs ++ rest) = some (found.1, found.2 ++ rest) := by
  cases cs with
  | nil => cases read
  | cons c cs =>
      simp only [List.cons_append, scanUnsigned] at read ⊢
      rw [stop.takeWhile.1, stop.takeWhile.2]
      split_ifs at read ⊢ <;> cases read <;> rfl

theorem scanInteger_append {found : List Char × List Char} (stop : Delimited rest)
    (read : scanInteger cs = some found) :
    scanInteger (cs ++ rest) = some (found.1, found.2 ++ rest) := by
  cases cs with
  | nil => cases read
  | cons c cs =>
      by_cases minus : c = '-'
      · subst minus
        obtain ⟨unsigned, here, rfl⟩ := Option.map_eq_some_iff.mp read
        simp [scanInteger, scanUnsigned_append stop here]
      · have plain : ∀ cs, scanInteger (c :: cs) = scanUnsigned (c :: cs) := by
          intro cs
          rw [scanInteger]
          rintro tail ⟨⟩
          exact minus rfl
        rw [plain] at read
        rw [List.cons_append, plain, ← List.cons_append, scanUnsigned_append stop read]

theorem scanFraction_append (stop : Delimited rest) :
    scanFraction (cs ++ rest) = ((scanFraction cs).1, (scanFraction cs).2 ++ rest) := by
  unfold scanFraction
  cases cs with
  | nil =>
      split
      · rename_i tail here
        exact absurd here (stop.ne (by decide) tail)
      · simp
  | cons c cs =>
      by_cases point : c = '.'
      · subst point
        simp only [List.cons_append, stop.takeWhile.1, stop.takeWhile.2]
        split <;> simp
      · simp [point]

theorem scanSign_append (stop : Delimited rest) :
    scanSign (cs ++ rest) = ((scanSign cs).1, (scanSign cs).2 ++ rest) := by
  cases cs with
  | nil =>
      cases rest with
      | nil => rfl
      | cons c rest =>
          have plus : c ≠ '+' := fun same => stop.ne (c := '+') (by decide) rest (by rw [same])
          have minus : c ≠ '-' := fun same => stop.ne (c := '-') (by decide) rest (by rw [same])
          simp [scanSign, plus, minus]
  | cons c cs =>
      simp only [List.cons_append, scanSign]
      split <;> simp

theorem scanExponent_append (stop : Delimited rest) :
    scanExponent (cs ++ rest) = ((scanExponent cs).1, (scanExponent cs).2 ++ rest) := by
  cases cs with
  | nil =>
      cases rest with
      | nil => rfl
      | cons c rest =>
          have lower : c ≠ 'e' := fun same => stop.ne (c := 'e') (by decide) rest (by rw [same])
          have upper : c ≠ 'E' := fun same => stop.ne (c := 'E') (by decide) rest (by rw [same])
          simp [scanExponent, lower, upper]
  | cons c cs =>
      simp only [List.cons_append, scanExponent, scanSign_append stop, stop.takeWhile.1,
        stop.takeWhile.2]
      split_ifs <;> simp

/-- A number literal is read the same before what does not go on with it. -/
theorem scanParts_append {found : (List Char × List Char × List Char) × List Char}
    (stop : Delimited rest) (read : scanParts cs = some found) :
    scanParts (cs ++ rest) = some (found.1, found.2 ++ rest) := by
  obtain ⟨integer, here, rfl⟩ := Option.map_eq_some_iff.mp read
  simp [scanParts, scanInteger_append stop here, scanFraction_append stop, scanExponent_append stop]

theorem takeWhile_digits {digits : List Char} (number : ∀ c ∈ digits, c.isDigit = true) :
    digits.takeWhile Char.isDigit = digits ∧ digits.dropWhile Char.isDigit = [] :=
  ⟨List.takeWhile_eq_self_iff.mpr number, List.dropWhile_eq_nil_iff.mpr number⟩

/-- Only zero begins with a zero. -/
theorem head_toDigits {n : ℕ} (pos : 0 < n) {c : Char} {rest : List Char}
    (digits : Nat.toDigits 10 n = c :: rest) : c ≠ '0' := by
  induction n using Nat.strong_induction_on generalizing rest with
  | _ n ih =>
      rcases lt_or_ge n 10 with small | large
      · have all : ∀ d : Fin 10, 0 < (d : ℕ) → Nat.digitChar d ≠ '0' := by decide
        rw [Nat.toDigits_of_lt_base small] at digits
        cases digits
        exact all ⟨n, small⟩ pos
      · rw [Nat.toDigits_of_base_le (by decide) large] at digits
        cases front : Nat.toDigits 10 (n / 10) with
        | nil => exact absurd front Nat.toDigits_ne_nil
        | cons c' rest' =>
            rw [front] at digits
            cases digits
            exact ih (n / 10) (by omega) (by omega) front

theorem isDigit_of_toDigits_cons {n : ℕ} {c : Char} {rest : List Char}
    (digits : Nat.toDigits 10 n = c :: rest) : c.isDigit = true :=
  Nat.isDigit_of_mem_toDigits (b := 10) (n := n) (by decide) (by decide)
    (digits ▸ List.mem_cons_self)

/-- The digits of a number are read whole. -/
theorem scanUnsigned_toDigits (n : ℕ) :
    scanUnsigned (Nat.toDigits 10 n) = some (Nat.toDigits 10 n, []) := by
  rcases Nat.eq_zero_or_pos n with rfl | pos
  · rfl
  · have number : ∀ c ∈ Nat.toDigits 10 n, c.isDigit = true := fun c mem =>
      Nat.isDigit_of_mem_toDigits (by decide) (by decide) mem
    cases digits : Nat.toDigits 10 n with
    | nil => exact absurd digits Nat.toDigits_ne_nil
    | cons c rest =>
        rw [digits] at number
        obtain ⟨taken, dropped⟩ :=
          takeWhile_digits fun c mem => number c (List.mem_cons_of_mem _ mem)
        rw [scanUnsigned, if_neg (head_toDigits pos digits), if_pos (number c List.mem_cons_self),
          taken, dropped]

theorem scanInteger_intText (n : ℤ) : scanInteger (intText n) = some (intText n, []) := by
  unfold intText
  split
  · simp [scanInteger, scanUnsigned_toDigits]
  · have unsigned := scanUnsigned_toDigits n.natAbs
    cases digits : Nat.toDigits 10 n.natAbs with
    | nil => exact absurd digits Nat.toDigits_ne_nil
    | cons c rest =>
        have digit := isDigit_of_toDigits_cons digits
        rw [digits] at unsigned
        rw [List.nil_append, scanInteger, unsigned]
        rintro tail ⟨⟩
        exact absurd digit (by decide)

theorem readInt_intText (n : ℤ) : readInt (intText n) = n := by
  unfold intText
  split
  · rename_i negative
    simp only [List.cons_append, List.nil_append, readInt]
    rw [Nat.ofDigitChars_toDigits (by decide) (by decide)]
    omega
  · rename_i positive
    cases digits : Nat.toDigits 10 n.natAbs with
    | nil => exact absurd digits Nat.toDigits_ne_nil
    | cons c rest =>
        have digit := isDigit_of_toDigits_cons digits
        rw [List.nil_append, readInt, ← digits, Nat.ofDigitChars_toDigits (by decide) (by decide)]
        · omega
        · rintro tail ⟨⟩
          exact absurd digit (by decide)

/-- An integer is a literal of one part. -/
theorem scanParts_intText (n : ℤ) : scanParts (intText n) = some ((intText n, [], []), []) := by
  rw [scanParts, scanInteger_intText]
  rfl

/-- A literal is made of its parts. -/
theorem scanUnsigned_eq {found : List Char × List Char} (read : scanUnsigned cs = some found) :
    found.1 ++ found.2 = cs ∧ ∃ c tail, cs = c :: tail ∧ c.isDigit = true := by
  cases cs with
  | nil => cases read
  | cons c cs =>
      simp only [scanUnsigned] at read
      split_ifs at read with zero digit
      · cases read
        exact ⟨by simp [zero], c, cs, rfl, by rw [zero]; decide⟩
      · cases read
        exact ⟨by simp, c, cs, rfl, digit⟩

theorem scanInteger_eq {found : List Char × List Char} (read : scanInteger cs = some found) :
    found.1 ++ found.2 = cs ∧ ∃ c tail, cs = c :: tail ∧ (c = '-' ∨ c.isDigit = true) := by
  unfold scanInteger at read
  split at read
  · obtain ⟨unsigned, here, rfl⟩ := Option.map_eq_some_iff.mp read
    exact ⟨by simp [(scanUnsigned_eq here).1], _, _, rfl, .inl rfl⟩
  · obtain ⟨whole, c, tail, starts, digit⟩ := scanUnsigned_eq read
    exact ⟨whole, c, tail, starts, .inr digit⟩

theorem scanFraction_eq (cs : List Char) : (scanFraction cs).1 ++ (scanFraction cs).2 = cs := by
  unfold scanFraction
  split
  · split <;> simp
  · rfl

theorem scanSign_eq (cs : List Char) : (scanSign cs).1 ++ (scanSign cs).2 = cs := by
  cases cs with
  | nil => rfl
  | cons c cs =>
      simp only [scanSign]
      split <;> simp

theorem scanExponent_eq (cs : List Char) : (scanExponent cs).1 ++ (scanExponent cs).2 = cs := by
  cases cs with
  | nil => rfl
  | cons c cs =>
      simp only [scanExponent]
      split_ifs
      · rfl
      · simp [scanSign_eq]
      · rfl

theorem scanParts_eq {found : (List Char × List Char × List Char) × List Char}
    (read : scanParts cs = some found) :
    found.1.1 ++ found.1.2.1 ++ found.1.2.2 ++ found.2 = cs ∧
      ∃ c tail, cs = c :: tail ∧ (c = '-' ∨ c.isDigit = true) := by
  obtain ⟨integer, here, rfl⟩ := Option.map_eq_some_iff.mp read
  obtain ⟨whole, starts⟩ := scanInteger_eq here
  exact ⟨by simp only [List.append_assoc, scanExponent_eq, scanFraction_eq, whole], starts⟩

end Scanners

end Json
