import LLMInference.Config

/-!
Text facilities and token estimation (`app/tokens.py`).

`TextSupport` collects what the code takes from outside the repository: the optional
tokenizer, and the Unicode tables of the standard library that decide keyword matching
and how values are printed. Everything else is computed here.
-/

namespace LLMInference

/-- What the host provides for text. -/
structure TextSupport where
  /-- `tiktoken`, when it is installed: the length of the encoding, `none` when the
  encoder raises. -/
  encode : Option (String → Option ℕ)
  /-- `str.lower`. -/
  lower : String → String
  /-- `\w` of the `re` module. -/
  isWord : Char → Bool
  /-- `repr` of a string. -/
  repr : String → String
  /-- `str` of a float. -/
  floatText : ℚ → String

/-- A host without a tokenizer, on which only ASCII letters have a case. -/
def TextSupport.ascii : TextSupport where
  encode := none
  lower s := String.ofList (s.toList.map Char.toLower)
  isWord c := c.isAlphanum || c == '_'
  repr s := "'" ++ s ++ "'"
  floatText x := String.ofList (Decimal.formatFixed 1 x)

/-- Estimated token count for `text`: the tokenizer's where there is one, otherwise
`len(text) / chars_per_token`, never 0 for a nonempty text. Where `chars_per_token` is 0 the source
divides by it and raises, and this counts 1. -/
def countTokens (ts : TextSupport) (text : String) (charsPerToken : ℚ) : ℕ :=
  let heuristic := (max 1 (Decimal.roundHalfEven (text.length / charsPerToken))).toNat
  if text = "" then 0
  else
    match ts.encode with
    | none => heuristic
    | some encode => (encode text).getD heuristic

/-- Projected completion length used for pre-call cost estimation: about 75% of the
requested ceiling, or of the default one. -/
def estimateOutputTokens (requestedMax : Option ℤ) (defaultMax : ℤ) : ℕ :=
  let ceiling := match requestedMax with
    | some n => if 0 < n then n else defaultMax
    | none => defaultMax
  (max 1 (Decimal.roundHalfEven (ceiling * (3 / 4)))).toNat

/-- The projection of a ceiling the caller gave, in integer arithmetic. -/
theorem estimateOutputTokens_some {n : ℤ} (asked : 1 ≤ n) (defaultMax : ℤ) :
    (estimateOutputTokens (some n) defaultMax : ℤ) =
      if 3 * n % 4 < 2 then 3 * n / 4
      else if 2 < 3 * n % 4 then 3 * n / 4 + 1
      else if 3 * n / 4 % 2 = 0 then 3 * n / 4 else 3 * n / 4 + 1 := by
  have quarters : (n : ℚ) * (3 / 4) = (3 * n : ℤ) / (4 : ℕ) := by
    push_cast
    ring
  have rounded := Decimal.roundHalfEven_div (3 * n) (n := 4) (by norm_num)
  simp only [estimateOutputTokens, if_pos (show 0 < n by omega), quarters, rounded]
  push_cast
  split_ifs <;> omega

/-- Two ceilings that differ are projected alike. -/
def Merged (n n' : ℤ) : Prop :=
  (n' = n + 1 ∧ (n % 8 = 2 ∨ n % 8 = 5)) ∨ (n = n' + 1 ∧ (n' % 8 = 2 ∨ n' % 8 = 5))

instance (n n' : ℤ) : Decidable (Merged n n') :=
  inferInstanceAs (Decidable (_ ∨ _))

/-- Only a ceiling of one or two tokens is its own projection. -/
theorem estimateOutputTokens_eq_iff {n : ℤ} (asked : 1 ≤ n) (defaultMax : ℤ) :
    (estimateOutputTokens (some n) defaultMax : ℤ) = n ↔ n ≤ 2 := by
  rw [estimateOutputTokens_some asked]
  split_ifs <;> omega

/-- Rounding moves three quarters of the ceiling by half a token at most. -/
theorem estimateOutputTokens_near {n : ℤ} (asked : 1 ≤ n) (defaultMax : ℤ) :
    3 * n - 2 ≤ 4 * (estimateOutputTokens (some n) defaultMax : ℤ) ∧
      4 * (estimateOutputTokens (some n) defaultMax : ℤ) ≤ 3 * n + 2 := by
  rw [estimateOutputTokens_some asked]
  split_ifs <;> constructor <;> omega

/-- Where a ceiling and the next one round alike. -/
theorem estimateOutputTokens_succ_eq_iff {n : ℤ} (asked : 1 ≤ n) (d d' : ℤ) :
    estimateOutputTokens (some n) d = estimateOutputTokens (some (n + 1)) d' ↔
      n % 8 = 2 ∨ n % 8 = 5 := by
  rw [← Int.natCast_inj, estimateOutputTokens_some asked,
    estimateOutputTokens_some (by omega : 1 ≤ n + 1)]
  split_ifs <;> omega

/-- Ceilings two apart are projected apart. -/
theorem estimateOutputTokens_lt {n n' : ℤ} (asked : 1 ≤ n) (apart : n + 2 ≤ n') (d d' : ℤ) :
    estimateOutputTokens (some n) d < estimateOutputTokens (some n') d' := by
  have low := (estimateOutputTokens_near asked d).2
  have high := (estimateOutputTokens_near (by omega : 1 ≤ n') d').1
  omega

theorem estimateOutputTokens_inj_iff {n n' : ℤ} (asked : 1 ≤ n) (asked' : 1 ≤ n') (d d' : ℤ) :
    estimateOutputTokens (some n) d = estimateOutputTokens (some n') d' ↔
      n = n' ∨ Merged n n' := by
  have same : n = n' → estimateOutputTokens (some n) d = estimateOutputTokens (some n') d' := by
    rintro rfl
    rw [← Int.natCast_inj, estimateOutputTokens_some asked, estimateOutputTokens_some asked]
  have next := estimateOutputTokens_succ_eq_iff asked d d'
  have next' := estimateOutputTokens_succ_eq_iff asked' d' d
  unfold Merged
  rcases (by omega : n + 2 ≤ n' ∨ n' = n + 1 ∨ n = n' ∨ n = n' + 1 ∨ n' + 2 ≤ n) with
    below | rfl | eq | rfl | above
  · have apart := estimateOutputTokens_lt asked below d d'
    omega
  · rw [next]
    omega
  · exact iff_of_true (same eq) (.inl eq)
  · rw [eq_comm, next']
    omega
  · have apart := estimateOutputTokens_lt asked' above d' d
    omega

end LLMInference
