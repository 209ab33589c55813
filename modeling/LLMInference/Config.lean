import LLMInference.Lib.Decimal

/-!
Configuration: the model catalog, pricing, and runtime settings (`app/config.py`).

Money, prices and times are exact rationals. A setting nothing in this development
reads (connection strings, provider timeouts) is left out.
-/

namespace LLMInference

/-- Task complexity tiers, ordered by `Complexity.level`. -/
inductive Complexity where
  | simple
  | moderate
  | complex
  deriving DecidableEq, Repr

namespace Complexity

/-- The integer value of the tier. -/
def level : Complexity → ℕ
  | .simple => 1
  | .moderate => 2
  | .complex => 3

def name : Complexity → String
  | .simple => "SIMPLE"
  | .moderate => "MODERATE"
  | .complex => "COMPLEX"

instance : LE Complexity := ⟨fun a b => a.level ≤ b.level⟩

instance (a b : Complexity) : Decidable (a ≤ b) :=
  inferInstanceAs (Decidable (a.level ≤ b.level))

end Complexity

/-- Static description of a single deployable model. Prices are USD per 1,000
tokens, split between prompt and completion. -/
structure ModelSpec where
  name : String
  /-- The highest complexity this model is trusted to handle. -/
  tier : Complexity
  inputPricePer1k : ℚ
  outputPricePer1k : ℚ
  maxContextTokens : ℕ
  deriving DecidableEq, Repr

namespace ModelSpec

/-- USD cost of a call given input and output token counts. -/
def cost (m : ModelSpec) (inputTokens outputTokens : ℕ) : ℚ :=
  inputTokens / 1000 * m.inputPricePer1k + outputTokens / 1000 * m.outputPricePer1k

/-- No price is negative. -/
def Priced (m : ModelSpec) : Prop := 0 ≤ m.inputPricePer1k ∧ 0 ≤ m.outputPricePer1k

instance (m : ModelSpec) : Decidable m.Priced :=
  inferInstanceAs (Decidable (_ ∧ _))

theorem cost_nonneg {m : ModelSpec} (priced : m.Priced) (i o : ℕ) : 0 ≤ m.cost i o := by
  have hi := mul_nonneg (div_nonneg (Nat.cast_nonneg (α := ℚ) i) (by norm_num : (0 : ℚ) ≤ 1000))
    priced.1
  have ho := mul_nonneg (div_nonneg (Nat.cast_nonneg (α := ℚ) o) (by norm_num : (0 : ℚ) ≤ 1000))
    priced.2
  exact add_nonneg hi ho

/-- Fewer tokens never cost more. -/
theorem cost_mono {m : ModelSpec} (priced : m.Priced) {i i' o o' : ℕ} (hi : i ≤ i') (ho : o ≤ o') :
    m.cost i o ≤ m.cost i' o' := by
  have scaled : ∀ {a b : ℕ}, a ≤ b → (a : ℚ) / 1000 ≤ b / 1000 := fun h =>
    div_le_div_of_nonneg_right (Nat.cast_le.mpr h) (by norm_num)
  exact add_le_add (mul_le_mul_of_nonneg_right (scaled hi) priced.1)
    (mul_le_mul_of_nonneg_right (scaled ho) priced.2)

end ModelSpec

/-- `DEFAULT_CATALOG`. -/
def defaultCatalog : List ModelSpec :=
  [ { name := "small", tier := .simple, inputPricePer1k := 1 / 4000,
      outputPricePer1k := 1 / 800, maxContextTokens := 16000 },
    { name := "medium", tier := .moderate, inputPricePer1k := 3 / 1000,
      outputPricePer1k := 15 / 1000, maxContextTokens := 200000 },
    { name := "large", tier := .complex, inputPricePer1k := 15 / 1000,
      outputPricePer1k := 75 / 1000, maxContextTokens := 200000 } ]

/-- Runtime knobs, with the defaults of the source. -/
structure Settings where
  /-- Budget granted to a request when the caller does not pass one. -/
  defaultRequestBudgetUsd : ℚ := 1 / 2
  /-- Hard ceiling on spend per user per rolling window (enforced by the ledger). -/
  defaultUserDailyBudgetUsd : ℚ := 25
  minReplicas : ℤ := 1
  maxReplicas : ℤ := 20
  /-- How many concurrent in-flight requests one replica is sized to handle. -/
  targetConcurrencyPerReplica : ℚ := 4
  scaleDownCooldownS : ℚ := 60
  scaleUpCooldownS : ℚ := 10
  charsPerToken : ℚ := 4
  defaultMaxOutputTokens : ℤ := 512
  /-- `cache_backend != "none"`. -/
  cacheEnabled : Bool := true
  /-- `cache_backend == "redis"`: a call of the cache suspends. -/
  cacheNetworked : Bool := false
  cacheTtlS : ℚ := 300
  cacheMaxEntries : ℤ := 1024
  /-- Longest wait for capacity before a request is shed; `≤ 0` waits forever. -/
  admissionTimeoutS : ℚ := 30
  rateLimitEnabled : Bool := true
  rateLimitBurst : ℚ := 20
  rateLimitPerSecond : ℚ := 5
  breakerFailureThreshold : ℤ := 5
  breakerRecoveryTimeoutS : ℚ := 30
  fallbackEnabled : Bool := true
  catalog : List ModelSpec := defaultCatalog

/-- No model of the catalog has a negative price. -/
def Settings.Priced (s : Settings) : Prop := ∀ m ∈ s.catalog, m.Priced

instance (s : Settings) : Decidable s.Priced :=
  inferInstanceAs (Decidable (∀ m ∈ s.catalog, m.Priced))

end LLMInference
