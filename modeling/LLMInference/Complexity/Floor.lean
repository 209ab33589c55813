import Mathlib.Algebra.Order.Field.Rat
import Mathlib.Tactic.Linarith
import LLMInference.Complexity

/-!
What keeps a prompt from being classified SIMPLE (`app/complexity.py`, `estimate_complexity`).

One reasoning keyword does. A code fence alone does not: `not_simple_iff` says how much prompt and
output it takes besides.
-/

namespace LLMInference

/-! ### The parts of the score -/

/-- `length_signal`. -/
def lengthSignal (ts : TextSupport) (prompt : String) (charsPerToken : ℚ) : ℚ :=
  min (countTokens ts prompt charsPerToken / 2000) 1

/-- `output_signal`. -/
def outputSignal (maxOutputTokens : Option ℤ) : ℚ :=
  min (((maxOutputTokens.getD 0 : ℤ) : ℚ) / 2000) 1

/-- `reasoning_signal`. -/
def reasoningSignal (reasoningHits : List String) : ℚ := min ((reasoningHits.length : ℚ) / 3) 1

/-- `_CODE_FENCE.search(prompt)`. -/
def hasFence (prompt : String) : Bool := hasSubstring ['`', '`', '`'] prompt.toList

/-- The score of a prompt without a recognised `task_type`. -/
def heuristicScore (ts : TextSupport) (prompt : String) (maxOutputTokens : Option ℤ)
    (charsPerToken : ℚ) : ℚ :=
  let reasoningHits := keywordHits ts (ts.lower prompt) reasoningKeywords
  let simpleHits := keywordHits ts (ts.lower prompt) simpleKeywords
  let blend := 60 / 100 * reasoningSignal reasoningHits +
    15 / 100 * lengthSignal ts prompt charsPerToken + 15 / 100 * outputSignal maxOutputTokens +
    if hasFence prompt then 15 / 100 else 0
  min (if simpleHits ≠ [] ∧ reasoningHits = [] then max 0 (blend - 15 / 100) else blend) 1

/-- The bucket of a score. -/
def tierOf (score : ℚ) : Complexity :=
  if 1 / 2 ≤ score then .complex else if 1 / 5 ≤ score then .moderate else .simple

/-- What length and output have to come to where the prompt has a fence and no reasoning
keyword. -/
def fenceFloor (ts : TextSupport) (prompt : String) : ℚ :=
  if keywordHits ts (ts.lower prompt) simpleKeywords = [] then 1 / 3 else 4 / 3

section Score

variable {ts : TextSupport} {prompt : String} {taskType : Option String}
  {maxOutputTokens : Option ℤ} {charsPerToken : ℚ}

theorem estimateComplexity_heuristic (unrecognised : taskTypeOverride ts taskType = none) :
    estimateComplexity ts prompt taskType maxOutputTokens charsPerToken =
      { tier := tierOf (heuristicScore ts prompt maxOutputTokens charsPerToken),
        score := heuristicScore ts prompt maxOutputTokens charsPerToken } := by
  unfold estimateComplexity
  rw [unrecognised]
  rfl

theorem tierOf_ne_simple_iff {score : ℚ} : tierOf score ≠ .simple ↔ 1 / 5 ≤ score := by
  unfold tierOf
  split_ifs with half fifth
  · exact iff_of_true (by decide) (le_trans (by norm_num) half)
  · exact iff_of_true (by decide) fifth
  · exact iff_of_false (not_not_intro rfl) fifth

theorem lengthSignal_nonneg : 0 ≤ lengthSignal ts prompt charsPerToken :=
  le_min (by positivity) zero_le_one

theorem outputSignal_nonneg (asked : ∀ n ∈ maxOutputTokens, 1 ≤ n) :
    0 ≤ outputSignal maxOutputTokens := by
  refine le_min (div_nonneg ?_ (by norm_num)) zero_le_one
  cases maxOutputTokens with
  | none => simp
  | some n =>
      have positive : 1 ≤ n := asked n rfl
      simp only [Option.getD_some]
      exact_mod_cast (by omega : 0 ≤ n)

/-- One reasoning keyword is worth a fifth. -/
theorem fifth_le_reasoning {hits : List String} (some' : hits ≠ []) :
    1 / 5 ≤ 60 / 100 * reasoningSignal hits := by
  have one : (1 : ℚ) ≤ hits.length := by
    exact_mod_cast List.length_pos_iff.mpr some'
  have third : 1 / 3 ≤ reasoningSignal hits := le_min (by linarith) (by norm_num)
  linarith

/-- With reasoning keywords the score is a fifth at least. -/
theorem fifth_le_of_reasoning (asked : ∀ n ∈ maxOutputTokens, 1 ≤ n)
    (reasons : keywordHits ts (ts.lower prompt) reasoningKeywords ≠ []) :
    1 / 5 ≤ heuristicScore ts prompt maxOutputTokens charsPerToken := by
  have reasoning := fifth_le_reasoning reasons
  have length : 0 ≤ lengthSignal ts prompt charsPerToken := lengthSignal_nonneg
  have output := outputSignal_nonneg asked
  have code : (0 : ℚ) ≤ if hasFence prompt then 15 / 100 else 0 := by
    split <;> norm_num
  simp only [heuristicScore, reasons, and_false, if_false]
  refine le_min ?_ (by norm_num)
  linarith

/-- Without, and with a fence, length and output decide. -/
theorem fifth_le_iff_of_fence
    (none : keywordHits ts (ts.lower prompt) reasoningKeywords = []) (fence : hasFence prompt = true) :
    1 / 5 ≤ heuristicScore ts prompt maxOutputTokens charsPerToken ↔
      fenceFloor ts prompt ≤ lengthSignal ts prompt charsPerToken + outputSignal maxOutputTokens := by
  have silent : reasoningSignal [] = 0 := by norm_num [reasoningSignal]
  simp only [heuristicScore, none, fence, silent, and_true, if_true]
  by_cases plain : keywordHits ts (ts.lower prompt) simpleKeywords = []
  · simp only [fenceFloor, plain, ne_eq, not_true_eq_false, if_false, if_true]
    rw [le_min_iff, and_iff_left (by norm_num)]
    constructor <;> intro enough <;> linarith
  · simp only [fenceFloor, plain, ne_eq, not_false_eq_true, if_true, if_false]
    rw [le_min_iff, and_iff_left (by norm_num), le_max_iff, or_iff_right (by norm_num)]
    constructor <;> intro enough <;> linarith

/-- A prompt with a reasoning keyword or a fence is not SIMPLE, if and only if it has a reasoning
keyword, or no fence, or length and output enough. -/
theorem not_simple_iff (ts : TextSupport) (prompt : String) (charsPerToken : ℚ)
    (unrecognised : taskTypeOverride ts taskType = none)
    (asked : ∀ n ∈ maxOutputTokens, 1 ≤ n) :
    ((keywordHits ts (ts.lower prompt) reasoningKeywords ≠ [] ∨ hasFence prompt = true) →
        (estimateComplexity ts prompt taskType maxOutputTokens charsPerToken).tier ≠ .simple) ↔
      keywordHits ts (ts.lower prompt) reasoningKeywords ≠ [] ∨ hasFence prompt = false ∨
        fenceFloor ts prompt ≤
          lengthSignal ts prompt charsPerToken + outputSignal maxOutputTokens := by
  rw [estimateComplexity_heuristic unrecognised, tierOf_ne_simple_iff]
  by_cases reasons : keywordHits ts (ts.lower prompt) reasoningKeywords = []
  · cases fence : hasFence prompt with
    | false => simp [reasons]
    | true =>
        have enough : 1 / 5 ≤ heuristicScore ts prompt maxOutputTokens charsPerToken ↔ _ :=
          fifth_le_iff_of_fence reasons fence
        simpa [reasons] using enough
  · exact iff_of_true (fun _ => fifth_le_of_reasoning asked reasons) (.inl reasons)

end Score

/-- A fence with a reasoning keyword. -/
theorem not_simple_iff_debug :
    (estimateComplexity .ascii "debug ```x```" none (some 16) 4).tier ≠ .simple := by
  have reasons :
      keywordHits .ascii (TextSupport.ascii.lower "debug ```x```") reasoningKeywords ≠ [] := by
    decide +kernel
  exact (not_simple_iff .ascii "debug ```x```" 4 rfl (by decide)).mpr (.inl reasons) (.inl reasons)

/-- A short prompt with a fence is SIMPLE. -/
theorem fenced_prompt_is_simple :
    hasFence "fix ```x```" = true ∧
      (estimateComplexity .ascii "fix ```x```" none (some 16) 4).tier = .simple := by
  decide +kernel

end LLMInference
