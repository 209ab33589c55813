import LLMInference.Tokens

/-!
Task-complexity estimation (`app/complexity.py`).

The score blends prompt length, requested output length, reasoning keywords and the
presence of a code fence; a recognised `task_type` overrides it. The explanatory
`reasons` texts are left out: nothing modelled here reads them.
-/

namespace LLMInference

/-- `_REASONING_KEYWORDS`. -/
def reasoningKeywords : List String :=
  ["analyze", "analyse", "prove", "derive", "design", "architect", "debug", "optimize",
    "optimise", "refactor", "explain", "reason", "step by step", "step-by-step", "compare",
    "evaluate", "algorithm", "trade-off", "tradeoff", "strategy", "plan"]

/-- `_SIMPLE_KEYWORDS`. -/
def simpleKeywords : List String :=
  ["translate", "capitalize", "uppercase", "lowercase", "spell", "define", "what is", "hello",
    "hi ", "thanks", "summarize", "tl;dr", "list"]

/-- Outcome of scoring: the tier and the continuous score it was bucketed from. -/
structure ComplexityResult where
  tier : Complexity
  score : ℚ
  deriving DecidableEq, Repr

/-- `kw in text`. -/
def hasSubstring (kw text : List Char) : Bool :=
  text.tails.any kw.isPrefixOf

/-- `\b` between two neighbouring characters, `none` being an end of the text. -/
def atBoundary (ts : TextSupport) (before after : Option Char) : Bool :=
  before.any ts.isWord != after.any ts.isWord

/-- The pattern `\bkw\b` matches at the start of `text`, `before` being the character in
front of it. -/
def matchesHere (ts : TextSupport) (kw : List Char) (before : Option Char) (text : List Char) :
    Bool :=
  kw.isPrefixOf text && atBoundary ts before text.head? &&
    atBoundary ts (kw.getLast?.or before) (text.drop kw.length).head?

/-- `re.search(rf"\b{kw}\b", text)` for a literal `kw`: the pattern matches somewhere. -/
def searchWord (ts : TextSupport) (kw : List Char) (before : Option Char) : List Char → Bool
  | [] => matchesHere ts kw before []
  | c :: rest => matchesHere ts kw before (c :: rest) || searchWord ts kw (some c) rest

/-- `_keyword_hits`: phrases match as substrings, single words on word boundaries. -/
def keywordHits (ts : TextSupport) (text : String) (keywords : List String) : List String :=
  keywords.filter fun kw =>
    if ' ' ∈ kw.toList then hasSubstring kw.toList text.toList
    else searchWord ts kw.toList none text.toList

/-- The whitespace of `str.strip`. -/
def isSpace (c : Char) : Bool :=
  let n := c.toNat
  (9 ≤ n && n ≤ 13) || (28 ≤ n && n ≤ 32) || n == 0x85 || n == 0xA0 || n == 0x1680 ||
    (0x2000 ≤ n && n ≤ 0x200A) || n == 0x2028 || n == 0x2029 || n == 0x202F || n == 0x205F ||
    n == 0x3000

/-- `str.strip`. -/
def strip (s : String) : String :=
  String.ofList (((s.toList.dropWhile isSpace).reverse.dropWhile isSpace).reverse)

/-- The tier a `task_type` names, if it names one. -/
def taskTypeOverride (ts : TextSupport) (taskType : Option String) : Option Complexity :=
  match taskType with
  | none => none
  | some t =>
      if t = "" then none
      else
        let key := ts.lower (strip t)
        if key = "simple" then some .simple
        else if key = "moderate" then some .moderate
        else if key = "complex" then some .complex
        else none

/-- Score a request and bucket it into a tier. -/
def estimateComplexity (ts : TextSupport) (prompt : String) (taskType : Option String)
    (maxOutputTokens : Option ℤ) (charsPerToken : ℚ) : ComplexityResult :=
  match taskTypeOverride ts taskType with
  | some tier => { tier := tier, score := tier.level / 3 }
  | none =>
      let text := ts.lower prompt
      let promptTokens := countTokens ts prompt charsPerToken
      let lengthSignal : ℚ := min (promptTokens / 2000) 1
      let out : ℤ := maxOutputTokens.getD 0
      let outputSignal : ℚ := min (out / 2000) 1
      let reasoningHits := keywordHits ts text reasoningKeywords
      let simpleHits := keywordHits ts text simpleKeywords
      let reasoningSignal : ℚ := min (reasoningHits.length / 3) 1
      let codeSignal : ℚ := if hasSubstring ['`', '`', '`'] prompt.toList then 15 / 100 else 0
      let blend := 60 / 100 * reasoningSignal + 15 / 100 * lengthSignal +
        15 / 100 * outputSignal + codeSignal
      let adjusted := if simpleHits ≠ [] ∧ reasoningHits = [] then max 0 (blend - 15 / 100) else blend
      let score := min adjusted 1
      let tier : Complexity :=
        if 1 / 2 ≤ score then .complex else if 1 / 5 ≤ score then .moderate else .simple
      { tier := tier, score := score }

end LLMInference
