import LLMInference.Complexity
import LLMInference.Lib.Hex
import LLMInference.Lib.PyValue
import LLMInference.Providers

/-!
The streaming half of the vLLM provider (`app/providers/vllm.py`).

An `Attempt` is what one HTTP request meets. `readLines` is the loop over the lines of a
response, `attemptStream` one pass of the retry loop, and `generateStream` the whole
generator: the chunks it yields and the exception it ends in, if it does not return.
-/

namespace LLMInference

/-- `Usage`, as a server reports it: any integers. -/
structure ReportedUsage where
  inputTokens : ℤ
  outputTokens : ℤ
  deriving DecidableEq, Repr

/-- `StreamChunk`, as this provider fills it in. `finishReason` is `None` or the server's. -/
structure VLLMChunk where
  text : PyValue := .str ""
  finishReason : PyValue := .none
  usage : Option ReportedUsage := none

/-- The chunk of a text. -/
def textChunk (text : PyValue) : VLLMChunk := { text }

structure VLLMProvider where
  maxRetries : ℤ := 3
  charsPerToken : ℚ := 4
  deriving DecidableEq, Repr

/-- What an HTTP request meets. -/
inductive Attempt where
  /-- The transport raises before there is a response. -/
  | unreachable (e : PyError)
  /-- A response: what reading its body gives, and its lines, which the transport may `cut`
  short. -/
  | response (status : ℕ) (body : Except PyError (List UInt8)) (lines : List String)
      (cut : Option PyError)

/-- `_RETRYABLE_STATUS`. -/
def retryableStatus : List ℕ := [408, 425, 429, 500, 502, 503, 504]

/-- `httpx.TimeoutException` and its subclasses. -/
def timeoutTypes : List String :=
  ["TimeoutException", "ConnectTimeout", "ReadTimeout", "WriteTimeout", "PoolTimeout"]

/-- What an exception of the transport is raised as. -/
def unestablished (e : PyError) : ProviderFailure :=
  if e.typeName ∈ timeoutTypes then .timeout ("vLLM timed out: " ++ e.detail)
  else .unavailable ("vLLM unreachable: " ++ e.detail)

/-- The attempts that have a back-off: `2**attempt` is multiplied by a float, and can be made one
below 1024. -/
def backoffLimit : ℕ := 1024

def tooLarge : PyError := ⟨"OverflowError", "int too large to convert to float"⟩

/-- `_sleep_backoff`, but for the time it takes. -/
def sleepBackoff (attempt : ℕ) : Except PyError Unit :=
  if attempt < backoffLimit then .ok () else .error tooLarge

theorem sleepBackoff_of_lt {attempt : ℕ} (early : attempt < backoffLimit) :
    sleepBackoff attempt = .ok () :=
  if_pos early

theorem sleepBackoff_of_le {attempt : ℕ} (late : backoffLimit ≤ attempt) :
    sleepBackoff attempt = .error tooLarge :=
  if_neg (not_lt.mpr late)

/-- What is raised outside of the `try` is raised as it is. -/
def escaped (e : PyError) : ProviderFailure := .other e.typeName e.detail

/-- `repr` of a byte string. -/
def reprBytes (bytes : List UInt8) : String :=
  let quote : UInt8 := if bytes.contains 39 && !bytes.contains 34 then 34 else 39
  let escaped (b : UInt8) : List Char :=
    if b = quote ∨ b = 92 then ['\\', Char.ofNat b.toNat]
    else if b = 9 then ['\\', 't']
    else if b = 10 then ['\\', 'n']
    else if b = 13 then ['\\', 'r']
    else if b < 32 ∨ 127 ≤ b then '\\' :: 'x' :: Hex.hexText 2 b.toNat
    else [Char.ofNat b.toNat]
  String.ofList (['b', Char.ofNat quote.toNat] ++ bytes.flatMap escaped ++ [Char.ofNat quote.toNat])

/-! ### Lines and frames -/

/-- What `_parse_sse_line` makes of a line. -/
inductive SseLine where
  | skip
  | done
  | frame (data : PyDict)

/-- `_parse_sse_line`. Only a `JSONDecodeError` is caught. -/
def parseSseLine (h : PyHost) (line : String) : Except PyError SseLine :=
  let line := strip line
  if line = "" ∨ ":".toList <+: line.toList ∨ ¬"data:".toList <+: line.toList then .ok .skip
  else
    let payload := strip (String.ofList (line.toList.drop 5))
    if payload = "[DONE]" then .ok .done
    else
      match h.loads payload with
      | .ok (.dict data) => .ok (.frame data)
      | .ok _ => .ok .skip
      | .error e => if e.typeName = "JSONDecodeError" then .ok .skip else .error e

/-- The usage the two counts come to, if there is one. -/
def usageOf (h : PyHost) (promptTokens completionTokens : PyValue) :
    Except PyError (Option ReportedUsage) :=
  if promptTokens.isNone && completionTokens.isNone then .ok none
  else do
    let inputTokens ← (promptTokens.orElse (.int 0)).toInt h
    let outputTokens ← (completionTokens.orElse (.int 0)).toInt h
    return some { inputTokens, outputTokens }

/-- `_usage_from`. -/
def usageFrom (h : PyHost) (data : PyDict) : Except PyError (Option ReportedUsage) :=
  let usage := data.get "usage" .none
  if usage.truthy then do
    let promptTokens ← usage.get "prompt_tokens" .none
    let completionTokens ← usage.get "completion_tokens" .none
    usageOf h promptTokens completionTokens
  else .ok none

/-- The variables of the loop over the lines, and the texts yielded so far. -/
structure FrameLoop where
  started : Bool := false
  finalUsage : Option ReportedUsage := none
  finishReason : PyValue := .none
  accumulated : ℕ := 0
  pieces : List PyValue := []

/-- What a choice adds. -/
def takeChoice (l : FrameLoop) (choice : PyValue) : Except PyError FrameLoop := do
  let piece := (← choice.get "text" (.str "")).orElse (.str "")
  let finishReason := (← choice.get "finish_reason" .none).orElse l.finishReason
  if piece.truthy then
    let n ← piece.len
    return { l with
      finishReason, accumulated := l.accumulated + n, pieces := l.pieces ++ [piece] }
  else return { l with finishReason }

/-- The first choice of a frame, if it has choices. -/
def choiceStep (l : FrameLoop) (data : PyDict) : Except PyError FrameLoop :=
  let choices := (data.get "choices" .none).orElse (.list [])
  if choices.truthy then choices.first >>= takeChoice l else .ok l

/-- One frame, and the exception it ends in, if it does. -/
def frameStep (h : PyHost) (l : FrameLoop) (data : PyDict) : FrameLoop × Option PyError :=
  let l := { l with started := true }
  match choiceStep l data with
  | .error e => (l, some e)
  | .ok l =>
      match usageFrom h data with
      | .error e => (l, some e)
      | .ok usage => ({ l with finalUsage := usage.or l.finalUsage }, none)

/-- How the loop over the lines ends. -/
inductive LinesEnd where
  | done
  | exhausted
  | raised (e : PyError)
  deriving DecidableEq, Repr

/-- The loop over the lines. -/
def readLines (h : PyHost) : FrameLoop → List String → FrameLoop × LinesEnd
  | l, [] => (l, .exhausted)
  | l, line :: rest =>
      match parseSseLine h line with
      | .error e => (l, .raised e)
      | .ok .skip => readLines h l rest
      | .ok .done => (l, .done)
      | .ok (.frame data) =>
          match frameStep h l data with
          | (l, some e) => (l, .raised e)
          | (l, none) => readLines h l rest

/-! ### The generator -/

/-- How an attempt ends. -/
inductive AttemptEnd where
  | finished (pieces : List PyValue) (final : VLLMChunk)
  /-- The failure is raised, after the texts. -/
  | failed (pieces : List PyValue) (f : ProviderFailure)
  /-- Nothing was yielded: the failure is raised only if no attempt is left. -/
  | again (f : ProviderFailure)

namespace AttemptEnd

def isAgain : AttemptEnd → Bool
  | again _ => true
  | _ => false

end AttemptEnd

/-- The generator: what it yielded, the exception it ended in, and the requests it made. -/
structure VLLMStream where
  chunks : List VLLMChunk
  failure : Option ProviderFailure
  requests : ℕ

/-- The `except Exception` clause. -/
def FrameLoop.raise (l : FrameLoop) (e : PyError) : AttemptEnd :=
  if l.started then
    .failed l.pieces (.other "ProviderError" ("vLLM stream failed mid-flight: " ++ e.detail))
  else .again (unestablished e)

/-- The text is counted by its length: there is some, and no tokenizer that takes it. -/
def Untokenized (ts : TextSupport) (text : String) : Prop :=
  text ≠ "" ∧ ts.encode.bind (· text) = none

instance (ts : TextSupport) (text : String) : Decidable (Untokenized ts text) :=
  inferInstanceAs (Decidable (_ ∧ _))

/-- `count_tokens`, which divides unless the tokenizer answers. -/
def tokensOf (ts : TextSupport) (text : String) (charsPerToken : ℚ) : Except PyError ℕ :=
  if Untokenized ts text ∧ charsPerToken = 0 then
    .error ⟨"ZeroDivisionError", "float division by zero"⟩
  else .ok (countTokens ts text charsPerToken)

namespace VLLMProvider

section Generator

variable (v : VLLMProvider) (ts : TextSupport) (h : PyHost) (prompt : String)

/-- The usage of the final chunk when the server reported none. -/
def estimate (accumulated : ℕ) : Except PyError ReportedUsage := do
  let inputTokens ← tokensOf ts prompt v.charsPerToken
  if accumulated = 0 then return { inputTokens, outputTokens := 0 }
  else if v.charsPerToken = 0 then .error ⟨"ZeroDivisionError", "float division by zero"⟩
  else
    return { inputTokens,
             outputTokens := max 1 (Decimal.roundHalfEven (accumulated / v.charsPerToken)) }

/-- The final chunk. -/
def finish (l : FrameLoop) : AttemptEnd :=
  let finishReason := l.finishReason.orElse (.str "stop")
  match l.finalUsage with
  | some usage => .finished l.pieces { finishReason, usage := some usage }
  | none =>
      match v.estimate ts prompt l.accumulated with
      | .ok usage => .finished l.pieces { finishReason, usage := some usage }
      | .error e => l.raise e

/-- One attempt. -/
def attemptStream : Attempt → AttemptEnd
  | .unreachable e => .again (unestablished e)
  | .response status body lines cut =>
      if status ∈ retryableStatus then .again (.unavailable s!"vLLM returned {status}")
      else if 400 ≤ status then
        match body with
        | .error e => .again (unestablished e)
        | .ok bytes => .failed [] (.other "ProviderError"
            (s!"vLLM rejected the stream ({status}): " ++ reprBytes (bytes.take 200)))
      else
        match readLines h {} lines with
        | (l, .raised e) => l.raise e
        | (l, .done) => v.finish ts prompt l
        | (l, .exhausted) =>
            match cut with
            | some e => l.raise e
            | none => v.finish ts prompt l

/-- The retry loop, `left` attempts before its end. A wait that raises inside of the `try` is made
again by the `except` clause, and raises there. -/
def streamFrom (upstream : ℕ → Attempt) : ℕ → ℕ → VLLMStream
  | 0, attempt =>
      { chunks := [], requests := attempt
        failure := some (.unavailable "vLLM stream could not be established") }
  | left + 1, attempt =>
      match v.attemptStream ts h prompt (upstream attempt) with
      | .finished pieces final =>
          { chunks := pieces.map textChunk ++ [final], failure := none,
            requests := attempt + 1 }
      | .failed pieces f =>
          { chunks := pieces.map textChunk, failure := some f, requests := attempt + 1 }
      | .again f =>
          if left = 0 then { chunks := [], failure := some f, requests := attempt + 1 }
          else
            match sleepBackoff attempt with
            | .error e => { chunks := [], failure := some (escaped e), requests := attempt + 1 }
            | .ok () => streamFrom upstream left (attempt + 1)

/-- `generate_stream`, when the requests meet what `upstream` says. -/
def generateStream (upstream : ℕ → Attempt) : VLLMStream :=
  v.streamFrom ts h prompt upstream v.maxRetries.toNat 0

end Generator

end VLLMProvider

end LLMInference
