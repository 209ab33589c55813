import LLMInference.Providers.Vllm

/-!
The buffered half of the vLLM provider (`app/providers/vllm.py`).

An `HttpReply` is what one request meets. `generate` is the retry loop, and `parseCompletion` what
is made of the body of an accepted response. The body is any JSON document, and what parsing it
raises, or waiting before another attempt, leaves `generate` as it is.
-/

namespace LLMInference

/-- What a request that is not streamed meets. -/
inductive HttpReply where
  /-- The transport raises. -/
  | unreachable (e : PyError)
  /-- A response: its text, and the document it decodes to. -/
  | response (status : ℕ) (text : String) (json : Except PyError PyValue)

/-- `Completion`, as this provider fills it in. -/
structure VLLMCompletion where
  text : PyValue
  usage : ReportedUsage
  model : String

/-- The outcome, and the requests it took. -/
structure VLLMAnswer where
  outcome : Except ProviderFailure VLLMCompletion
  requests : ℕ

/-- `count_tokens` of what a server sent as a text. The tokenizer takes only strings. -/
def tokensOfValue (ts : TextSupport) (text : PyValue) (charsPerToken : ℚ) : Except PyError ℕ :=
  match text with
  | .str s => tokensOf ts s charsPerToken
  | text =>
      if text.truthy then do
        let n ← text.len
        if charsPerToken = 0 then .error ⟨"ZeroDivisionError", "float division by zero"⟩
        else return (max 1 (Decimal.roundHalfEven (n / charsPerToken))).toNat
      else .ok 0

namespace VLLMProvider

section Buffered

variable (v : VLLMProvider) (ts : TextSupport) (h : PyHost) (model : ModelSpec) (prompt : String)

/-- The usage of a completion: the server's, or a count. -/
def completionUsage (data : PyDict) (text : PyValue) : Except PyError ReportedUsage := do
  match ← usageFrom h data with
  | some reported => return reported
  | none =>
      let inputTokens ← tokensOf ts prompt v.charsPerToken
      let outputTokens ← tokensOfValue ts text v.charsPerToken
      return { inputTokens, outputTokens }

/-- `_parse_completion`, of an object. -/
def completionOf (data : PyDict) : Except PyError VLLMCompletion := do
  let choices := (data.get "choices" .none).orElse (.list [])
  if choices.truthy then
    let choice ← choices.first
    let text := (← choice.get "text" (.str "")).orElse (.str "")
    let usage ← v.completionUsage ts h prompt data text
    return { text, usage, model := model.name }
  else .error ⟨"ProviderError", "vLLM returned no choices"⟩

/-- `_parse_completion`. Only an object can be asked for its choices. -/
def parseCompletion (body : PyValue) : Except PyError VLLMCompletion :=
  match body with
  | .dict data => v.completionOf ts h model prompt data
  | body =>
      .error ⟨"AttributeError", "'" ++ body.typeName ++ "' object has no attribute 'get'"⟩

/-- After an attempt that failed with `last`: `again`, after the back-off, if there are attempts
left. -/
def tryAgain (left attempt : ℕ) (last : ProviderFailure) (again : VLLMAnswer) : VLLMAnswer :=
  if left = 0 then { outcome := .error last, requests := attempt + 1 }
  else
    match sleepBackoff attempt with
    | .error e => { outcome := .error (escaped e), requests := attempt + 1 }
    | .ok () => again

/-- The retry loop, `left` attempts before its end. -/
def generateFrom (upstream : ℕ → HttpReply) : ℕ → ℕ → VLLMAnswer
  | 0, attempt =>
      { outcome := .error (.unavailable "vLLM request failed"), requests := attempt }
  | left + 1, attempt =>
      match upstream attempt with
      | .unreachable e =>
          tryAgain left attempt (unestablished e) (generateFrom upstream left (attempt + 1))
      | .response status text json =>
          if status ∈ retryableStatus then
            tryAgain left attempt (.unavailable s!"vLLM returned {status}")
              (generateFrom upstream left (attempt + 1))
          else if 400 ≤ status then
            { outcome := .error (.other "ProviderError"
                (s!"vLLM rejected the request ({status}): " ++ (text.take 200).toString)),
              requests := attempt + 1 }
          else
            { outcome := (json >>= v.parseCompletion ts h model prompt).mapError escaped,
              requests := attempt + 1 }

/-- `generate`, when the requests meet what `upstream` says. -/
def generate (upstream : ℕ → HttpReply) : VLLMAnswer :=
  v.generateFrom ts h model prompt upstream v.maxRetries.toNat 0

end Buffered

section Parsed

variable {v : VLLMProvider} {ts : TextSupport} {h : PyHost} {model : ModelSpec} {prompt : String}

/-- The completion of a body whose first choice has a text. -/
theorem parseCompletion_text {body choice : PyDict} {rest : List PyValue} {text : String}
    (choices : body.get "choices" .none = .list (.dict choice :: rest))
    (given : choice.get "text" (.str "") = .str text) :
    v.parseCompletion ts h model prompt (.dict body) =
      (v.completionUsage ts h prompt body (.str text)).map fun usage =>
        { text := .str text, usage, model := model.name } := by
  have truth : (PyValue.list (.dict choice :: rest)).truthy = true := rfl
  have kept : (PyValue.str text).orElse (.str "") = .str text := by
    cases some' : (PyValue.str text).truthy with
    | true => exact PyValue.orElse_of_truthy some'
    | false =>
        have empty : text = "" := by simpa [PyValue.truthy] using some'
        rw [empty]
        rfl
  simp only [parseCompletion, completionOf, choices, PyValue.orElse_of_truthy truth, truth, if_true,
    PyValue.first, PyValue.get, given, kept, bind, Except.bind]
  cases v.completionUsage ts h prompt body (.str text) <;> rfl

end Parsed

end VLLMProvider

end LLMInference
