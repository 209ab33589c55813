import LLMInference.Config

/-!
The provider interface (`app/providers/base.py`): what a generation returns and how it
fails. Token counts are natural numbers; the provider itself is the environment.
-/

namespace LLMInference

/-- How a provider call fails. `other` is any exception that is not one of the two
server faults, a plain `ProviderError` included. -/
inductive ProviderFailure where
  /-- `ProviderTimeoutError`. -/
  | timeout (detail : String)
  /-- `ProviderUnavailableError`. -/
  | unavailable (detail : String)
  | other (typeName detail : String)
  deriving DecidableEq, Repr

namespace ProviderFailure

/-- `isinstance(e, SERVER_FAULTS)`: this backend is sick, rather than this request bad. -/
def serverFault : ProviderFailure → Bool
  | .timeout _ => true
  | .unavailable _ => true
  | .other _ _ => false

/-- `type(e).__name__`. -/
def typeName : ProviderFailure → String
  | .timeout _ => "ProviderTimeoutError"
  | .unavailable _ => "ProviderUnavailableError"
  | .other name _ => name

/-- `str(e)`. -/
def detail : ProviderFailure → String
  | .timeout d => d
  | .unavailable d => d
  | .other _ d => d

end ProviderFailure

structure Usage where
  inputTokens : ℕ
  outputTokens : ℕ
  deriving DecidableEq, Repr

structure Completion where
  text : String
  inputTokens : ℕ
  outputTokens : ℕ
  deriving DecidableEq, Repr

/-- One incremental piece of a streamed completion. -/
structure StreamChunk where
  text : String := ""
  usage : Option Usage := none
  deriving DecidableEq, Repr

end LLMInference
