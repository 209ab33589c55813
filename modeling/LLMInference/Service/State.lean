import LLMInference.Autoscaler
import LLMInference.Cache
import LLMInference.Cost.Base
import LLMInference.Failover.Loop
import LLMInference.Gate
import LLMInference.RateLimit

/-!
The state of the service (`app/service.py`): what the requests share, and where each
request is.

A request is a task that stands at one of its suspension points (`Phase`). `handle` and
`handle_stream` are the same up to admission. A streamed request that has exited is
continued by its detached finalizer, which is part of the same task here: the finalizer
starts where the generator ends.

`Event` is a history: it records what a step did and is read by no step.
-/

namespace LLMInference

/-- The arguments of `handle` and `handle_stream`. -/
structure Request where
  prompt : String
  userId : String
  taskType : Option String := none
  maxOutputTokens : Option ℤ := none
  budgetUsd : Option ℚ := none
  userDailyBudgetUsd : Option ℚ := none
  forceModel : Option String := none
  deriving DecidableEq, Repr

/-- What `route` is asked. -/
def Request.routing (req : Request) : RouteRequest :=
  { prompt := req.prompt, taskType := req.taskType, maxOutputTokens := req.maxOutputTokens,
    budgetUsd := req.budgetUsd, forceModel := req.forceModel }

/-- The limit `_reserve` uses. -/
def Request.userLimit (req : Request) (s : Settings) : ℚ :=
  req.userDailyBudgetUsd.getD s.defaultUserDailyBudgetUsd

structure InferenceResult where
  text : String
  model : String
  complexity : String
  inputTokens : ℕ
  outputTokens : ℕ
  costUsd : ℚ
  downgraded : Bool
  routingNotes : List String
  cached : Bool := false
  deriving DecidableEq, Repr

inductive StreamEvent where
  | start (model complexity : String) (downgraded cached : Bool) (routingNotes : List String)
      (projectedCostUsd : ℚ)
  | delta (text : String)
  | «end» (model : String) (inputTokens outputTokens : ℕ) (costUsd : ℚ) (downgraded cached : Bool)
  | error (error detail : String)
  deriving DecidableEq, Repr

/-- How a request exits. -/
inductive Exit where
  /-- `RateLimitExceededError`, with its `retry_after_s`; `none` is infinity. -/
  | rateLimited (retryAfterS : Option ℚ)
  | unroutable (e : RouteError)
  | ledger (e : LedgerError)
  /-- `AdmissionTimeoutError`. -/
  | shed (waitedS : ℚ)
  | generation (e : GenerateError)
  | result (r : InferenceResult)
  /-- The event stream ran to its end. -/
  | streamed
  /-- The provider's error is raised after the error event. -/
  | streamFailed (f : ProviderFailure)
  /-- The consumer closed the stream. -/
  | closed
  | cancelled
  deriving DecidableEq, Repr

/-- The local variables of a stream. -/
structure StreamState where
  decision : RoutingDecision
  reservation : Reservation
  pieces : List String := []
  usage : Option Usage := none
  completed : Bool := false
  deriving DecidableEq, Repr

/-- The `yield` a stream stands at. -/
inductive YieldPoint where
  | start
  | delta
  | «end»
  | error (f : ProviderFailure)
  deriving DecidableEq, Repr

/-- The arguments of `_finalize_later`; `text` is set for a completed stream only. -/
structure Finalizer where
  decision : RoutingDecision
  reservation : Reservation
  usage : Usage
  text : Option String
  deriving DecidableEq, Repr

/-- Where a request is. -/
inductive Phase where
  | arrived
  /-- In `cache.get`. -/
  | lookup (d : RoutingDecision)
  /-- In `ledger.reserve`. -/
  | reserving (d : RoutingDecision)
  /-- At the entrance of `gate.acquire`. -/
  | granted (d : RoutingDecision) (r : Reservation)
  /-- Parked in `gate.acquire`. -/
  | queued (d : RoutingDecision) (r : Reservation)
  /-- In the `ledger.release` of a shed request. -/
  | shedding (r : Reservation)
  /-- At the top of the failover loop. -/
  | attempting (r : Reservation) (c : FailoverCall)
  /-- In `provider.generate`. -/
  | generating (r : Reservation) (c : FailoverCall)
  /-- In the `ledger.settle` of `handle`. -/
  | settling (r : Reservation) (served : RoutingDecision) (k : Completion)
  /-- In `cache.set`, after the settle. -/
  | caching (r : Reservation) (served : RoutingDecision) (k : Completion)
  /-- In the `ledger.release` of a failed request, which raises `e` afterwards. -/
  | refunding (r : Reservation) (e : Exit)
  /-- At a `yield` of a generated stream. -/
  | yielded (st : StreamState) (at' : YieldPoint)
  /-- Awaiting a chunk. -/
  | pulling (st : StreamState)
  /-- Exited by `e`; the finalizer is in `ledger.settle`. -/
  | finalizing (fin : Finalizer) (e : Exit)
  /-- Exited by `e`; the finalizer is in `cache.set`. -/
  | storing (fin : Finalizer) (e : Exit)
  /-- At a `yield` of a cached stream, `rest` still to come. -/
  | replaying (rest : List StreamEvent)
  | done (e : Exit)
  deriving DecidableEq, Repr

namespace Phase

/-- Between admission and the matching `gate.release`. -/
def holdsSlot : Phase → Bool
  | .attempting .. | .generating .. | .settling .. | .caching .. | .refunding .. | .yielded ..
  | .pulling .. | .finalizing .. | .storing .. => true
  | _ => false

/-- Parked in `gate.acquire`. -/
def parked : Phase → Bool
  | .queued .. => true
  | _ => false

/-- The request has exited and its finalizer, if it has one, has run. -/
def gone : Phase → Bool
  | .done _ => true
  | _ => false

theorem exit_of_gone {ph : Phase} (gone : ph.gone = true) : ∃ e, ph = .done e := by
  cases ph with
  | done e => exact ⟨e, rfl⟩
  | _ => cases gone

end Phase

structure Task where
  request : Request
  /-- `handle_stream` rather than `handle`. -/
  streaming : Bool
  phase : Phase
  deriving DecidableEq, Repr

/-- What a step did. A number names the request. -/
inductive Event where
  /-- `ledger.reserve` returned a reservation. -/
  | granted (i : ℕ) (r : Reservation)
  /-- A `reserve` ran on the ledger and pruned the user's window. -/
  | pruned (userId : String) (now : ℚ)
  /-- `ledger.settle` was called. -/
  | billed (i : ℕ) (c : Charge)
  /-- The settle took effect on the open reservation. -/
  | settled (i : ℕ) (userId : String) (c : Charge) (now : ℚ)
  /-- The release took effect on the open reservation. -/
  | released (i : ℕ)
  | shed (i : ℕ)
  /-- The buffered generation returned. -/
  | generated (i : ℕ) (served : RoutingDecision) (k : Completion)
  /-- The buffered generation raised. -/
  | failed (i : ℕ) (e : GenerateError)
  /-- A slot was taken. -/
  | admitted (i : ℕ)
  /-- `gate.release` ran. -/
  | slotReleased (i : ℕ)
  /-- `metrics.request_started`. -/
  | started (i : ℕ)
  /-- `metrics.request_finished`. -/
  | finished (i : ℕ)
  /-- The provider was invoked at `now`, the model's breaker being `breaker` before; `asked` is
  the answer of the `allows()` made for this call, if one was made. -/
  | invoked (i : ℕ) (model : String) (asked : Option Bool) (breaker : CircuitBreaker) (now : ℚ)
  /-- A call raised a server fault; the failures its model's breaker counts, before and after. -/
  | faulted (i : ℕ) (model : String) (before after : ℕ)
  | emitted (i : ℕ) (e : StreamEvent)
  | returned (i : ℕ) (r : InferenceResult)
  deriving DecidableEq, Repr

/-- What the requests share. -/
structure Shared (σ : Type) where
  /-- The wall clock, which the ledger reads. -/
  now : ℚ
  /-- The monotonic clock of the other components. -/
  mono : ℚ
  limiter : Option TokenBucketLimiter
  cache : Option InMemoryCache
  ledger : σ
  gate : CapacityGate
  breakers : BreakerRegistry
  metrics : Metrics
  autoscaler : Autoscaler

structure World (σ : Type) where
  shared : Shared σ
  tasks : List Task
  log : List Event

/-- `int(x)`. -/
def truncate (x : ℚ) : ℤ := x.num.tdiv x.den

/-- `_capacity_for`. -/
def capacityFor (s : Settings) (replicas : ℤ) : ℤ :=
  max 1 (truncate (replicas * s.targetConcurrencyPerReplica))

/-- A new service over the given ledger. -/
def World.start {σ : Type} (s : Settings) (ledger : σ) : World σ where
  shared :=
    { now := 0, mono := 0
      limiter := if s.rateLimitEnabled then
        some { capacity := s.rateLimitBurst, refillPerSecond := s.rateLimitPerSecond } else none
      cache := if s.cacheEnabled then some (.create s.cacheMaxEntries) else none
      ledger
      gate := .create (capacityFor s (Autoscaler.create s).current)
      breakers := .fresh s.breakerFailureThreshold s.breakerRecoveryTimeoutS
      metrics := {}
      autoscaler := .create s }
  tasks := []
  log := []

end LLMInference
