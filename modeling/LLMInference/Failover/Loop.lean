import LLMInference.Router
import LLMInference.Breaker
import LLMInference.Metrics
import LLMInference.Providers

/-!
The failover loop (`InferenceService._generate_with_failover`).

A call is a state machine whose only suspension point is `provider.generate`:
`attempting` is the top of the loop, `generating` the await. `FailoverCall.attempt` is one
pass of the loop body up to the await or the raise, `FailoverCall.onOutcome` what the
provider's answer makes of it.
-/

namespace LLMInference

/-- What `_generate_with_failover` raises. -/
inductive GenerateError where
  /-- `CircuitOpenError(name, retry_after_s)`. -/
  | circuitOpen (name : String) (retryAfterS : ℚ)
  | provider (failure : ProviderFailure)
  deriving DecidableEq, Repr

/-- The loop's local variables. -/
structure FailoverCall where
  request : RouteRequest
  current : RoutingDecision
  excluded : List String
  deriving DecidableEq, Repr

/-- Where a call is. -/
inductive CallPhase where
  /-- At the top of the loop, before the breaker is asked. -/
  | attempting (c : FailoverCall)
  /-- Awaiting `provider.generate` on the current model. -/
  | generating (c : FailoverCall)
  | returned (served : RoutingDecision) (completion : Completion)
  | raised (e : GenerateError)
  | cancelled
  deriving DecidableEq, Repr

/-- What an awaited `provider.generate` comes back with. -/
inductive GenerateOutcome where
  | completion (k : Completion)
  | failure (f : ProviderFailure)
  deriving DecidableEq, Repr

/-- `_next_model`: re-route with the failed models excluded; no model is pinned. -/
def nextModel (ts : TextSupport) (s : Settings) (req : RouteRequest) (excluded : List String) :
    Except RouteError RoutingDecision :=
  route ts s { req with forceModel := none } excluded

namespace FailoverCall

/-- `_generate_with_failover(decision, …)` before its first pass. -/
def start (req : RouteRequest) (decision : RoutingDecision) : FailoverCall :=
  { request := req, current := decision, excluded := [] }

/-- The name of the model the current pass is about. -/
def target (c : FailoverCall) : String := c.current.model.name

/-- The call with its next model, or `none` when the last error is raised: fallback is
disabled, a model is pinned, or no other model can take the request. -/
def moveOn (ts : TextSupport) (s : Settings) (c : FailoverCall) : Option FailoverCall :=
  if s.fallbackEnabled = false ∨ c.request.pinned.isSome = true then none
  else
    match nextModel ts s c.request (c.excluded.insert c.target) with
    | .error _ => none
    | .ok next => some { c with current := next, excluded := c.excluded.insert c.target }

/-- After `last_error` is set: move on, or raise it. -/
def afterError (ts : TextSupport) (s : Settings) (c : FailoverCall) (e : GenerateError)
    (m : Metrics) : CallPhase × Metrics :=
  match c.moveOn ts s with
  | none => (.raised e, m)
  | some next => (.attempting next, m.requestFailover)

/-- One pass: ask the breaker, then either reach the await or go on without the backend. -/
def attempt (ts : TextSupport) (s : Settings) (now : ℚ) (c : FailoverCall) (r : BreakerRegistry)
    (m : Metrics) : BreakerRegistry × CallPhase × Metrics :=
  let asked := (r.get c.target).allows now
  let r' := r.put c.target asked.2
  if asked.1 then (r', .generating c, m)
  else
    (r', c.afterError ts s (.circuitOpen c.target (asked.2.retryAfterS now))
      m.requestCircuitRejected)

/-- The await returns. Only a completion and a server fault are reported to the breaker. -/
def onOutcome (ts : TextSupport) (s : Settings) (now : ℚ) (c : FailoverCall) (o : GenerateOutcome)
    (r : BreakerRegistry) (m : Metrics) : BreakerRegistry × CallPhase × Metrics :=
  match o with
  | .completion k => (r.put c.target (r.get c.target).recordSuccess, .returned c.current k, m)
  | .failure f =>
      if f.serverFault then
        (r.put c.target ((r.get c.target).recordFailure now), c.afterError ts s (.provider f) m)
      else (r, .raised (.provider f), m)

section Cases

variable {ts : TextSupport} {s : Settings} {c : FailoverCall}

/-- Moving on re-routes the same request around a grown exclusion list. -/
theorem moveOn_some {next : FailoverCall} (h : c.moveOn ts s = some next) :
    s.fallbackEnabled = true ∧ c.request.pinned = none ∧ next.request = c.request ∧
      next.excluded = c.excluded.insert c.target ∧
      route ts s { c.request with forceModel := none } next.excluded = .ok next.current := by
  unfold moveOn at h
  split at h
  · cases h
  · rename_i open'
    rw [not_or, Bool.not_eq_false, Bool.not_eq_true, Option.isSome_eq_false_iff,
      Option.isNone_iff_eq_none] at open'
    split at h
    · cases h
    · rename_i routed
      cases h
      exact ⟨open'.1, open'.2, rfl, rfl, routed⟩

/-- After an error the call raises it or is back at the top of the loop. -/
theorem afterError_cases (c : FailoverCall) (ts : TextSupport) (s : Settings) (e : GenerateError)
    (m : Metrics) :
    (c.moveOn ts s = none ∧ c.afterError ts s e m = (.raised e, m)) ∨
      ∃ next, c.moveOn ts s = some next ∧
        c.afterError ts s e m = (.attempting next, m.requestFailover) := by
  unfold afterError
  cases c.moveOn ts s with
  | none => exact .inl ⟨rfl, rfl⟩
  | some next => exact .inr ⟨next, rfl, rfl⟩

/-- No error path leads to the await without another pass. -/
theorem afterError_ne_generating (e : GenerateError) (m : Metrics) (c' : FailoverCall) :
    (c.afterError ts s e m).1 ≠ .generating c' := by
  rcases afterError_cases c ts s e m with ⟨-, eq⟩ | ⟨next, -, eq⟩
  · simp [eq]
  · simp [eq]

/-- The registry after a pass holds what the breaker's `allows` left. -/
@[simp] theorem attempt_breakers (now : ℚ) (r : BreakerRegistry) (m : Metrics) :
    (c.attempt ts s now r m).1 = r.put c.target ((r.get c.target).allows now).2 := by
  simp only [attempt]
  split <;> rfl

/-- A pass reaches the await exactly when the breaker admits it. -/
theorem attempt_generating_iff {now : ℚ} {r : BreakerRegistry} {m : Metrics} {c' : FailoverCall} :
    (c.attempt ts s now r m).2.1 = .generating c' ↔
      ((r.get c.target).allows now).1 = true ∧ c' = c := by
  simp only [attempt]
  split
  · rename_i admitted
    simp [admitted, eq_comm]
  · rename_i denied
    simp [denied, afterError_ne_generating]

end Cases

end FailoverCall

end LLMInference
