import LLMInference.Tokens

/-!
The autoscaling controller (`app/autoscaler.py`). `decide` and `apply` read the clock
separately; `none` is the `ZeroDivisionError` of a zero concurrency target.
-/

namespace LLMInference

structure LoadSample where
  inFlight : ℤ
  queueDepth : ℤ
  deriving DecidableEq, Repr

def LoadSample.total (l : LoadSample) : ℤ := l.inFlight + l.queueDepth

structure ScaleDecision where
  currentReplicas : ℤ
  desiredReplicas : ℤ
  reason : String
  deriving DecidableEq, Repr

def ScaleDecision.changed (d : ScaleDecision) : Bool := decide (d.desiredReplicas ≠ d.currentReplicas)

structure Autoscaler where
  current : ℤ
  lastScaleUp : ℚ := 0
  lastScaleDown : ℚ := 0
  deriving DecidableEq, Repr

namespace Autoscaler

def create (s : Settings) : Autoscaler := { current := s.minReplicas }

/-- `_raw_desired`. -/
def rawDesired (s : Settings) (load : LoadSample) : Option ℤ :=
  let clamp (needed : ℤ) : ℤ := max s.minReplicas (min needed s.maxReplicas)
  if load.total ≤ 0 then some (clamp 0)
  else if s.targetConcurrencyPerReplica = 0 then none
  else some (clamp ⌈load.total / s.targetConcurrencyPerReplica⌉)

/-- `decide()`: the target count, unless a cooldown suppresses it. -/
def decide (ts : TextSupport) (s : Settings) (a : Autoscaler) (load : LoadSample) (now : ℚ) :
    Option ScaleDecision :=
  (rawDesired s load).map fun desired =>
    if a.current < desired then
      if s.scaleUpCooldownS ≤ now - a.lastScaleUp then
        { currentReplicas := a.current, desiredReplicas := desired
          reason := "scale up: load " ++ toString load.total ++ " needs " ++ toString desired ++
            " replicas (target " ++ ts.floatText s.targetConcurrencyPerReplica ++ "/replica)" }
      else
        { currentReplicas := a.current, desiredReplicas := a.current,
          reason := "scale up suppressed by cooldown" }
    else if desired < a.current then
      if s.scaleDownCooldownS ≤ now - a.lastScaleDown then
        { currentReplicas := a.current, desiredReplicas := desired
          reason := "scale down: load " ++ toString load.total ++ " needs only " ++
            toString desired ++ " replicas" }
      else
        { currentReplicas := a.current, desiredReplicas := a.current,
          reason := "scale down suppressed by cooldown" }
    else { currentReplicas := a.current, desiredReplicas := a.current, reason := "no change" }

/-- `apply()`: commit a decision, stamping the cooldown clock of its direction. -/
def apply (a : Autoscaler) (d : ScaleDecision) (now : ℚ) : Autoscaler :=
  if d.changed = false then a
  else if a.current < d.desiredReplicas then
    { a with lastScaleUp := now, current := d.desiredReplicas }
  else { a with lastScaleDown := now, current := d.desiredReplicas }

/-- `step()`. -/
def step (ts : TextSupport) (s : Settings) (a : Autoscaler) (load : LoadSample) (now later : ℚ) :
    Option (ScaleDecision × Autoscaler) :=
  (decide ts s a load now).map fun d => (d, a.apply d later)

end Autoscaler

end LLMInference
