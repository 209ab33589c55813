import LLMInference.Config

/-!
In-memory metrics (`app/metrics.py`): the counters and the methods that bump them. The
lock around each method makes it one step.
-/

namespace LLMInference

structure Metrics where
  inFlight : ℤ := 0
  queueDepth : ℤ := 0
  totalRequests : ℕ := 0
  totalRejected : ℕ := 0
  totalDowngraded : ℕ := 0
  totalInputTokens : ℕ := 0
  totalOutputTokens : ℕ := 0
  totalCostUsd : ℚ := 0
  totalCacheHits : ℕ := 0
  totalCacheMisses : ℕ := 0
  totalRateLimited : ℕ := 0
  totalShed : ℕ := 0
  totalCircuitRejected : ℕ := 0
  totalFailovers : ℕ := 0
  deriving DecidableEq, Repr

namespace Metrics

def requestStarted (m : Metrics) : Metrics :=
  { m with inFlight := m.inFlight + 1, totalRequests := m.totalRequests + 1 }

def requestFinished (m : Metrics) (inputTokens outputTokens : ℕ) (cost : ℚ) (downgraded : Bool) :
    Metrics :=
  { m with
    inFlight := max 0 (m.inFlight - 1)
    totalInputTokens := m.totalInputTokens + inputTokens
    totalOutputTokens := m.totalOutputTokens + outputTokens
    totalCostUsd := m.totalCostUsd + cost
    totalDowngraded := if downgraded then m.totalDowngraded + 1 else m.totalDowngraded }

def requestRejected (m : Metrics) : Metrics := { m with totalRejected := m.totalRejected + 1 }

def setQueueDepth (m : Metrics) (depth : ℤ) : Metrics := { m with queueDepth := depth }

def cacheHit (m : Metrics) : Metrics :=
  { m with totalCacheHits := m.totalCacheHits + 1, totalRequests := m.totalRequests + 1 }

def cacheMiss (m : Metrics) : Metrics := { m with totalCacheMisses := m.totalCacheMisses + 1 }

def requestRateLimited (m : Metrics) : Metrics :=
  { m with totalRateLimited := m.totalRateLimited + 1, totalRejected := m.totalRejected + 1 }

def requestShed (m : Metrics) : Metrics :=
  { m with totalShed := m.totalShed + 1, totalRejected := m.totalRejected + 1 }

def requestCircuitRejected (m : Metrics) : Metrics :=
  { m with totalCircuitRejected := m.totalCircuitRejected + 1 }

def requestFailover (m : Metrics) : Metrics := { m with totalFailovers := m.totalFailovers + 1 }

end Metrics

end LLMInference
