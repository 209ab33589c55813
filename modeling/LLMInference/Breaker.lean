import LLMInference.Config

/-!
Circuit breakers (`app/breaker.py`), one per model.

Every method is one synchronous step of the caller; `now` is the reading of the
breaker's clock at that step.
-/

namespace LLMInference

inductive BreakerState where
  | closed
  | open
  | halfOpen
  deriving DecidableEq, Repr

structure CircuitBreaker where
  name : String
  failureThreshold : ℤ
  recoveryTimeoutS : ℚ
  state : BreakerState := .closed
  consecutiveFailures : ℕ := 0
  openedAt : ℚ := 0
  halfOpenProbeTaken : Bool := false
  deriving DecidableEq, Repr

namespace CircuitBreaker

/-- `allows()`: whether a call may proceed, and the breaker afterwards. Advances open to
half-open when the recovery time is over; the caller it admits then is the probe. -/
def allows (b : CircuitBreaker) (now : ℚ) : Bool × CircuitBreaker :=
  match b.state with
  | .closed => (true, b)
  | .open =>
      if b.recoveryTimeoutS ≤ now - b.openedAt then
        (true, { b with state := .halfOpen, halfOpenProbeTaken := true })
      else (false, b)
  | .halfOpen =>
      if b.halfOpenProbeTaken then (false, b)
      else (true, { b with halfOpenProbeTaken := true })

def retryAfterS (b : CircuitBreaker) (now : ℚ) : ℚ :=
  match b.state with
  | .closed => 0
  | _ => max 0 (b.recoveryTimeoutS - (now - b.openedAt))

/-- `check()`: raise `CircuitOpenError(name, retry_after_s)` if the call must not proceed.
The clock is read once by `allows`, and again, at `later`, for the time to wait. -/
def check (b : CircuitBreaker) (now later : ℚ) : Except (String × ℚ) Unit × CircuitBreaker :=
  let asked := b.allows now
  (if asked.1 then .ok () else .error (asked.2.name, asked.2.retryAfterS later), asked.2)

def recordSuccess (b : CircuitBreaker) : CircuitBreaker :=
  { b with state := .closed, consecutiveFailures := 0, halfOpenProbeTaken := false }

/-- `_trip()`. -/
def trip (b : CircuitBreaker) (now : ℚ) : CircuitBreaker :=
  { b with state := .open, openedAt := now, halfOpenProbeTaken := false }

/-- Count a server-side fault. A failed probe trips at once. -/
def recordFailure (b : CircuitBreaker) (now : ℚ) : CircuitBreaker :=
  let b' := { b with consecutiveFailures := b.consecutiveFailures + 1 }
  if b'.state = .halfOpen then b'.trip now
  else if b'.failureThreshold ≤ b'.consecutiveFailures then b'.trip now
  else b'

/-- Open, with the recovery time not yet over. -/
def Shut (b : CircuitBreaker) (now : ℚ) : Prop :=
  b.state = .open ∧ now - b.openedAt < b.recoveryTimeoutS

instance (b : CircuitBreaker) (now : ℚ) : Decidable (b.Shut now) :=
  inferInstanceAs (Decidable (_ ∧ _))

/-- Half-open with the probe gone: until somebody reports, nobody is admitted. -/
def Probing (b : CircuitBreaker) : Prop := b.state = .halfOpen ∧ b.halfOpenProbeTaken = true

instance (b : CircuitBreaker) : Decidable b.Probing :=
  inferInstanceAs (Decidable (_ ∧ _))

/-! ### What one call does -/

/-- The three ways a call is admitted, and what the breaker is afterwards. -/
theorem allows_cases (b : CircuitBreaker) (now : ℚ) :
    ((b.allows now).1 = false ∧ (b.allows now).2 = b ∧ (b.Shut now ∨ b.Probing)) ∨
    ((b.allows now).1 = true ∧ b.state = .closed ∧ (b.allows now).2 = b) ∨
    ((b.allows now).1 = true ∧ b.state ≠ .closed ∧ ¬ b.Shut now ∧ (b.allows now).2.Probing) := by
  unfold allows Shut Probing
  cases state : b.state with
  | closed => exact .inr (.inl ⟨rfl, rfl, rfl⟩)
  | «open» =>
      by_cases due : b.recoveryTimeoutS ≤ now - b.openedAt
      · simp [due]
      · simp [due, lt_of_not_ge due]
  | halfOpen =>
      by_cases taken : b.halfOpenProbeTaken = true
      · simp [taken]
      · simp [taken]

/-- No method changes the breaker's parameters. -/
@[simp] theorem params_allows (b : CircuitBreaker) (now : ℚ) :
    (b.allows now).2.failureThreshold = b.failureThreshold ∧
      (b.allows now).2.recoveryTimeoutS = b.recoveryTimeoutS ∧ (b.allows now).2.name = b.name := by
  unfold allows
  split
  · exact ⟨rfl, rfl, rfl⟩
  · split <;> exact ⟨rfl, rfl, rfl⟩
  · split <;> exact ⟨rfl, rfl, rfl⟩

/-- A shut breaker admits nobody. -/
theorem allows_of_shut {b : CircuitBreaker} {now : ℚ} (shut : b.Shut now) :
    (b.allows now).1 = false := by
  simp [allows, shut.1, not_le.mpr shut.2]

/-- A breaker that is not waiting for a probe's report admits a call at some later time. -/
theorem exists_allows {b : CircuitBreaker} (idle : ¬ b.Probing) (now : ℚ) :
    ∃ t, now ≤ t ∧ (b.allows t).1 = true := by
  rcases allows_cases b (max now (b.openedAt + b.recoveryTimeoutS)) with
    ⟨-, -, shut | probing⟩ | ⟨admitted, -, -⟩ | ⟨admitted, -⟩
  · have late := le_max_right now (b.openedAt + b.recoveryTimeoutS)
    have early := shut.2
    linarith
  · exact absurd probing idle
  · exact ⟨_, le_max_left _ _, admitted⟩
  · exact ⟨_, le_max_left _ _, admitted⟩

/-- While the probe is out, no clock reading admits a call. -/
theorem allows_of_probing {b : CircuitBreaker} (probing : b.Probing) (now : ℚ) :
    b.allows now = (false, b) := by
  simp [allows, probing.1, probing.2]

@[simp] theorem not_probing_recordSuccess (b : CircuitBreaker) : ¬ b.recordSuccess.Probing := by
  simp [recordSuccess, Probing]

/-- After a reported failure no probe is out. -/
theorem not_probing_recordFailure (b : CircuitBreaker) (now : ℚ) :
    ¬ (b.recordFailure now).Probing := by
  unfold recordFailure Probing
  simp only
  split
  · simp [trip]
  · rename_i notHalf
    split
    · simp [trip]
    · exact fun half => notHalf half.1

/-- A failure trips the breaker, or leaves a breaker that was not half-open as it was, below
the threshold. -/
theorem recordFailure_cases (b : CircuitBreaker) (now : ℚ) :
    ((b.state = .halfOpen ∨ b.failureThreshold ≤ (b.consecutiveFailures + 1 : ℕ)) ∧
      b.recordFailure now =
        { b with consecutiveFailures := b.consecutiveFailures + 1, state := .open, openedAt := now,
                 halfOpenProbeTaken := false }) ∨
    (b.state ≠ .halfOpen ∧ (b.consecutiveFailures + 1 : ℕ) < b.failureThreshold ∧
      b.recordFailure now = { b with consecutiveFailures := b.consecutiveFailures + 1 }) := by
  unfold recordFailure
  by_cases half : b.state = .halfOpen
  · exact .inl ⟨.inl half, by simp [half, trip]⟩
  · by_cases reached : b.failureThreshold ≤ (b.consecutiveFailures + 1 : ℕ)
    · exact .inl ⟨.inr reached, by simp only [half, reached, if_true, if_false, trip]⟩
    · exact .inr ⟨half, not_le.mp reached, by simp only [half, reached, if_false]⟩

/-- Every reported failure is counted. -/
theorem consecutiveFailures_recordFailure (b : CircuitBreaker) (now : ℚ) :
    (b.recordFailure now).consecutiveFailures = b.consecutiveFailures + 1 := by
  unfold recordFailure
  simp only
  split
  · rfl
  · split <;> rfl

end CircuitBreaker

/-- `BreakerRegistry`: breakers keyed by backend name, created on first use. -/
structure BreakerRegistry where
  failureThreshold : ℤ
  recoveryTimeoutS : ℚ
  breakers : String → Option CircuitBreaker

namespace BreakerRegistry

/-- A registry that has created no breaker yet. -/
def fresh (failureThreshold : ℤ) (recoveryTimeoutS : ℚ) : BreakerRegistry :=
  { failureThreshold, recoveryTimeoutS, breakers := fun _ => none }

def get (r : BreakerRegistry) (name : String) : CircuitBreaker :=
  (r.breakers name).getD
    { name, failureThreshold := r.failureThreshold, recoveryTimeoutS := r.recoveryTimeoutS }

/-- Keep what a method made of the breaker called `name`. -/
def put (r : BreakerRegistry) (name : String) (b : CircuitBreaker) : BreakerRegistry :=
  { r with breakers := Function.update r.breakers name (some b) }

@[simp] theorem get_put_self (r : BreakerRegistry) (name : String) (b : CircuitBreaker) :
    (r.put name b).get name = b := by
  simp [get, put]

@[simp] theorem get_put_ne {r : BreakerRegistry} {name other : String} (b : CircuitBreaker)
    (ne : other ≠ name) : (r.put name b).get other = r.get other := by
  simp [get, put, Function.update_of_ne ne]

end BreakerRegistry

end LLMInference
