import LLMInference.Lib.Runs
import LLMInference.Breaker

/-!
One breaker and the calls made of its methods, in any order on a clock that does not run
back.

`BreakerRun` keeps the record of what happened beside the breaker. `Determined` says how the
breaker's fields are read off that record; every method preserves it, so the state is a
function of the history (`breaker_determined_by_history`).
-/

namespace LLMInference

/-- What the methods of a breaker leave in its history. -/
inductive BreakerEvent where
  | success
  | failure (at' : ℚ)
  /-- A call was admitted by a breaker found in the given state. -/
  | admitted (at' : ℚ) (found : BreakerState)
  | refused (at' : ℚ)
  deriving DecidableEq, Repr

/-- A breaker, the last reading of its clock, and its history, latest event first. -/
structure BreakerRun where
  breaker : CircuitBreaker
  clock : ℚ
  history : List BreakerEvent
  deriving DecidableEq, Repr

/-- One call of a method, with the readings of the clock it makes. -/
inductive BreakerMethod where
  | allows (now : ℚ)
  /-- `check()` reads the clock a second time when it raises. -/
  | check (now later : ℚ)
  | recordSuccess
  | recordFailure (now : ℚ)
  deriving DecidableEq, Repr

/-- The failures recorded since the last success. -/
def failuresSince : List BreakerEvent → ℕ
  | [] => 0
  | .success :: _ => 0
  | .failure _ :: earlier => failuresSince earlier + 1
  | _ :: earlier => failuresSince earlier

/-- When the latest failure was recorded. -/
def latestFailure : List BreakerEvent → Option ℚ
  | [] => none
  | .failure t :: _ => some t
  | _ :: earlier => latestFailure earlier

/-- The calls admitted since the last record, latest first: when, and in which state they
found the breaker. -/
def admittedSince : List BreakerEvent → List (ℚ × BreakerState)
  | [] => []
  | .success :: _ => []
  | .failure _ :: _ => []
  | .admitted t found :: earlier => (t, found) :: admittedSince earlier
  | .refused _ :: earlier => admittedSince earlier

namespace BreakerRun

/-- A new breaker on a clock that reads `start`. -/
def init (name : String) (failureThreshold : ℤ) (recoveryTimeoutS start : ℚ) : BreakerRun :=
  { breaker := { name, failureThreshold, recoveryTimeoutS }, clock := start, history := [] }

/-- What `allows()` leaves in the history. -/
def asked (s : BreakerRun) (now : ℚ) : BreakerEvent :=
  if (s.breaker.allows now).1 then .admitted now s.breaker.state else .refused now

/-- One method call; a clock that runs back is no run. -/
def step (s : BreakerRun) : BreakerMethod → Option BreakerRun
  | .allows now =>
      if s.clock ≤ now then
        some { breaker := (s.breaker.allows now).2, clock := now,
               history := s.asked now :: s.history }
      else none
  | .check now later =>
      if s.clock ≤ now ∧ now ≤ later then
        some { breaker := (s.breaker.check now later).2, clock := later,
               history := s.asked now :: s.history }
      else none
  | .recordSuccess =>
      some { s with breaker := s.breaker.recordSuccess, history := .success :: s.history }
  | .recordFailure now =>
      if s.clock ≤ now then
        some { breaker := s.breaker.recordFailure now, clock := now,
               history := .failure now :: s.history }
      else none

/-- The breaker's fields, read off its history. -/
structure Determined (name : String) (failureThreshold : ℤ) (recoveryTimeoutS : ℚ)
    (s : BreakerRun) : Prop where
  name : s.breaker.name = name
  threshold : s.breaker.failureThreshold = failureThreshold
  recovery : s.breaker.recoveryTimeoutS = recoveryTimeoutS
  counted : s.breaker.consecutiveFailures = failuresSince s.history
  closed : s.breaker.state = .closed ↔ (failuresSince s.history : ℤ) < failureThreshold
  /-- Only a failure opens the breaker, and it is the latest one that set the time. -/
  opened : s.breaker.state ≠ .closed → latestFailure s.history = some s.breaker.openedAt
  /-- Nobody was admitted since a breaker opened. -/
  shut : s.breaker.state = .open → admittedSince s.history = []
  /-- The probe of a half-open breaker is gone: one call since the last record, which
  found the breaker open and the recovery time over. -/
  probed : s.breaker.state = .halfOpen → s.breaker.halfOpenProbeTaken = true ∧
    ∃ t, admittedSince s.history = [(t, .open)] ∧ recoveryTimeoutS ≤ t - s.breaker.openedAt

section Step

variable {name : String} {failureThreshold : ℤ} {recoveryTimeoutS : ℚ} {s : BreakerRun}

theorem determined_init (positive : 1 ≤ failureThreshold) (start : ℚ) :
    (init name failureThreshold recoveryTimeoutS start).Determined name failureThreshold
      recoveryTimeoutS where
  name := rfl
  threshold := rfl
  recovery := rfl
  counted := rfl
  closed := by
    simp only [init, failuresSince, Nat.cast_zero, true_iff]
    omega
  opened notClosed := absurd rfl notClosed
  shut := fun isOpen => by cases isOpen
  probed := fun half => by cases half

/-- A refused call changes nothing. -/
theorem determined_refused {now clock : ℚ}
    (determined : s.Determined name failureThreshold recoveryTimeoutS)
    (refused : s.breaker.allows now = (false, s.breaker)) :
    Determined name failureThreshold recoveryTimeoutS
      { breaker := (s.breaker.allows now).2, clock, history := s.asked now :: s.history } := by
  have event : s.asked now = .refused now := by simp [asked, refused]
  rw [event, refused]
  exact { determined with }

/-- An open breaker whose time is over takes its one probe; otherwise asking changes
nothing. -/
theorem determined_asked {now clock : ℚ}
    (determined : s.Determined name failureThreshold recoveryTimeoutS) :
    Determined name failureThreshold recoveryTimeoutS
      { breaker := (s.breaker.allows now).2, clock, history := s.asked now :: s.history } := by
  cases state : s.breaker.state with
  | closed =>
      have admitted : s.breaker.allows now = (true, s.breaker) := by
        simp [CircuitBreaker.allows, state]
      have event : s.asked now = .admitted now .closed := by simp [asked, admitted, state]
      rw [event, admitted]
      exact { determined with
        shut := fun isOpen => by simp [state] at isOpen
        probed := fun half => by simp [state] at half }
  | «open» =>
      by_cases due : s.breaker.recoveryTimeoutS ≤ now - s.breaker.openedAt
      · have admitted : s.breaker.allows now =
            (true, { s.breaker with state := .halfOpen, halfOpenProbeTaken := true }) := by
          simp [CircuitBreaker.allows, state, due]
        have event : s.asked now = .admitted now .open := by simp [asked, admitted, state]
        have notClosed : s.breaker.state ≠ .closed := by simp [state]
        rw [event, admitted]
        exact { determined with
          closed := iff_of_false (by simp) fun few => notClosed (determined.closed.mpr few)
          opened := fun _ => determined.opened notClosed
          shut := fun isOpen => by cases isOpen
          probed := fun _ => ⟨rfl, now, by simp [admittedSince, determined.shut state],
            determined.recovery ▸ due⟩ }
      · exact determined_refused determined (by simp [CircuitBreaker.allows, state, due])
  | halfOpen =>
      exact determined_refused determined
        (by simp [CircuitBreaker.allows, state, (determined.probed state).1])

theorem determined_failure {now : ℚ}
    (determined : s.Determined name failureThreshold recoveryTimeoutS) :
    Determined name failureThreshold recoveryTimeoutS
      { breaker := s.breaker.recordFailure now, clock := now,
        history := .failure now :: s.history } := by
  have counted : (failuresSince (.failure now :: s.history) : ℤ) =
      (s.breaker.consecutiveFailures + 1 : ℕ) := by
    rw [failuresSince, determined.counted]
  rcases s.breaker.recordFailure_cases now with ⟨trips, eq⟩ | ⟨notHalf, below, eq⟩
  · have enough : failureThreshold ≤ (s.breaker.consecutiveFailures + 1 : ℕ) := by
      rcases trips with half | reached
      · have many := not_lt.mp (fun few => absurd (determined.closed.mpr few) (by simp [half]))
        rw [← determined.counted] at many
        push_cast
        omega
      · exact determined.threshold ▸ reached
    rw [eq]
    exact {
      name := determined.name
      threshold := determined.threshold
      recovery := determined.recovery
      counted := by simp [failuresSince, determined.counted]
      closed := iff_of_false (by simp) (by rw [counted]; omega)
      opened := fun _ => rfl
      shut := fun _ => rfl
      probed := fun half => by cases half }
  · rw [determined.threshold] at below
    have closed : s.breaker.state = .closed := by
      refine determined.closed.mpr ?_
      rw [← determined.counted]
      push_cast at below
      omega
    rw [eq]
    exact {
      name := determined.name
      threshold := determined.threshold
      recovery := determined.recovery
      counted := by simp [failuresSince, determined.counted]
      closed := iff_of_true closed (by rw [counted]; exact below)
      opened := fun notClosed => absurd closed notClosed
      shut := fun isOpen => by simp [closed] at isOpen
      probed := fun half => absurd half notHalf }

theorem determined_success (positive : 1 ≤ failureThreshold)
    (determined : s.Determined name failureThreshold recoveryTimeoutS) :
    Determined name failureThreshold recoveryTimeoutS
      { s with breaker := s.breaker.recordSuccess, history := .success :: s.history } where
  name := determined.name
  threshold := determined.threshold
  recovery := determined.recovery
  counted := rfl
  closed := iff_of_true rfl (by simp only [failuresSince, Nat.cast_zero]; omega)
  opened notClosed := absurd rfl notClosed
  shut := fun isOpen => by cases isOpen
  probed := fun half => by cases half

/-- Every method keeps the breaker a function of its history. -/
theorem determined_step (positive : 1 ≤ failureThreshold) {s' : BreakerRun} {m : BreakerMethod}
    (determined : s.Determined name failureThreshold recoveryTimeoutS)
    (stepped : s.step m = some s') : s'.Determined name failureThreshold recoveryTimeoutS := by
  cases m with
  | allows now =>
      simp only [step, Option.ite_none_right_eq_some, Option.some.injEq] at stepped
      exact stepped.2 ▸ determined_asked determined
  | check now later =>
      simp only [step, Option.ite_none_right_eq_some, Option.some.injEq] at stepped
      exact stepped.2 ▸ determined_asked determined
  | recordSuccess =>
      cases stepped
      exact determined_success positive determined
  | recordFailure now =>
      simp only [step, Option.ite_none_right_eq_some, Option.some.injEq] at stepped
      exact stepped.2 ▸ determined_failure determined

/-- An open breaker admits a call exactly when the recovery time is over. -/
theorem allows_of_open {b : CircuitBreaker} (isOpen : b.state = .open) (t : ℚ) :
    (b.allows t).1 = true ↔ b.recoveryTimeoutS ≤ t - b.openedAt := by
  by_cases due : b.recoveryTimeoutS ≤ t - b.openedAt
  · simp [CircuitBreaker.allows, isOpen, due]
  · simp [CircuitBreaker.allows, isOpen, due]

/-- The time a raised `CircuitOpenError` names is the time left. -/
theorem check_of_open {b : CircuitBreaker} (isOpen : b.state = .open) {now later retry : ℚ}
    {named : String} (raised : (b.check now later).1 = .error (named, retry)) :
    named = b.name ∧ (b.check now later).2 = b ∧
      ∀ t, later ≤ t → ((b.allows t).1 = true ↔ later + retry ≤ t) := by
  by_cases due : b.recoveryTimeoutS ≤ now - b.openedAt
  · simp [CircuitBreaker.check, CircuitBreaker.allows, isOpen, due] at raised
  · have refused : b.allows now = (false, b) := by simp [CircuitBreaker.allows, isOpen, due]
    simp only [CircuitBreaker.check, refused, Bool.false_eq_true, if_false, Except.error.injEq,
      Prod.mk.injEq, CircuitBreaker.retryAfterS, isOpen] at raised
    refine ⟨raised.1.symm, by rw [CircuitBreaker.check, refused], fun t after => ?_⟩
    rw [allows_of_open isOpen, ← raised.2]
    rcases le_total 0 (b.recoveryTimeoutS - (later - b.openedAt)) with left | passed
    · rw [max_eq_right left]
      constructor <;> intro h <;> linarith
    · rw [max_eq_left passed]
      constructor <;> intro h <;> linarith

end Step

/-- The state of a breaker is determined by its history. It is closed exactly when fewer
failures than the threshold were recorded since the last success; a half-open one has
admitted one call since the last record, the one that found it open, and admits nobody; an
open one was opened by the latest failure, admits a call exactly when the recovery time is
over, and says in a raised error how long that still takes. -/
theorem breaker_determined_by_history {name : String} {failureThreshold : ℤ}
    {recoveryTimeoutS start : ℚ} {s : BreakerRun} (positive : 1 ≤ failureThreshold)
    (reached : Runs.Reaches step Runs.Always
      (init name failureThreshold recoveryTimeoutS start) s) :
    (s.breaker.state = .closed ↔ (failuresSince s.history : ℤ) < failureThreshold) ∧
    (s.breaker.state = .halfOpen → s.breaker.halfOpenProbeTaken = true ∧
      (∃ t, admittedSince s.history = [(t, .open)]) ∧ ∀ t, (s.breaker.allows t).1 = false) ∧
    (s.breaker.state = .open → latestFailure s.history = some s.breaker.openedAt ∧
      admittedSince s.history = [] ∧
      (∀ t, (s.breaker.allows t).1 = true ↔ recoveryTimeoutS ≤ t - s.breaker.openedAt) ∧
      ∀ now later named retry, (s.breaker.check now later).1 = .error (named, retry) →
        named = name ∧ (s.breaker.check now later).2 = s.breaker ∧
          ∀ t, later ≤ t → ((s.breaker.allows t).1 = true ↔ later + retry ≤ t)) := by
  have determined : s.Determined name failureThreshold recoveryTimeoutS :=
    reached.invariant (determined_init positive start)
      fun _ _ _ determined _ stepped => determined_step positive determined stepped
  refine ⟨determined.closed, ?_, ?_⟩
  · intro half
    obtain ⟨taken, t, admitted, -⟩ := determined.probed half
    refine ⟨taken, ⟨t, admitted⟩, fun t => ?_⟩
    rw [CircuitBreaker.allows_of_probing ⟨half, taken⟩]
  · intro isOpen
    refine ⟨determined.opened (by simp [isOpen]), determined.shut isOpen, ?_, ?_⟩
    · exact fun t => determined.recovery ▸ allows_of_open isOpen t
    · intro now later named retry raised
      exact determined.name ▸ check_of_open isOpen raised

/-- Two failures open a breaker of threshold two; ten seconds later a call is told to wait
for the other twenty. -/
theorem breaker_determined_after_two_failures :
    ∃ s, Runs.Reaches step Runs.Always (init "small" 2 30 0) s ∧ s.breaker.state = .open ∧
      latestFailure s.history = some s.breaker.openedAt ∧
      ∀ t, 11 ≤ t → ((s.breaker.allows t).1 = true ↔ 11 + 20 ≤ t) := by
  have holds : Runs.execHolds step Runs.Always (init "small" 2 30 0)
      [.allows 0, .recordFailure 0, .allows 1, .recordFailure 1]
      (fun s => decide (s.breaker.state = .open) &&
        decide ((s.breaker.check 11 11).1 = .error ("small", 20))) = true := by
    decide +kernel
  obtain ⟨s, reached, found⟩ := Runs.exists_reaches_of_execHolds _ _ holds
  rw [Bool.and_eq_true, decide_eq_true_eq, decide_eq_true_eq] at found
  obtain ⟨latest, -, -, waits⟩ :=
    (breaker_determined_by_history (by norm_num) reached).2.2 found.1
  exact ⟨s, reached, found.1, latest, (waits 11 11 "small" 20 found.2).2.2⟩

end BreakerRun

end LLMInference
