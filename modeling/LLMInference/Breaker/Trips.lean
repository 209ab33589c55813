import LLMInference.Lib.Runs
import LLMInference.Breaker

/-!
What a trip of the breaker promises while calls are in flight.

Any number of calls ask one breaker; each admitted call reports once, at any later time. A
report carries no link to its admission, so a success counts whenever it arrives. The log
keeps the trips, the admissions and the reports that closed the breaker, and `SoundTrips` judges
each entry by those before it: nobody is admitted until the recovery time after a trip is
over, and only a call admitted after a trip closes the breaker again.

`trip_keeps_open`: the log stays sound exactly as long as every success that arrives at a
breaker that is not closed is the success of a call admitted since the latest trip.
-/

namespace LLMInference

inductive TripEvent where
  | tripped (at' : ℚ)
  /-- Call `i` is admitted. -/
  | admitted (i : ℕ) (at' : ℚ)
  /-- The success of call `i` closes a breaker that was not closed. -/
  | closed (i : ℕ)
  deriving DecidableEq, Repr

/-- What a call still owes the breaker. -/
inductive CallReport where
  | refused
  | inFlight
  | reported
  deriving DecidableEq, Repr

/-- A breaker and the calls that asked it, with the log, latest entry first. -/
structure TripRun where
  now : ℚ
  breaker : CircuitBreaker
  calls : List CallReport
  log : List TripEvent
  deriving DecidableEq, Repr

inductive TripAct where
  | clock (t : ℚ)
  /-- A new call asks `allows()`. -/
  | ask
  | succeed (i : ℕ)
  | fail (i : ℕ)
  deriving DecidableEq, Repr

/-- The next `record_failure` calls `_trip`. -/
def CircuitBreaker.Trips (b : CircuitBreaker) : Prop :=
  b.state = .halfOpen ∨ b.failureThreshold ≤ (b.consecutiveFailures + 1 : ℕ)

instance (b : CircuitBreaker) : Decidable b.Trips :=
  inferInstanceAs (Decidable (_ ∨ _))

/-- Call `i` was admitted since the latest trip. -/
def admittedSinceTrip (i : ℕ) : List TripEvent → Bool
  | [] => false
  | .tripped _ :: _ => false
  | .admitted j _ :: earlier => decide (j = i) || admittedSinceTrip i earlier
  | .closed _ :: earlier => admittedSinceTrip i earlier

/-- What an entry must meet, given the entries before it. -/
def TripEvent.Lawful (recoveryTimeoutS : ℚ) (earlier : List TripEvent) : TripEvent → Prop
  | .tripped _ => True
  | .admitted _ now => ∀ t, .tripped t ∈ earlier → t + recoveryTimeoutS ≤ now
  | .closed i => ∀ since t before, earlier = since ++ .tripped t :: before →
      ∃ now, .admitted i now ∈ since

/-- Every entry of the log is lawful. -/
def SoundTrips (recoveryTimeoutS : ℚ) : List TripEvent → Prop
  | [] => True
  | e :: earlier => e.Lawful recoveryTimeoutS earlier ∧ SoundTrips recoveryTimeoutS earlier

namespace TripRun

/-- A new breaker on a clock that reads `start`. -/
def init (name : String) (failureThreshold : ℤ) (recoveryTimeoutS start : ℚ) : TripRun where
  now := start
  breaker := { name, failureThreshold, recoveryTimeoutS }
  calls := []
  log := []

def step (s : TripRun) : TripAct → Option TripRun
  | .clock t => if s.now ≤ t then some { s with now := t } else none
  | .ask =>
      let asked := s.breaker.allows s.now
      if asked.1 then
        some { s with breaker := asked.2, calls := s.calls ++ [.inFlight],
                      log := .admitted s.calls.length s.now :: s.log }
      else some { s with breaker := asked.2, calls := s.calls ++ [.refused] }
  | .succeed i =>
      if s.calls[i]? = some .inFlight then
        some { s with breaker := s.breaker.recordSuccess, calls := s.calls.set i .reported,
                      log := if s.breaker.state = .closed then s.log else .closed i :: s.log }
      else none
  | .fail i =>
      if s.calls[i]? = some .inFlight then
        some { s with breaker := s.breaker.recordFailure s.now, calls := s.calls.set i .reported,
                      log := if s.breaker.Trips then .tripped s.now :: s.log else s.log }
      else none

/-- The run condition: a success that arrives at a breaker that is not closed is that of a
call admitted since the latest trip. -/
def Fresh (s : TripRun) : TripAct → Prop
  | .succeed i => s.breaker.state = .closed ∨ admittedSinceTrip i s.log = true
  | _ => True

instance (s : TripRun) : (a : TripAct) → Decidable (s.Fresh a)
  | .succeed _ => inferInstanceAs (Decidable (_ ∨ _))
  | .clock _ => inferInstanceAs (Decidable True)
  | .ask => inferInstanceAs (Decidable True)
  | .fail _ => inferInstanceAs (Decidable True)

/-! ### Since the latest trip is since every trip -/

section Since

variable {i : ℕ} {log : List TripEvent} {recoveryTimeoutS : ℚ}

/-- A call admitted since the latest trip was admitted after every trip. -/
theorem lawful_of_admittedSinceTrip (since : admittedSinceTrip i log = true) :
    (TripEvent.closed i).Lawful recoveryTimeoutS log := by
  induction log with
  | nil => cases since
  | cons e earlier ih =>
      intro later t before split
      cases later with
      | nil =>
          cases split
          cases since
      | cons first rest =>
          obtain ⟨rfl, tail⟩ := List.cons.inj split
          cases e with
          | tripped t' => cases since
          | admitted j now =>
              rcases (Bool.or_eq_true ..).mp since with same | since
              · exact ⟨now, of_decide_eq_true same ▸ List.mem_cons_self⟩
              · obtain ⟨now', mem⟩ := ih since rest t before tail
                exact ⟨now', List.mem_cons_of_mem _ mem⟩
          | closed j =>
              obtain ⟨now', mem⟩ := ih since rest t before tail
              exact ⟨now', List.mem_cons_of_mem _ mem⟩

/-- And once there is a trip, a lawful closing is by a call admitted since the latest. -/
theorem admittedSinceTrip_of_lawful {t : ℚ} (trip : .tripped t ∈ log)
    (lawful : (TripEvent.closed i).Lawful recoveryTimeoutS log) :
    admittedSinceTrip i log = true := by
  induction log with
  | nil => cases trip
  | cons e earlier ih =>
      -- The admission the law names for a trip further back is in front of that trip too.
      have further : (∀ now, e ≠ .admitted i now) →
          (TripEvent.closed i).Lawful recoveryTimeoutS earlier := by
        intro other later t before split
        obtain ⟨now, mem⟩ := lawful (e :: later) t before (by rw [split, List.cons_append])
        rcases List.mem_cons.mp mem with eq | mem
        · exact absurd eq.symm (other now)
        · exact ⟨now, mem⟩
      cases e with
      | tripped t' =>
          obtain ⟨_, mem⟩ := lawful [] t' earlier rfl
          cases mem
      | admitted j now =>
          have trip := (List.mem_cons.mp trip).resolve_left (by simp)
          by_cases same : j = i
          · simp [admittedSinceTrip, same]
          · have since := ih trip (further fun now' eq => same (by cases eq; rfl))
            simp [admittedSinceTrip, since]
      | closed j =>
          exact ih ((List.mem_cons.mp trip).resolve_left (by simp)) (further (by simp))

end Since

/-! ### The log of a run -/

/-- Where the breaker stands against its log. -/
structure Timed (recoveryTimeoutS : ℚ) (s : TripRun) : Prop where
  recovery : s.breaker.recoveryTimeoutS = recoveryTimeoutS
  past : ∀ t, .tripped t ∈ s.log → t ≤ s.now
  tripped : s.breaker.state ≠ .closed → ∃ t, .tripped t ∈ s.log
  /-- An open breaker was opened by the latest entry. -/
  opened : s.breaker.state = .open → ∃ earlier, s.log = .tripped s.breaker.openedAt :: earlier ∧
    ∀ t, .tripped t ∈ earlier → t ≤ s.breaker.openedAt
  /-- The recovery time of every trip is over. -/
  due : s.breaker.state ≠ .open → ∀ t, .tripped t ∈ s.log → t + recoveryTimeoutS ≤ s.now
  sound : SoundTrips recoveryTimeoutS s.log

section Step

variable {name : String} {failureThreshold : ℤ} {recoveryTimeoutS : ℚ} {s s' : TripRun}

theorem timed_init (start : ℚ) :
    (init name failureThreshold recoveryTimeoutS start).Timed recoveryTimeoutS where
  recovery := rfl
  past := fun _ mem => by cases mem
  tripped notClosed := absurd rfl notClosed
  opened := fun isOpen => by cases isOpen
  due := fun _ _ mem => by cases mem
  sound := trivial

/-- No trip is later than the one that opened an open breaker. -/
theorem Timed.le_openedAt (timed : s.Timed recoveryTimeoutS) (isOpen : s.breaker.state = .open)
    {t : ℚ} (trip : .tripped t ∈ s.log) : t ≤ s.breaker.openedAt := by
  obtain ⟨earlier, eq, before⟩ := timed.opened isOpen
  rcases List.mem_cons.mp (eq ▸ trip) with same | mem
  · cases same
    exact le_rfl
  · exact before t mem

theorem timed_ask (timed : s.Timed recoveryTimeoutS) (stepped : s.step .ask = some s') :
    s'.Timed recoveryTimeoutS := by
  simp only [step] at stepped
  rcases s.breaker.allows_cases s.now with
    ⟨refused, eq, -⟩ | ⟨admitted, closed, eq⟩ | ⟨admitted, notClosed, notShut, probing⟩
  · rw [if_neg (by simp [refused]), eq] at stepped
    cases stepped
    exact { timed with }
  · have due := timed.due (by simp [closed])
    rw [if_pos admitted, eq] at stepped
    cases stepped
    exact {
      recovery := timed.recovery
      past := fun t trip => timed.past t ((List.mem_cons.mp trip).resolve_left (by simp))
      tripped := fun notClosed => absurd closed notClosed
      opened := fun isOpen => by simp [closed] at isOpen
      due := fun _ t trip => due t ((List.mem_cons.mp trip).resolve_left (by simp))
      sound := ⟨due, timed.sound⟩ }
  · have due : ∀ t, .tripped t ∈ s.log → t + recoveryTimeoutS ≤ s.now := by
      by_cases isOpen : s.breaker.state = .open
      · intro t trip
        have passed := not_lt.mp fun early => notShut ⟨isOpen, early⟩
        have before := timed.le_openedAt isOpen trip
        rw [timed.recovery] at passed
        linarith
      · exact timed.due isOpen
    have mem : ∀ {t i now}, TripEvent.tripped t ∈ .admitted i now :: s.log → .tripped t ∈ s.log :=
      fun trip => (List.mem_cons.mp trip).resolve_left (by simp)
    rw [if_pos admitted] at stepped
    cases stepped
    exact {
      recovery := (s.breaker.params_allows s.now).2.1.trans timed.recovery
      past := fun t trip => timed.past t (mem trip)
      tripped := fun _ => (timed.tripped notClosed).imp fun t trip => List.mem_cons_of_mem _ trip
      opened := fun isOpen => by simp [probing.1] at isOpen
      due := fun _ t trip => due t (mem trip)
      sound := ⟨due, timed.sound⟩ }

theorem timed_succeed {i : ℕ} (timed : s.Timed recoveryTimeoutS) (fresh : s.Fresh (.succeed i))
    (stepped : s.step (.succeed i) = some s') : s'.Timed recoveryTimeoutS := by
  simp only [step, Option.ite_none_right_eq_some, Option.some.injEq] at stepped
  obtain ⟨-, rfl⟩ := stepped
  rcases eq_or_ne s.breaker.state .closed with closed | notClosed
  · simp only [closed, if_true]
    exact {
      recovery := timed.recovery
      past := timed.past
      tripped := fun notClosed => absurd rfl notClosed
      opened := fun isOpen => by cases isOpen
      due := fun _ => timed.due (by simp [closed])
      sound := timed.sound }
  · have since := fresh.resolve_left notClosed
    have notOpen : s.breaker.state ≠ .open := by
      intro isOpen
      obtain ⟨earlier, eq, -⟩ := timed.opened isOpen
      rw [eq] at since
      cases since
    have mem : ∀ {t}, TripEvent.tripped t ∈ .closed i :: s.log → .tripped t ∈ s.log :=
      fun trip => (List.mem_cons.mp trip).resolve_left (by simp)
    simp only [notClosed, if_false]
    exact {
      recovery := timed.recovery
      past := fun t trip => timed.past t (mem trip)
      tripped := fun notClosed => absurd rfl notClosed
      opened := fun isOpen => by cases isOpen
      due := fun _ t trip => timed.due notOpen t (mem trip)
      sound := ⟨lawful_of_admittedSinceTrip since, timed.sound⟩ }

theorem timed_fail {i : ℕ} (timed : s.Timed recoveryTimeoutS)
    (stepped : s.step (.fail i) = some s') : s'.Timed recoveryTimeoutS := by
  simp only [step, Option.ite_none_right_eq_some, Option.some.injEq] at stepped
  obtain ⟨-, rfl⟩ := stepped
  rcases s.breaker.recordFailure_cases s.now with ⟨trips, eq⟩ | ⟨notHalf, below, eq⟩
  · have trips : s.breaker.Trips := trips
    simp only [trips, if_true, eq]
    exact {
      recovery := timed.recovery
      past := fun t trip => by
        rcases List.mem_cons.mp trip with same | mem
        · cases same
          exact le_rfl
        · exact timed.past t mem
      tripped := fun _ => ⟨s.now, List.mem_cons_self⟩
      opened := fun _ => ⟨s.log, rfl, timed.past⟩
      due := fun notOpen => absurd rfl notOpen
      sound := ⟨trivial, timed.sound⟩ }
  · have stays : ¬ s.breaker.Trips := not_or.mpr ⟨notHalf, not_le.mpr below⟩
    simp only [stays, if_false, eq]
    exact { timed with }

theorem timed_step {a : TripAct} (timed : s.Timed recoveryTimeoutS) (fresh : s.Fresh a)
    (stepped : s.step a = some s') : s'.Timed recoveryTimeoutS := by
  cases a with
  | clock t =>
      simp only [step, Option.ite_none_right_eq_some, Option.some.injEq] at stepped
      obtain ⟨later, rfl⟩ := stepped
      exact { timed with
        past := fun t' trip => (timed.past t' trip).trans later
        due := fun notOpen t' trip => (timed.due notOpen t' trip).trans later }
  | ask => exact timed_ask timed stepped
  | succeed i => exact timed_succeed timed fresh stepped
  | fail i => exact timed_fail timed stepped

/-- A step that breaks the run condition leaves an unlawful entry. -/
theorem not_sound_of_stale {a : TripAct} (timed : s.Timed recoveryTimeoutS) (stale : ¬ s.Fresh a)
    (stepped : s.step a = some s') : ¬ SoundTrips recoveryTimeoutS s'.log := by
  cases a with
  | succeed i =>
      obtain ⟨notClosed, notSince⟩ := not_or.mp stale
      simp only [step, Option.ite_none_right_eq_some, Option.some.injEq] at stepped
      obtain ⟨-, rfl⟩ := stepped
      simp only [notClosed, if_false]
      rintro ⟨lawful, -⟩
      obtain ⟨t, trip⟩ := timed.tripped notClosed
      exact notSince (admittedSinceTrip_of_lawful trip lawful)
  | clock t => exact absurd trivial stale
  | ask => exact absurd trivial stale
  | fail i => exact absurd trivial stale

end Step

/-- In every run in which a success that arrives at a breaker that is not closed is that of
a call admitted since the latest trip, nobody is admitted before the recovery time after a
trip is over, and only a call admitted after a trip closes the breaker. The first step that
breaks the condition breaks the promise. -/
theorem trip_keeps_open {name : String} {failureThreshold : ℤ} {recoveryTimeoutS start : ℚ}
    {s : TripRun}
    (reached : Runs.Reaches step Fresh (init name failureThreshold recoveryTimeoutS start) s) :
    SoundTrips recoveryTimeoutS s.log ∧
      ∀ a s', s.step a = some s' → (SoundTrips recoveryTimeoutS s'.log ↔ s.Fresh a) := by
  have timed : s.Timed recoveryTimeoutS :=
    reached.invariant (timed_init start)
      fun _ _ _ timed fresh stepped => timed_step timed fresh stepped
  refine ⟨timed.sound, fun a s' stepped => ⟨fun sound => ?_, fun fresh => ?_⟩⟩
  · by_contra stale
    exact not_sound_of_stale timed stale stepped sound
  · exact (timed_step timed fresh stepped).sound

/-- A failure trips the breaker, and the probe after the recovery time closes it. -/
theorem trip_keeps_open_probe :
    ∃ s, Runs.Reaches step Fresh (init "small" 1 30 0) s ∧ s.breaker.state = .closed ∧
      .tripped 0 ∈ s.log ∧ SoundTrips 30 s.log := by
  have holds : Runs.execHolds step Fresh (init "small" 1 30 0)
      [.ask, .fail 0, .clock 30, .ask, .succeed 1]
      (fun s => decide (s.breaker.state = .closed ∧ .tripped 0 ∈ s.log)) = true := by
    decide +kernel
  obtain ⟨s, reached, found⟩ := Runs.exists_reaches_of_execHolds _ _ holds
  obtain ⟨closed, trip⟩ := of_decide_eq_true found
  exact ⟨s, reached, closed, trip, (trip_keeps_open reached).1⟩

/-- Of two calls in flight the first trips the breaker and the second closes it at once:
the next call is admitted at the time of the trip. -/
theorem late_success_closes :
    ∃ s, Runs.Reaches step Runs.Always (init "small" 1 30 0) s ∧
      s.log = [.admitted 2 0, .closed 1, .tripped 0, .admitted 1 0, .admitted 0 0] ∧
      ¬ SoundTrips 30 s.log := by
  have holds : Runs.execHolds step Runs.Always (init "small" 1 30 0)
      [.ask, .ask, .fail 0, .succeed 1, .ask]
      (fun s => decide (s.log =
        [.admitted 2 0, .closed 1, .tripped 0, .admitted 1 0, .admitted 0 0])) = true := by
    decide +kernel
  obtain ⟨s, reached, found⟩ := Runs.exists_reaches_of_execHolds _ _ holds
  have log := of_decide_eq_true found
  refine ⟨s, reached, log, ?_⟩
  rw [log]
  rintro ⟨early, -⟩
  have := early 0 (by simp)
  norm_num at this

end TripRun

end LLMInference
