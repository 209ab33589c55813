import LLMInference.Cost.Memory
import LLMInference.Service.History

/-!
What `metrics.in_flight` counts (`app/metrics.py`, `app/service.py`): the requests whose
start was recorded and whose end was not.

* `Trans.flight_cases`: what a step of a request does to the counter.
* `inFlight_counts`: the counter in every reached state. A request that is over but whose end
  was never recorded stays counted.
-/

namespace LLMInference

open Runs

/-- How far a request is for the metrics. -/
inductive Flight where
  | ahead
  /-- Its start is recorded. -/
  | running
  /-- Its end is recorded as well. -/
  | landed
  | gone
  deriving DecidableEq, Repr

def Phase.flight : Phase → Flight
  | .attempting .. | .generating .. | .settling .. | .refunding .. | .yielded .. | .pulling ..
  | .finalizing .. | .storing .. => .running
  | .caching .. => .landed
  | .done _ => .gone
  | _ => .ahead

/-- The request's start is recorded and its end is not. -/
def InFlight (i : ℕ) (log : List Event) : Prop := .started i ∈ log ∧ .finished i ∉ log

instance (i : ℕ) (log : List Event) : Decidable (InFlight i log) :=
  inferInstanceAs (Decidable (_ ∧ _))

theorem Phase.flight_of_quiet {ph : Phase} (quiet : ph.quiet = true) : ph.flight = .ahead := by
  cases ph <;> first | rfl | cases quiet

section Steps

variable {σ : Type} {B : LedgerBackend σ} {ts : TextSupport} {s : Settings}

/-- What a step of request `i` does to the counter. -/
inductive FlightMove (i : ℕ) (n n' : ℤ) (ph ph' : Phase) (evs : List Event) : Prop
  | kept (same : n' = n) (flight : ph'.flight = ph.flight ∨ ph'.flight = .gone)
      (started : evs.count (.started i) = 0) (finished : evs.count (.finished i) = 0)
  | started (more : n' = n + 1) (before : ph.flight = .ahead) (after : ph'.flight = .running)
      (started : evs.count (.started i) = 1) (finished : evs.count (.finished i) = 0)
  | finished (less : n' = max 0 (n - 1)) (before : ph.flight = .running)
      (after : ph'.flight = .landed ∨ ph'.flight = .gone)
      (started : evs.count (.started i) = 0) (finished : evs.count (.finished i) = 1)

theorem Trans.flight_cases {i : ℕ} {req : Request} {streaming : Bool} {sh sh' : Shared σ}
    {ph ph' : Phase} {a : TaskAct} {evs : List Event}
    (step : Trans B ts s i req streaming sh ph a sh' ph' evs) :
    FlightMove i sh.metrics.inFlight sh'.metrics.inFlight ph ph' evs := by
  cases step
  case enterBuffered entering | enterStreamed entering =>
    cases entering with
    | atOnce _ => exact .started rfl rfl rfl (by simp) (by simp)
    | woken _ _ => exact .started rfl rfl rfl (by simp) (by simp)
  case exit exiting => cases exiting <;> exact .kept rfl (.inl rfl) rfl rfl
  case quit quiet => exact .kept rfl (.inr rfl) rfl rfl
  case rejected same => exact .kept same (.inr rfl) rfl rfl
  case miss same => exact .kept same (.inl rfl) rfl rfl
  case deniedNext same => exact .kept same (.inl rfl) rfl rfl
  case deniedRaise same => exact .kept same (.inl rfl) (by simp) (by simp)
  case faultNext same => exact .kept same (.inl rfl) (by simp) (by simp)
  case settleCache | settleReturn | finalizeClose =>
    refine .finished rfl rfl ?_ ?_ ?_
    · first | exact .inl rfl | exact .inr rfl
    · simp [List.count_append, count_settleEvents]
    · simp [List.count_append, count_settleEvents]
  case refund =>
    refine .finished rfl rfl (.inr rfl) ?_ ?_
    · simp [List.count_append, count_releaseEvents]
    · simp [List.count_append, count_releaseEvents]
  case storeClose => exact .finished rfl rfl (.inr rfl) (by simp) (by simp)
  case settleRaise | finalizeStore | cancelSettle =>
    refine .kept rfl ?_ ?_ ?_
    · first | exact .inl rfl | exact .inr rfl
    · simp [List.count_append, count_settleEvents]
    · simp [List.count_append, count_settleEvents]
  case finishShed | cancelShed | refundRaise | cancelRefund =>
    refine .kept rfl (.inr rfl) ?_ ?_
    · simp [List.count_append, count_releaseEvents]
    · simp [List.count_append, count_releaseEvents]
  case granted | refused | cancelReserve =>
    refine .kept rfl ?_ (by split <;> simp) (by split <;> simp)
    first | exact .inl rfl | exact .inr rfl
  all_goals
    refine .kept rfl ?_ (by simp) (by simp)
    first | exact .inl rfl | exact .inr rfl

/-- The history of a request's start and end. -/
structure FlightStory (i : ℕ) (t : Task) (h : List Event) : Prop where
  once : h.count (.started i) ≤ 1
  order : h.count (.finished i) ≤ h.count (.started i)
  ahead : t.phase.flight = .ahead → h.count (.started i) = 0
  running : t.phase.flight = .running →
    h.count (.started i) = 1 ∧ h.count (.finished i) = 0
  landed : t.phase.flight = .landed → h.count (.finished i) = 1

/-- A request that arrives has done nothing yet. -/
theorem FlightStory.arrived (i : ℕ) (request : Request) (streaming : Bool) :
    FlightStory i { request, streaming, phase := .arrived } [] where
  once := Nat.zero_le _
  order := le_rfl
  ahead _ := rfl
  running flying := by cases flying
  landed landed := by cases landed

theorem FlightStory.step {i : ℕ} {t : Task} {h : List Event} {sh sh' : Shared σ} {ph' : Phase}
    {a : TaskAct} {evs : List Event} (story : FlightStory i t h)
    (step : Trans B ts s i t.request t.streaming sh t.phase a sh' ph' evs) :
    FlightStory i { t with phase := ph' } (h ++ history i evs) := by
  have counts : ∀ e : Event, e.request = some i →
      (h ++ history i evs).count e = h.count e + evs.count e := by
    intro e about
    rw [List.count_append, count_history about]
  obtain ⟨once, order, ahead, running, landed⟩ := story
  have starts := counts (.started i) rfl
  have ends := counts (.finished i) rfl
  cases step.flight_cases with
  | kept _ flight started finished =>
      rw [started, Nat.add_zero] at starts
      rw [finished, Nat.add_zero] at ends
      refine ⟨by omega, by omega, ?_, ?_, ?_⟩
      all_goals
        intro here
        rcases flight with same | gone
        · first
          | rw [starts, ends]; exact running (same ▸ here)
          | rw [starts]; exact ahead (same ▸ here)
          | rw [ends]; exact landed (same ▸ here)
        · cases gone.symm.trans here
  | started _ before after started finished =>
      have none := ahead before
      refine ⟨by omega, by omega, ?_, fun _ => ⟨by omega, by omega⟩, ?_⟩
      · exact fun here => by cases after.symm.trans here
      · exact fun here => by cases after.symm.trans here
  | finished _ before after started finished =>
      obtain ⟨one, zero⟩ := running before
      refine ⟨by omega, by omega, ?_, ?_, fun _ => by omega⟩
      · intro here
        rcases after with landing | gone
        · cases landing.symm.trans here
        · cases gone.symm.trans here
      · intro here
        rcases after with landing | gone
        · cases landing.symm.trans here
        · cases gone.symm.trans here

theorem flightStory_of_reaches {ok : World σ → WorldAct → Prop} {ledger : σ} {w : World σ}
    (reached : Reaches (World.step B ts s) ok (World.start s ledger) w) :
    ∀ i t, w.tasks[i]? = some t → FlightStory i t (history i w.log) :=
  each_history ⟨rfl, rfl⟩ reached
    (fun i request streaming => .arrived i request streaming)
    fun _ _ _ _ _ _ _ _ _ _ step story => story.step step

/-- Being in flight, read off the history. -/
theorem inFlight_iff {i : ℕ} {log : List Event} :
    InFlight i log ↔
      0 < (history i log).count (.started i) ∧ (history i log).count (.finished i) = 0 := by
  rw [count_history rfl, count_history rfl, List.count_pos_iff, List.count_eq_zero]
  rfl

/-- How many requests are in flight. -/
def World.flights (w : World σ) : ℕ :=
  (List.range w.tasks.length).countP fun i => decide (InFlight i w.log)

/-- The counter is right. -/
def World.CountsFlights (w : World σ) : Prop := w.shared.metrics.inFlight = w.flights

/-- The counter around a step of one request. -/
theorem World.CountsFlights.task {w : World σ} {i : ℕ} {t : Task} {sh : Shared σ} {ph : Phase}
    {a : TaskAct} {evs : List Event} (counts : w.CountsFlights)
    (story : FlightStory i t (history i w.log)) (here : w.tasks[i]? = some t)
    (step : Trans B ts s i t.request t.streaming w.shared t.phase a sh ph evs) :
    World.CountsFlights
      { shared := sh, tasks := w.tasks.set i { t with phase := ph }, log := w.log ++ evs } := by
  have inside := (List.getElem?_eq_some_iff.mp here).1
  have others : ∀ j, j ≠ i → decide (InFlight j (w.log ++ evs)) = decide (InFlight j w.log) := by
    intro j ne
    apply decide_eq_decide.mpr
    rw [inFlight_iff, inFlight_iff, history_append, step.history_eq_nil ne, List.append_nil]
  have change := Pool.countP_range_change inside others
  have starts : (history i (w.log ++ evs)).count (.started i) =
      (history i w.log).count (.started i) + evs.count (.started i) := by
    rw [history_append, List.count_append, count_history rfl evs]
  have ends : (history i (w.log ++ evs)).count (.finished i) =
      (history i w.log).count (.finished i) + evs.count (.finished i) := by
    rw [history_append, List.count_append, count_history rfl evs]
  unfold World.CountsFlights World.flights at counts ⊢
  simp only [List.length_set]
  cases step.flight_cases with
  | kept same _ started finished =>
      have still : InFlight i (w.log ++ evs) ↔ InFlight i w.log := by
        rw [inFlight_iff, inFlight_iff, starts, ends, started, finished]
        rfl
      simp only [still] at change
      omega
  | started more before _ started finished =>
      have none := story.ahead before
      have order := story.order
      have grounded : ¬ InFlight i w.log := by
        rw [inFlight_iff]
        omega
      have flying : InFlight i (w.log ++ evs) := by
        rw [inFlight_iff]
        omega
      rw [decide_eq_true flying, decide_eq_false grounded, if_pos rfl,
        if_neg Bool.false_ne_true] at change
      omega
  | finished less before _ started finished =>
      obtain ⟨one, zero⟩ := story.running before
      have flying : InFlight i w.log := by
        rw [inFlight_iff]
        omega
      have grounded : ¬ InFlight i (w.log ++ evs) := by
        rw [inFlight_iff]
        omega
      rw [decide_eq_true flying, decide_eq_false grounded, if_pos rfl,
        if_neg Bool.false_ne_true] at change
      omega

/-- In every reached state `in_flight` counts the requests whose start is recorded and whose
end is not. -/
theorem inFlight_counts {ok : World σ → WorldAct → Prop} {ledger : σ} {w : World σ}
    (reached : Reaches (World.step B ts s) ok (World.start s ledger) w) : w.CountsFlights := by
  apply reached.invariant_of (I := World.CountsFlights) rfl
  intro w a w' before counts _ stepped
  cases worldTrans_of_step stepped with
  | submit =>
      have grounded : ¬ InFlight w.tasks.length w.log := by
        rw [inFlight_iff, history_of_new ⟨rfl, rfl⟩ before _ le_rfl]
        exact fun flying => Nat.lt_irrefl 0 flying.1
      unfold World.CountsFlights World.flights at counts ⊢
      rw [List.length_append, List.length_singleton, List.range_succ, List.countP_append,
        List.countP_singleton, decide_eq_false grounded]
      exact counts
  | clock => exact counts
  | scale _ => exact counts
  | task here step => exact counts.task (flightStory_of_reaches before _ _ here) here step

end Steps

end LLMInference
