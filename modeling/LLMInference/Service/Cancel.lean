import LLMInference.Cost.Redis
import LLMInference.Service.Billing
import LLMInference.Service.InFlight

/-!
What a cancellation leaves behind (`app/service.py`).

A request that is cancelled after its reservation was granted should leave with the
reservation settled or released and out of `in_flight` (`Cleared`). `CancelledError` is not an
`Exception`: neither `_admit` nor the `except` branch of `handle` sees it, so a cancellation
clears only where the refund or the charge has been made, or is being made, anyway.

* `cancel_clears_iff`: when it does, in every state of the service and for good.
-/

namespace LLMInference

open Runs

/-- The request's reservation was settled or released, and `in_flight` does not count it. -/
def Cleared (i : ℕ) (log : List Event) : Prop := ¬ Unclosed i log ∧ ¬ InFlight i log

instance (i : ℕ) (log : List Event) : Decidable (Cleared i log) :=
  inferInstanceAs (Decidable (_ ∧ _))

/-- The cancellation lands after a settle that took effect, or in the release of a shed
request, which then takes effect. -/
def CleanCancel (i : ℕ) (ph : Phase) (log : List Event) (executed : Bool) : Prop :=
  match ph with
  | .caching .. => tally .settled (history i log) = 1
  | .shedding _ => executed = true
  | _ => False

instance (i : ℕ) (ph : Phase) (log : List Event) (executed : Bool) :
    Decidable (CleanCancel i ph log executed) :=
  match ph with
  | .caching .. => inferInstanceAs (Decidable (_ = _))
  | .shedding _ => inferInstanceAs (Decidable (_ = _))
  | .arrived | .lookup _ | .reserving _ | .granted .. | .queued .. | .attempting .. | .generating ..
  | .settling .. | .refunding .. | .yielded .. | .pulling .. | .finalizing .. | .storing ..
  | .replaying _ | .done _ => inferInstanceAs (Decidable False)

section Steps

variable {σ : Type} {B : LedgerBackend σ} {ts : TextSupport} {s : Settings}

/-- A generated stream is a stream, and has begun. -/
def Begun (i : ℕ) (t : Task) (h : List Event) : Prop :=
  match t.phase with
  | .yielded .. | .pulling _ => t.streaming = true ∧ ∃ e, .emitted i e ∈ h
  | _ => True

theorem Begun.step {i : ℕ} {t : Task} {h : List Event} {sh sh' : Shared σ} {ph' : Phase}
    {a : TaskAct} {evs : List Event} (begun : Begun i t h)
    (step : Trans B ts s i t.request t.streaming sh t.phase a sh' ph' evs) :
    Begun i { t with phase := ph' } (h ++ history i evs) := by
  obtain ⟨req, streaming, ph⟩ := t
  simp only at step
  have grow : (∃ e, .emitted i e ∈ h) → ∃ e, .emitted i e ∈ h ++ history i evs :=
    fun ⟨e, mem⟩ => ⟨e, List.mem_append_left _ mem⟩
  cases step
  case enterStreamed streamed _ =>
    exact ⟨streamed, _, List.mem_append_right _ (by simp [Event.request]; rfl)⟩
  case begin | resume | chunkText | chunkEmpty | exhausted | streamFault | streamOther =>
    exact ⟨begun.1, grow begun.2⟩
  all_goals exact trivial

/-- A request whose start is recorded and whose end is not stays counted over a stretch without
its end. -/
theorem FlightStory.not_cleared {i : ℕ} {t : Task} {log evs : List Event}
    (flight : FlightStory i t (history i log)) (running : t.phase.flight = .running)
    (still : evs.count (.finished i) = 0) : ¬ Cleared i (log ++ evs) := by
  obtain ⟨one, zero⟩ := flight.running running
  rintro ⟨-, grounded⟩
  refine grounded (inFlight_iff.mpr ⟨?_, ?_⟩)
  · rw [history_append, List.count_append, one]
    omega
  · rw [history_append, List.count_append, zero, count_history rfl, still]

/-- An open reservation stays open over a stretch without events. -/
theorem not_cleared_of_held {i : ℕ} {t : Task} {r : Reservation} {ks : List Deed} {log : List Event}
    (held : Held i t r ks (history i log)) : ¬ Cleared i (log ++ []) := by
  rw [List.append_nil]
  exact fun cleared => cleared.1 held.unclosed

theorem releaseEvents_cancel {i : ℕ} {r : Reservation} {executed : Bool}
    (opened : r.closed = false) :
    releaseEvents i r (cancelFault executed) = if executed then [.released i] else [] := by
  cases executed with
  | false => simp [releaseEvents, cancelFault, LedgerFault.executed]
  | true => simp [releaseEvents, cancelFault, LedgerFault.executed, opened]

/-- One cancellation: the request is over, and it is clear exactly when the cancellation is
clean. -/
theorem Trans.cancel {i : ℕ} {t : Task} {r : Reservation} {log evs : List Event}
    {sh sh' : Shared σ} {ph' : Phase} {executed : Bool}
    (step : Trans B ts s i t.request t.streaming sh t.phase (.cancel executed) sh' ph' evs)
    (books : Books False i t (history i log)) (flight : FlightStory i t (history i log))
    (begun : Begun i t (history i log)) (granted : .granted i r ∈ log)
    (early : t.streaming = false ∨ ∀ e, .emitted i e ∉ log) :
    ph'.gone = true ∧ (Cleared i (log ++ evs) ↔ CleanCancel i t.phase log executed) := by
  have reserved : 0 < tally .granted (history i log) := tally_pos (mem_history.mpr ⟨granted, rfl⟩)
  obtain ⟨req, streaming, ph⟩ := t
  simp only at step
  cases step with
  | enterBuffered entering _ | enterStreamed entering _ => cases entering
  | quit quiet =>
      have clean : tally .granted (history i log) = 0 := by
        cases ph <;> first | exact books .granted (by simp) | cases quiet
      exact absurd clean reserved.ne'
  | exit exiting =>
      cases exiting with
      | cancelled =>
          obtain ⟨streamed, e, emitted⟩ := begun
          rcases early with buffered | silent
          · cases buffered.symm.trans streamed
          · exact absurd (mem_history.mp emitted).1 (silent e)
  | cancelReserve _ => exact absurd (books .granted (by simp)) reserved.ne'
  | cancelQueued =>
      have held : Held i _ _ _ (history i log) := books
      exact ⟨rfl, iff_of_false (not_cleared_of_held held) id⟩
  | cancelShed _ =>
      have held : Held i _ _ _ (history i log) := books
      refine ⟨rfl, ?_⟩
      rw [releaseEvents_cancel held.opened]
      cases executed with
      | false => exact iff_of_false (not_cleared_of_held held) Bool.false_ne_true
      | true =>
          refine iff_of_true ⟨not_unclosed_of_released (by simp), ?_⟩ rfl
          intro flying
          have started := (inFlight_iff.mp flying).1
          rw [history_append, List.count_append, flight.ahead rfl, count_history rfl] at started
          exact absurd started (by simp)
  | cancelGenerating => exact ⟨rfl, iff_of_false (flight.not_cleared rfl (by simp)) id⟩
  | cancelSettle _ =>
      refine ⟨rfl, iff_of_false (flight.not_cleared rfl ?_) id⟩
      simp [List.count_append, count_settleEvents]
  | cancelRefund _ =>
      refine ⟨rfl, iff_of_false (flight.not_cleared rfl ?_) id⟩
      simp [List.count_append, count_releaseEvents]
  | cancelCaching _ =>
      have charged : Charged False (history i log) := books
      have most := charged.settled
      have landed : ¬ InFlight i (log ++ [.slotReleased i]) := by
        intro flying
        have unfinished := (inFlight_iff.mp flying).2
        rw [history_append, List.count_append, flight.landed rfl] at unfinished
        omega
      have still : Unclosed i (log ++ [.slotReleased i]) ↔ tally .settled (history i log) = 0 := by
        constructor
        · exact fun unclosed => unclosed.of_append .settled (by simp)
        · intro unsettled
          refine Unclosed.append ?_ (still_of_quiet (by simp [Event.onLedger]) i)
          intro k closing
          simp only [List.mem_cons, List.not_mem_nil, or_false] at closing
          rcases closing with rfl | rfl
          · exact unsettled
          · exact charged.clean .released (by simp)
      refine ⟨rfl, ?_⟩
      show ¬ Unclosed i _ ∧ ¬ InFlight i _ ↔ tally .settled (history i log) = 1
      rw [still]
      simp only [landed, not_false_eq_true, and_true]
      omega

/-- When a cancellation is clean. A request is cancelled after its reservation was granted and,
if it is streamed, before its first event. In every later state its reservation is settled or
released, and `in_flight` does not count it, exactly when the cancellation landed where
the charge or the refund was made anyway. -/
theorem cancel_clears_iff (B : LedgerBackend σ) (ts : TextSupport) (s : Settings) (ledger : σ)
    {w w' w'' : World σ} {i : ℕ} {t : Task} {r : Reservation} {executed : Bool}
    (reached : Reaches (World.step B ts s) Always (World.start s ledger) w)
    (here : w.tasks[i]? = some t) (granted : .granted i r ∈ w.log)
    (early : t.streaming = false ∨ ∀ e, .emitted i e ∉ w.log)
    (cancelled : World.step B ts s w (.task i (.cancel executed)) = some w')
    (later : Reaches (World.step B ts s) Always w' w'') :
    (Cleared i w''.log ↔ CleanCancel i t.phase w.log executed) ∧
      w''.shared.metrics.inFlight = w''.flights := by
  have books : Books False i t (history i w.log) :=
    books_of_reaches reached (fun none => none.elim) i t here
  have flight := flightStory_of_reaches reached i t here
  have begun : Begun i t (history i w.log) :=
    each_history ⟨rfl, rfl⟩ reached (fun _ _ _ => trivial)
      (fun _ _ _ _ _ _ _ _ _ _ step begun => begun.step step) i t here
  refine ⟨?_, inFlight_counts ((reached.tail trivial cancelled).trans later)⟩
  cases worldTrans_of_step cancelled with
  | task there step =>
      cases there.symm.trans here
      obtain ⟨gone, clears⟩ := step.cancel books flight begun granted early
      have same := history_of_gone (Pool.get_set_self here _) gone later
      unfold Cleared Unclosed at clears ⊢
      rw [inFlight_iff] at clears ⊢
      rw [same]
      exact clears

end Steps

/-! ### A cancellation in the release of a shed request, and one in the provider -/

/-- The request awaits the provider. -/
def generatingActs : List WorldAct :=
  [.submit { prompt := "hi", userId := "u" } false,
    .task 0 (.run .none), .task 0 (.run .none), .task 0 (.run .none), .task 0 (.run .none)]

/-- The second request has waited too long for the only slot, and is in the release of its hold. -/
def sheddingActs : List WorldAct :=
  generatingActs ++
    [.submit { prompt := "hi", userId := "v" } false,
      .task 1 (.run .none), .task 1 (.run .none), .task 1 (.run .none), .task 1 .timeout]

def secondHold : Reservation := { smallHold with id := 1, userId := "v" }

/-- The release reaches Redis, and its reply is not waited for. -/
theorem cancel_clears_in_release :
    ∃ w w', Reaches (World.step (RedisLedger.backend {}) .ascii oneSlot) Always
        (World.start oneSlot {}) w ∧
      World.step (RedisLedger.backend {}) .ascii oneSlot w (.task 1 (.cancel true)) = some w' ∧
      Cleared 1 w'.log := by
  have holds : execHolds (World.step (RedisLedger.backend {}) .ascii oneSlot) Always
      (World.start oneSlot {}) sheddingActs (fun w =>
        (w.tasks[1]?.any fun t => decide (t.streaming = false ∧ .granted 1 secondHold ∈ w.log ∧
          CleanCancel 1 t.phase w.log true)) &&
        (World.step (RedisLedger.backend {}) .ascii oneSlot w (.task 1 (.cancel true))).isSome) =
      true := by
    decide +kernel
  obtain ⟨w, reached, good⟩ := exists_reaches_of_execHolds _ _ holds
  obtain ⟨before, steps⟩ := Bool.and_eq_true_iff.mp good
  obtain ⟨t, here, facts⟩ := (Option.any_eq_true ..).mp before
  obtain ⟨buffered, granted, clean⟩ := of_decide_eq_true facts
  obtain ⟨w', cancelled⟩ := Option.isSome_iff_exists.mp steps
  exact ⟨w, w', reached, cancelled, (cancel_clears_iff (RedisLedger.backend {}) .ascii oneSlot {}
    reached here granted (.inl buffered) cancelled .refl).1.mpr clean⟩

/-- A request cancelled in the provider ends with its hold in the ledger, and counted by
`in_flight`. -/
theorem cancel_leaves_the_hold :
    ∃ w w', Reaches (World.step Ledger.backend .ascii oneSlot) Always (World.start oneSlot {}) w ∧
      World.step Ledger.backend .ascii oneSlot w (.task 0 (.cancel false)) = some w' ∧
      .granted 0 smallHold ∈ w.log ∧ (∀ t ∈ w'.tasks, t.phase.gone = true) ∧
      ¬ Cleared 0 w'.log ∧ smallHold.entry ∈ w'.shared.ledger.spend "u" ∧
      w'.shared.metrics.inFlight = 1 := by
  have holds : execHolds (World.step Ledger.backend .ascii oneSlot) Always (World.start oneSlot {})
      generatingActs (fun w => decide (.granted 0 smallHold ∈ w.log) &&
        (World.step Ledger.backend .ascii oneSlot w (.task 0 (.cancel false))).any fun w' =>
          decide ((∀ t ∈ w'.tasks, t.phase.gone = true) ∧ ¬ Cleared 0 w'.log ∧
            smallHold.entry ∈ w'.shared.ledger.spend "u" ∧ w'.shared.metrics.inFlight = 1)) =
      true := by
    decide +kernel
  obtain ⟨w, reached, good⟩ := exists_reaches_of_execHolds _ _ holds
  obtain ⟨granted, after⟩ := Bool.and_eq_true_iff.mp good
  obtain ⟨w', cancelled, facts⟩ := (Option.any_eq_true ..).mp after
  exact ⟨w, w', reached, cancelled, of_decide_eq_true granted, of_decide_eq_true facts⟩

end LLMInference
