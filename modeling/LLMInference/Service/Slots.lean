import LLMInference.Cost.Memory
import LLMInference.Service.History

/-!
Capacity slots are conserved (`app/gate.py`, `app/service.py`).

A slot is taken when a request passes the gate and returned by the `finally` block of
`handle` or by the finalizer of the stream. Whatever the others do, whatever times out or
is cancelled and however the gate is resized, a request takes at most one slot, returns it
at most once and has returned it when it is over; the counters of the gate count exactly
the requests in between.

* `Trans.slot_cases`: what a step of a request does to the gate's counters.
* `slots_conserved`: the counters and the histories, in every reached state.
-/

namespace LLMInference

open Runs

theorem Phase.holdsSlot_of_quiet {ph : Phase} (quiet : ph.quiet = true) : ph.holdsSlot = false := by
  cases ph <;> first | rfl | cases quiet

theorem Phase.parked_of_quiet {ph : Phase} (quiet : ph.quiet = true) : ph.parked = false := by
  cases ph <;> first | rfl | cases quiet

section Steps

variable {σ : Type} {B : LedgerBackend σ} {ts : TextSupport} {s : Settings}

/-- What a step of request `i` does to its slot. -/
inductive SlotMove (i : ℕ) (gate gate' : CapacityGate) (ph ph' : Phase) (evs : List Event) : Prop
  | kept (active : gate'.active = gate.active) (holds : ph'.holdsSlot = ph.holdsSlot)
      (admitted : evs.count (.admitted i) = 0) (released : evs.count (.slotReleased i) = 0)
  | taken (room : gate.active < gate.capacity) (active : gate'.active = gate.active + 1)
      (before : ph.holdsSlot = false) (holds : ph'.holdsSlot = true)
      (admitted : evs.count (.admitted i) = 1) (released : evs.count (.slotReleased i) = 0)
  | returned (active : gate'.active = max 0 (gate.active - 1)) (holds : ph.holdsSlot = true)
      (after : ph'.holdsSlot = false) (gone : ph'.gone = true)
      (admitted : evs.count (.admitted i) = 0) (released : evs.count (.slotReleased i) = 1)

theorem Trans.slot_cases {i : ℕ} {req : Request} {streaming : Bool} {sh sh' : Shared σ}
    {ph ph' : Phase} {a : TaskAct} {evs : List Event}
    (step : Trans B ts s i req streaming sh ph a sh' ph' evs) :
    SlotMove i sh.gate sh'.gate ph ph' evs := by
  cases step
  case enterBuffered entering | enterStreamed entering =>
    cases entering with
    | atOnce room => exact .taken room rfl rfl rfl (by simp) (by simp)
    | woken _ room => exact .taken room rfl rfl rfl (by simp) (by simp)
  case exit exiting => cases exiting <;> exact .kept rfl rfl rfl rfl
  case quit quiet =>
    exact .kept rfl (Phase.holdsSlot_of_quiet quiet).symm rfl rfl
  case settleReturn | finalizeClose | cancelSettle =>
    refine .returned rfl rfl rfl rfl ?_ ?_
    · simp [List.count_append, count_settleEvents]
    · simp [List.count_append, count_settleEvents]
  case refund | refundRaise | cancelRefund =>
    refine .returned rfl rfl rfl rfl ?_ ?_
    · simp [List.count_append, count_releaseEvents]
    · simp [List.count_append, count_releaseEvents]
  case storeReturn | storeClose | cancelGenerating | cancelCaching =>
    exact .returned rfl rfl rfl rfl (by simp) (by simp)
  case settleRaise | settleCache | finalizeStore =>
    refine .kept rfl rfl ?_ ?_
    · simp [List.count_append, count_settleEvents]
    · simp [List.count_append, count_settleEvents]
  case finishShed | cancelShed =>
    exact .kept rfl rfl (count_releaseEvents (by simp)) (count_releaseEvents (by simp))
  case granted | refused | cancelReserve => exact .kept rfl rfl (by split <;> simp) (by split <;> simp)
  all_goals exact .kept rfl rfl (by simp) (by simp)

/-- The waiting counter follows who is parked. -/
theorem Trans.waiting {i : ℕ} {req : Request} {streaming : Bool} {sh sh' : Shared σ}
    {ph ph' : Phase} {a : TaskAct} {evs : List Event}
    (step : Trans B ts s i req streaming sh ph a sh' ph' evs) :
    sh'.gate.waiting + (if ph.parked then 1 else 0) =
      sh.gate.waiting + (if ph'.parked then 1 else 0) := by
  cases step
  case enterBuffered entering | enterStreamed entering =>
    cases entering with
    | atOnce _ => rfl
    | woken _ _ => simp [Phase.parked]
  case exit exiting => cases exiting <;> rfl
  case quit quiet =>
    rw [Phase.parked_of_quiet quiet]
    rfl
  case park => simp [Phase.parked]
  case timeout | cancelQueued => simp [Phase.parked, CapacityGate.abandon]
  all_goals rfl

/-- The histories of the slots. -/
structure SlotStory (i : ℕ) (t : Task) (h : List Event) : Prop where
  balance : h.count (.admitted i) =
    h.count (.slotReleased i) + (if t.phase.holdsSlot then 1 else 0)
  once : h.count (.admitted i) ≤ 1
  waits : t.phase.holdsSlot = false → t.phase.gone = false → h.count (.admitted i) = 0

/-- A slot is held from the admission to the release. -/
theorem SlotStory.open_iff {i : ℕ} {t : Task} {log : List Event}
    (story : SlotStory i t (history i log)) :
    decide (.admitted i ∈ log ∧ .slotReleased i ∉ log) = t.phase.holdsSlot := by
  have balance := story.balance
  have once := story.once
  rw [count_history rfl, count_history rfl] at balance
  rw [count_history rfl] at once
  rw [Bool.eq_iff_iff, decide_eq_true_eq, ← List.count_pos_iff, ← List.count_eq_zero]
  split at balance
  · rename_i holds
    simp only [holds, iff_true]
    omega
  · rename_i outside
    rw [Bool.not_eq_true] at outside
    simp only [outside, Bool.false_eq_true, iff_false]
    omega

theorem Phase.holdsSlot_of_gone {ph : Phase} (gone : ph.gone = true) : ph.holdsSlot = false := by
  obtain ⟨e, rfl⟩ := exit_of_gone gone
  rfl

theorem SlotStory.step {i : ℕ} {t : Task} {h : List Event} {sh sh' : Shared σ} {ph' : Phase}
    {a : TaskAct} {evs : List Event} (story : SlotStory i t h)
    (step : Trans B ts s i t.request t.streaming sh t.phase a sh' ph' evs) :
    SlotStory i { t with phase := ph' } (h ++ history i evs) := by
  have counts : ∀ e : Event, e.request = some i →
      (h ++ history i evs).count e = h.count e + evs.count e := by
    intro e about
    rw [List.count_append, count_history about]
  obtain ⟨balance, once, waits⟩ := story
  have running := step.running
  cases step.slot_cases with
  | kept _ holds admitted released =>
      refine ⟨?_, ?_, ?_⟩
      · rw [counts _ rfl, counts _ rfl, admitted, released, holds]
        exact balance
      · rw [counts _ rfl, admitted]
        exact once
      · intro outside _
        rw [counts _ rfl, admitted]
        exact waits (holds ▸ outside) running
  | taken _ _ before holds admitted released =>
      have none := waits before running
      rw [before] at balance
      refine ⟨?_, ?_, ?_⟩
      · rw [counts _ rfl, counts _ rfl, admitted, released]
        simp only [holds, if_true]
        omega
      · rw [counts _ rfl, admitted]
        omega
      · intro outside
        exact absurd (holds.symm.trans outside) (by decide)
  | returned _ holds after gone admitted released =>
      rw [holds] at balance
      refine ⟨?_, ?_, ?_⟩
      · rw [counts _ rfl, counts _ rfl, admitted, released]
        simp only [after, balance, if_true]
        rfl
      · rw [counts _ rfl, admitted]
        exact once
      · intro _ going
        exact absurd (gone.symm.trans going) (by decide)

/-- The gate counts the requests that hold a slot, and those that are parked. -/
structure Counted (w : World σ) : Prop where
  active : w.shared.gate.active = w.tasks.countP (·.phase.holdsSlot)
  waiting : w.shared.gate.waiting = w.tasks.countP (·.phase.parked)

/-- The gate's counters around a step of one request. -/
theorem Counted.task {w : World σ} {i : ℕ} {t : Task} {sh : Shared σ} {ph : Phase} {a : TaskAct}
    {evs : List Event} (counted : Counted w) (here : w.tasks[i]? = some t)
    (step : Trans B ts s i t.request t.streaming w.shared t.phase a sh ph evs) :
    Counted { shared := sh, tasks := w.tasks.set i { t with phase := ph }, log := w.log ++ evs } := by
  obtain ⟨active, waiting⟩ := counted
  constructor
  · have holding : (w.tasks.set i { t with phase := ph }).countP (·.phase.holdsSlot) +
        (if t.phase.holdsSlot then 1 else 0) =
        w.tasks.countP (·.phase.holdsSlot) + (if ph.holdsSlot then 1 else 0) :=
      Pool.countP_step here _ _
    show sh.gate.active = ((w.tasks.set i { t with phase := ph }).countP (·.phase.holdsSlot) : ℕ)
    cases step.slot_cases with
    | kept same holds _ _ =>
        rw [holds] at holding
        rw [same]
        omega
    | taken _ more before holds _ _ =>
        simp only [before, holds, Bool.false_eq_true, if_false, if_true] at holding
        rw [more]
        omega
    | returned less holds after _ _ _ =>
        have pos : 0 < w.tasks.countP (·.phase.holdsSlot) := Pool.countP_pos here holds
        simp only [holds, after, Bool.false_eq_true, if_false, if_true] at holding
        rw [less]
        omega
  · have parking : (w.tasks.set i { t with phase := ph }).countP (·.phase.parked) +
        (if t.phase.parked then 1 else 0) =
        w.tasks.countP (·.phase.parked) + (if ph.parked then 1 else 0) :=
      Pool.countP_step here _ _
    have moved := step.waiting
    show sh.gate.waiting = ((w.tasks.set i { t with phase := ph }).countP (·.phase.parked) : ℕ)
    rw [waiting] at moved
    zify at parking
    linarith

theorem Counted.step {w w' : World σ} {a : WorldAct} (counted : Counted w)
    (stepped : World.step B ts s w a = some w') : Counted w' := by
  cases worldTrans_of_step stepped with
  | submit =>
      constructor
      · rw [Pool.countP_spawn]
        exact counted.active
      · rw [Pool.countP_spawn]
        exact counted.waiting
  | clock => exact ⟨counted.active, counted.waiting⟩
  | scale resized =>
      rcases resized with rfl | ⟨capacity, rfl⟩
      · exact ⟨counted.active, counted.waiting⟩
      · exact ⟨counted.active, counted.waiting⟩
  | task here step => exact counted.task here step

theorem counted_of_reaches {ok : World σ → WorldAct → Prop} {ledger : σ} {w : World σ}
    (reached : Reaches (World.step B ts s) ok (World.start s ledger) w) : Counted w :=
  reached.invariant ⟨rfl, rfl⟩ fun _ _ _ counted _ stepped => counted.step stepped

theorem slotStory_of_reaches {ok : World σ → WorldAct → Prop} {ledger : σ} {w : World σ}
    (reached : Reaches (World.step B ts s) ok (World.start s ledger) w) :
    ∀ i t, w.tasks[i]? = some t → SlotStory i t (history i w.log) :=
  each_history ⟨rfl, rfl⟩ reached (fun _ _ _ => ⟨rfl, Nat.zero_le _, fun _ _ => rfl⟩)
    fun _ _ _ _ _ _ _ _ _ _ step story => story.step step

/-- In every reached state the gate counts the requests that were admitted and have not
returned their slot, and those that are parked; a request is admitted at most once, returns
its slot at most as often, and has returned it when it is over. In the step to any next
state a slot is returned only while one is taken and is taken only below capacity. -/
theorem slots_conserved (B : LedgerBackend σ) (ts : TextSupport) (s : Settings) (ledger : σ)
    {w : World σ} (reached : Reaches (World.step B ts s) Always (World.start s ledger) w) :
    (w.shared.gate.active = (List.range w.tasks.length).countP fun i =>
        decide (.admitted i ∈ w.log ∧ .slotReleased i ∉ w.log)) ∧
      w.shared.gate.waiting = w.tasks.countP (·.phase.parked) ∧
      (∀ i t, w.tasks[i]? = some t →
        w.log.count (.slotReleased i) ≤ w.log.count (.admitted i) ∧
          w.log.count (.admitted i) ≤ 1 ∧
          (t.phase.gone = true → w.log.count (.slotReleased i) = w.log.count (.admitted i))) ∧
      ∀ a w', World.step B ts s w a = some w' → ∃ evs, w'.log = w.log ++ evs ∧
        (∀ i, .slotReleased i ∈ evs →
          0 < w.shared.gate.active ∧ w'.shared.gate.active = w.shared.gate.active - 1) ∧
        ∀ i, .admitted i ∈ evs →
          w.shared.gate.active < w.shared.gate.capacity ∧
            w'.shared.gate.active = w.shared.gate.active + 1 := by
  have counted := counted_of_reaches reached
  have stories := slotStory_of_reaches reached
  refine ⟨?_, counted.waiting, ?_, ?_⟩
  · rw [counted.active, Pool.countP_range]
    intro i t here
    exact (stories i t here).open_iff
  · intro i t here
    have story := stories i t here
    have balance := story.balance
    have once := story.once
    rw [count_history rfl, count_history rfl] at balance
    rw [count_history rfl] at once
    refine ⟨by omega, once, ?_⟩
    intro gone
    rw [Phase.holdsSlot_of_gone gone] at balance
    exact balance.symm
  · intro a w' stepped
    cases worldTrans_of_step stepped with
    | submit => exact ⟨[], by simp, by simp, by simp⟩
    | clock => exact ⟨[], by simp, by simp, by simp⟩
    | scale _ => exact ⟨[], by simp, by simp, by simp⟩
    | task here step =>
        refine ⟨_, rfl, ?_, ?_⟩
        · intro j mem
          obtain rfl : j = _ := step.eq_of_names mem rfl
          have once := List.count_pos_iff.mpr mem
          cases step.slot_cases with
          | kept _ _ _ released => omega
          | taken _ _ _ _ _ released => omega
          | returned active holds _ _ _ _ =>
              have pos : 0 < w.tasks.countP (·.phase.holdsSlot) := Pool.countP_pos here holds
              have counts := counted.active
              exact ⟨by omega, by rw [active]; omega⟩
        · intro j mem
          obtain rfl : j = _ := step.eq_of_names mem rfl
          have once := List.count_pos_iff.mpr mem
          cases step.slot_cases with
          | kept _ _ admitted _ => omega
          | taken room active _ _ _ _ => exact ⟨room, active⟩
          | returned _ _ _ _ admitted _ => omega

/-! ### The queue -/

theorem mem_notify {n : ℕ} {ws : List Waiter} {wt : Waiter} (mem : wt ∈ notify n ws) :
    ∃ old ∈ ws, old.id = wt.id := by
  have named : wt.id ∈ (notify n ws).map (·.id) := List.mem_map_of_mem mem
  rw [map_id_notify] at named
  exact List.mem_map.mp named

/-- A step finds the waiters in the queue already, but for its own request. -/
theorem Trans.waiters {i : ℕ} {req : Request} {streaming : Bool} {sh sh' : Shared σ} {ph ph' : Phase}
    {a : TaskAct} {evs : List Event} (step : Trans B ts s i req streaming sh ph a sh' ph' evs) :
    ∀ wt ∈ sh'.gate.waiters, wt.id = i ∨ ∃ old ∈ sh.gate.waiters, old.id = wt.id := by
  intro wt mem
  cases step with
  | enterBuffered entering _ | enterStreamed entering _ =>
      cases entering with
      | atOnce _ => exact .inr ⟨wt, mem, rfl⟩
      | woken _ _ => exact .inr ⟨wt, List.mem_of_mem_eraseP mem, rfl⟩
  | park _ =>
      rcases List.mem_append.mp mem with old | new
      · exact .inr ⟨wt, old, rfl⟩
      · exact .inl (congrArg Waiter.id (List.mem_singleton.mp new))
  | repark _ =>
      rcases List.mem_append.mp mem with old | new
      · exact .inr ⟨wt, List.mem_of_mem_eraseP old, rfl⟩
      · exact .inl (congrArg Waiter.id (List.mem_singleton.mp new))
  | timeout | cancelQueued => exact .inr ⟨wt, List.mem_of_mem_eraseP mem, rfl⟩
  | settleReturn _ _ | storeReturn | refundRaise _ _ | refund _ _ | finalizeClose _ _ | storeClose
  | cancelGenerating | cancelSettle _ | cancelCaching _ | cancelRefund _ =>
      exact .inr (mem_notify mem)
  | _ => exact .inr ⟨wt, mem, rfl⟩

/-- Only requests wait at the gate. -/
theorem waiters_of_reaches {ok : World σ → WorldAct → Prop} {ledger : σ} {w : World σ}
    (reached : Reaches (World.step B ts s) ok (World.start s ledger) w) :
    ∀ wt ∈ w.shared.gate.waiters, wt.id < w.tasks.length := by
  apply reached.invariant (I := fun w => ∀ wt ∈ w.shared.gate.waiters, wt.id < w.tasks.length)
  · exact List.forall_mem_nil _
  · intro w a w' named _ stepped wt mem
    cases worldTrans_of_step stepped with
    | submit =>
        rw [List.length_append]
        exact Nat.lt_add_right _ (named wt mem)
    | clock => exact named wt mem
    | scale resized =>
        rcases resized with rfl | ⟨capacity, rfl⟩
        · exact named wt mem
        · unfold CapacityGate.resize at mem
          simp only at mem
          split at mem
          · obtain ⟨old, waits, same⟩ := mem_notify mem
            exact same ▸ named old waits
          · exact named wt mem
    | task here step =>
        rw [List.length_set]
        rcases step.waiters wt mem with own | ⟨old, waits, same⟩
        · exact own ▸ (List.getElem?_eq_some_iff.mp here).1
        · exact same ▸ named old waits

end Steps

/-! ### A run with one slot -/

/-- The first request is cancelled in the provider; the second takes over its slot. -/
def handover : List WorldAct :=
  [.submit { prompt := "hi", userId := "u" } false, .submit { prompt := "hi", userId := "v" } true,
    .task 0 (.run .none), .task 0 (.run .none), .task 0 (.run .none), .task 0 (.run .none),
    .task 1 (.run .none), .task 1 (.run .none), .task 1 (.run .none),
    .task 0 (.cancel false), .task 1 .wake]

theorem slots_conserved_in_handover :
    ∃ w, Reaches (World.step Ledger.backend .ascii oneSlot) Always (World.start oneSlot {}) w ∧
      w.log.count (.slotReleased 0) = 1 ∧
      (w.shared.gate.active = (List.range w.tasks.length).countP fun i =>
        decide (.admitted i ∈ w.log ∧ .slotReleased i ∉ w.log)) := by
  have holds : execHolds (World.step Ledger.backend .ascii oneSlot) Always (World.start oneSlot {})
      handover (fun w => decide (w.log.count (.slotReleased 0) = 1)) = true := by
    decide +kernel
  obtain ⟨w, reached, released⟩ := exists_reaches_of_execHolds _ _ holds
  exact ⟨w, reached, of_decide_eq_true released,
    (slots_conserved Ledger.backend .ascii oneSlot {} reached).1⟩

end LLMInference
