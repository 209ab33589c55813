import LLMInference.Gate.Wakeups
import LLMInference.Service.Slots

/-!
The gate as the service uses it (`app/gate.py`, `app/service.py`).

On its own, the gate is called by anybody in any order (`CapacityGate.step`). In the service its
callers are the requests, which are admitted, time out, are cancelled and return their slots, and
`autoscale_tick`. Every step of the service is a step of the gate or does not touch it.

* `GateMove`, `Trans.gate`: what a step of a request does to the gate.
* `Lined`: the waiters are the parked requests, each of them once.
* `service_refines_gate`: in every run the gate has gone through a run of its own.
* `free_slot_finds_waiter`: as long as no wake-up is lost, a free slot is taken by one of the
  requests that wait for it.
-/

namespace LLMInference

open Runs

/-- Who waits. -/
def CapacityGate.ids (g : CapacityGate) : List ℕ := g.waiters.map (·.id)

namespace CapacityGate

variable {g g' : CapacityGate} {i : ℕ}

/-- Only caller `i` joins or leaves the queue in a step of its own. -/
theorem mem_ids_of_ne {j : ℕ} (other : j ≠ i) :
    (j ∈ (g.acquire i).2.ids ↔ j ∈ g.ids) ∧ (j ∈ (g.resume i).2.ids ↔ j ∈ g.ids) ∧
      (j ∈ (g.abandon i).ids ↔ j ∈ g.ids) := by
  have rest : j ∈ (g.waiters.eraseP fun w => w.id == i).map (·.id) ↔ j ∈ g.ids := by
    rw [map_id_eraseP]
    exact List.mem_erase_of_ne other
  refine ⟨?_, ?_, rest⟩
  · unfold acquire ids
    split
    · rfl
    · simp [other]
  · unfold resume ids
    simp only
    split
    · exact rest
    · rw [List.map_append, List.mem_append, rest]
      simp [ids, other]

/-- Caller `i` waits after `acquire` if there was no room. -/
theorem mem_ids_acquire (absent : i ∉ g.ids) : i ∈ (g.acquire i).2.ids ↔ g.capacity ≤ g.active := by
  unfold acquire
  split
  · rename_i room
    exact ⟨fun mem => absurd mem absent, fun full => absurd room (not_lt.mpr full)⟩
  · rename_i full
    simpa [ids] using not_lt.mp full

theorem mem_ids_resume (distinct : g.Distinct) :
    i ∈ (g.resume i).2.ids ↔ g.capacity ≤ g.active := by
  have gone : i ∉ (g.waiters.eraseP fun w => w.id == i).map (·.id) := by
    rw [map_id_eraseP]
    exact distinct.not_mem_erase
  unfold resume
  simp only
  split
  · rename_i room
    exact ⟨fun mem => absurd mem gone, fun full => absurd room (not_lt.mpr full)⟩
  · rename_i full
    simpa [ids] using not_lt.mp full

theorem not_mem_ids_abandon (distinct : g.Distinct) : i ∉ (g.abandon i).ids := by
  unfold abandon ids
  rw [map_id_eraseP]
  exact distinct.not_mem_erase

theorem ids_release : g.release.ids = g.ids := map_id_notify 1 g.waiters

theorem ids_resize (capacity : ℤ) : (g.resize capacity).ids = g.ids := by
  unfold resize ids
  simp only
  split
  · exact map_id_notify _ _
  · rfl

/-- Who waits has a future. -/
theorem waiter_isSome : (g.waiter i).isSome = true ↔ i ∈ g.ids := by
  unfold waiter ids
  rw [List.find?_isSome, List.mem_map]
  simp

theorem waiter_eq_none : g.waiter i = none ↔ i ∉ g.ids := by
  rw [← waiter_isSome, Option.not_isSome_iff_eq_none]

end CapacityGate

/-- At the entrance of `gate.acquire`. -/
def Phase.asks : Phase → Bool
  | .granted .. => true
  | _ => false

theorem Phase.parked_of_asks {ph : Phase} (asks : ph.asks = true) : ph.parked = false := by
  cases ph <;> first | rfl | cases asks

section Steps

variable {σ : Type} {B : LedgerBackend σ} {ts : TextSupport} {s : Settings}

/-- What a step of request `i` does to the gate: one of the gate's methods, or nothing. -/
inductive GateMove (i : ℕ) (g : CapacityGate) (ph : Phase) : TaskAct → Phase → CapacityGate → Prop
  | kept {a : TaskAct} {ph' : Phase} (same : ph'.parked = ph.parked) : GateMove i g ph a ph' g
  | acquired {f : LedgerFault} {ph' : Phase} (asks : ph.asks = true)
      (parks : ph'.parked = decide (g.capacity ≤ g.active)) :
      GateMove i g ph (.run f) ph' (g.acquire i).2
  | woken {ph' : Phase} (waits : ph.parked = true)
      (parks : ph'.parked = decide (g.capacity ≤ g.active)) :
      GateMove i g ph .wake ph' (g.resume i).2
  | left {a : TaskAct} {ph' : Phase} (waits : ph.parked = true) (leaves : ph'.parked = false)
      (gives : a = .timeout ∨ ∃ executed, a = .cancel executed) :
      GateMove i g ph a ph' (g.abandon i)
  | released {a : TaskAct} {ph' : Phase} (holds : ph.holdsSlot = true) (outside : ph.parked = false)
      (after : ph'.parked = false) : GateMove i g ph a ph' g.release

theorem Trans.gate {i : ℕ} {req : Request} {streaming : Bool} {sh sh' : Shared σ} {ph ph' : Phase}
    {a : TaskAct} {evs : List Event} (step : Trans B ts s i req streaming sh ph a sh' ph' evs) :
    GateMove i sh.gate ph a ph' sh'.gate := by
  cases step
  case enterBuffered entering | enterStreamed entering =>
    cases entering with
    | atOnce room =>
        have entered : (sh.gate.acquire i).2 =
            { sh.gate with active := sh.gate.active + 1 } := by
          rw [CapacityGate.acquire, if_pos room]
        exact entered ▸ .acquired rfl (decide_eq_false (not_le.mpr room)).symm
    | woken runnable room =>
        have entered : (sh.gate.resume i).2 =
            { sh.gate with
              active := sh.gate.active + 1, waiting := sh.gate.waiting - 1
              waiters := sh.gate.waiters.eraseP fun w => w.id == i } := by
          simp only [CapacityGate.resume, if_pos room]
        exact entered ▸ .woken rfl (decide_eq_false (not_le.mpr room)).symm
  case park full =>
    have parked : (sh.gate.acquire i).2 =
        { sh.gate with
          waiting := sh.gate.waiting + 1
          waiters := sh.gate.waiters ++ [{ id := i, marked := false }] } := by
      rw [CapacityGate.acquire, if_neg (not_lt.mpr full)]
    exact parked ▸ .acquired rfl (decide_eq_true full).symm
  case repark full =>
    have parked : (sh.gate.resume i).2 =
        { sh.gate with
          waiters :=
            (sh.gate.waiters.eraseP fun w => w.id == i) ++ [{ id := i, marked := false }] } := by
      simp only [CapacityGate.resume, if_neg (not_lt.mpr full)]
    exact parked ▸ .woken rfl (decide_eq_true full).symm
  case timeout => exact .left rfl rfl (.inl rfl)
  case cancelQueued => exact .left rfl rfl (.inr ⟨_, rfl⟩)
  case exit exiting => cases exiting <;> exact .kept rfl
  case quit quiet => exact .kept (Phase.parked_of_quiet quiet).symm
  case settleReturn | storeReturn | refundRaise | refund | finalizeClose | storeClose
    | cancelGenerating | cancelSettle | cancelCaching | cancelRefund => exact .released rfl rfl rfl
  all_goals exact .kept rfl

/-- Who is woken was marked. -/
theorem runnable_of_wake {i : ℕ} {t : Task} {sh : Shared σ} {out : Out σ}
    (made : taskStep B ts s i t sh .wake = some out) : sh.gate.runnable i = true := by
  simp only [taskStep] at made
  split at made
  · split at made
    · assumption
    · cases made
  · cases made

/-! ### The queue -/

/-- The waiters are the parked requests, each of them once. -/
structure Lined (w : World σ) : Prop where
  distinct : w.shared.gate.Distinct
  parked : ∀ i, i ∈ w.shared.gate.ids ↔ ∃ t, w.tasks[i]? = some t ∧ t.phase.parked = true

theorem Lined.mem_iff {w : World σ} (lined : Lined w) {i : ℕ} {t : Task}
    (here : w.tasks[i]? = some t) : i ∈ w.shared.gate.ids ↔ t.phase.parked = true := by
  rw [lined.parked]
  constructor
  · rintro ⟨u, there, parked⟩
    cases here.symm.trans there
    exact parked
  · exact fun parked => ⟨t, here, parked⟩

/-- The queue is as long as the requests in it are many. -/
theorem Lined.length {w : World σ} (lined : Lined w) :
    w.shared.gate.waiters.length = w.tasks.countP (·.phase.parked) := by
  let named (i : ℕ) : Bool := decide (i ∈ w.shared.gate.ids)
  have same : w.shared.gate.ids.Perm ((List.range w.tasks.length).filter named) := by
    refine (List.perm_ext_iff_of_nodup lined.distinct (List.nodup_range.filter _)).mpr fun i => ?_
    rw [List.mem_filter, List.mem_range, decide_eq_true_eq]
    refine ⟨fun mem => ⟨?_, mem⟩, fun both => both.2⟩
    obtain ⟨t, here, -⟩ := (lined.parked i).mp mem
    exact (List.getElem?_eq_some_iff.mp here).1
  have agree : ∀ i t, w.tasks[i]? = some t → named i = t.phase.parked := by
    intro i t here
    rw [Bool.eq_iff_iff, decide_eq_true_eq]
    exact lined.mem_iff here
  calc w.shared.gate.waiters.length = w.shared.gate.ids.length := (List.length_map _).symm
    _ = ((List.range w.tasks.length).filter named).length := same.length_eq
    _ = (List.range w.tasks.length).countP named := List.countP_eq_length_filter.symm
    _ = w.tasks.countP (·.phase.parked) := Pool.countP_range agree

/-- A step of the service, as the gate sees it: nothing, or a step of the gate's own, in which the
request that leaves the queue is the one whose step it is. -/
theorem gate_of_step {w w' : World σ} {a : WorldAct} (lined : Lined w) (counted : Counted w)
    (stepped : World.step B ts s w a = some w') :
    w'.shared.gate = w.shared.gate ∨ ∃ b, w.shared.gate.step b = some w'.shared.gate ∧
      ∀ i, b = .cancel i → a = .task i .timeout ∨ ∃ executed, a = .task i (.cancel executed) := by
  cases a with
  | submit request streaming =>
      cases stepped
      exact .inl rfl
  | clock now mono =>
      cases stepped
      exact .inl rfl
  | scale later =>
      cases worldTrans_of_step stepped with
      | scale resized =>
          rcases resized with same | ⟨capacity, new⟩
          · exact .inl same
          · exact .inr ⟨.resize capacity, congrArg some new.symm, fun i other => by cases other⟩
  | task i a =>
      obtain ⟨t, sh, ph, evs, here, made, rfl⟩ := task_of_step stepped
      have mine := lined.mem_iff here
      have moved := (trans_of_taskStep made).gate
      have waking : a = .wake → w.shared.gate.runnable i = true := by
        rintro rfl
        exact runnable_of_wake made
      show sh.gate = _ ∨ ∃ b, _ = some sh.gate ∧ _
      generalize sh.gate = gate at moved ⊢
      cases moved with
      | kept => exact .inl rfl
      | acquired asks parks =>
          have absent : w.shared.gate.waiter i = none := by
            rw [CapacityGate.waiter_eq_none, mine, Phase.parked_of_asks asks]
            exact Bool.false_ne_true
          exact .inr ⟨.acquire i, if_pos absent, fun _ other => by cases other⟩
      | woken waits parks =>
          exact .inr ⟨.wake i, if_pos (waking rfl), fun _ other => by cases other⟩
      | left waits leaves gives =>
          have present : (w.shared.gate.waiter i).isSome = true :=
            CapacityGate.waiter_isSome.mpr (mine.mpr waits)
          refine .inr ⟨.cancel i, if_pos present, fun j own => ?_⟩
          cases own
          rcases gives with rfl | ⟨executed, rfl⟩
          · exact .inl rfl
          · exact .inr ⟨executed, rfl⟩
      | released holds outside after =>
          have active : 0 < w.shared.gate.active := by
            have positive := Pool.countP_pos here (p := (·.phase.holdsSlot)) holds
            have counts := counted.active
            omega
          exact .inr ⟨.release, if_pos active, fun _ other => by cases other⟩

/-- A step of request `i` leaves the others in the queue, and itself while it is parked. -/
theorem GateMove.mem_ids {i : ℕ} {g g' : CapacityGate} {ph ph' : Phase} {a : TaskAct}
    (move : GateMove i g ph a ph' g') (distinct : g.Distinct)
    (mine : i ∈ g.ids ↔ ph.parked = true) :
    (i ∈ g'.ids ↔ ph'.parked = true) ∧ ∀ j, j ≠ i → (j ∈ g'.ids ↔ j ∈ g.ids) := by
  cases move with
  | kept same =>
      rw [same]
      exact ⟨mine, fun _ _ => Iff.rfl⟩
  | acquired asks parks =>
      rw [Phase.parked_of_asks asks] at mine
      rw [parks, decide_eq_true_eq]
      exact ⟨CapacityGate.mem_ids_acquire (mine.not.mpr Bool.false_ne_true),
        fun j other => (CapacityGate.mem_ids_of_ne other).1⟩
  | woken waits parks =>
      rw [parks, decide_eq_true_eq]
      exact ⟨CapacityGate.mem_ids_resume distinct,
        fun j other => (CapacityGate.mem_ids_of_ne other).2.1⟩
  | left waits leaves gives =>
      rw [leaves]
      exact ⟨iff_of_false (CapacityGate.not_mem_ids_abandon distinct) Bool.false_ne_true,
        fun j other => (CapacityGate.mem_ids_of_ne other).2.2⟩
  | released holds outside after =>
      rw [CapacityGate.ids_release, after, ← outside]
      exact ⟨mine, fun _ _ => Iff.rfl⟩

theorem Lined.step {w w' : World σ} {a : WorldAct} (lined : Lined w) (counted : Counted w)
    (stepped : World.step B ts s w a = some w') : Lined w' := by
  constructor
  · rcases gate_of_step lined counted stepped with same | ⟨b, made, -⟩
    · exact same ▸ lined.distinct
    · exact lined.distinct.step made
  · intro j
    cases worldTrans_of_step stepped with
    | submit =>
        rw [lined.parked]
        constructor
        · rintro ⟨t, here, parked⟩
          exact ⟨t, Pool.get_old here _, parked⟩
        · rintro ⟨t, here, parked⟩
          rcases Pool.get_spawn here with old | ⟨-, rfl⟩
          · exact ⟨t, old, parked⟩
          · cases parked
    | clock => exact lined.parked j
    | scale resized =>
        rcases resized with rfl | ⟨capacity, rfl⟩
        · exact lined.parked j
        · rw [CapacityGate.ids_resize]
          exact lined.parked j
    | task here step =>
        rename_i i a t sh ph evs
        obtain ⟨own, others⟩ := step.gate.mem_ids lined.distinct (lined.mem_iff here)
        by_cases mine : j = i
        · subst mine
          rw [own]
          constructor
          · exact fun parked => ⟨_, Pool.get_set_self here _, parked⟩
          · rintro ⟨u, there, parked⟩
            cases (Pool.get_set_self here _).symm.trans there
            exact parked
        · rw [others j mine, lined.parked, List.getElem?_set_ne (Ne.symm mine)]

theorem lined_of_reaches {ok : World σ → WorldAct → Prop} {ledger : σ} {w : World σ}
    (reached : Reaches (World.step B ts s) ok (World.start s ledger) w) : Lined w := by
  apply reached.invariant_of
  · exact ⟨List.nodup_nil, fun i => by simp [World.start, CapacityGate.create, CapacityGate.ids]⟩
  · intro w a w' before lined _ stepped
    exact lined.step (counted_of_reaches before) stepped

/-! ### Refinement -/

/-- The run of the gate inside a run of the service, with the conditions that the steps of the
service put on it. -/
theorem gate_of_reaches {ok : World σ → WorldAct → Prop} {ok' : CapacityGate → GateAct → Prop}
    {ledger : σ} {w : World σ} (reached : Reaches (World.step B ts s) ok (World.start s ledger) w)
    (gives : ∀ (w : World σ) a b, ok w a → (∀ i, b = .cancel i →
      a = .task i .timeout ∨ ∃ executed, a = .task i (.cancel executed)) → ok' w.shared.gate b) :
    Reaches CapacityGate.step ok' (.create (capacityFor s s.minReplicas)) w.shared.gate := by
  have start : Reaches (World.step B ts s) ok (World.start s ledger) (World.start s ledger) := .refl
  apply reached.simulate (f := fun w => w.shared.gate) (I := fun w => Lined w ∧ Counted w)
  · exact ⟨lined_of_reaches start, counted_of_reaches start⟩
  · intro w a w' ⟨lined, counted⟩ _ stepped
    exact ⟨lined.step counted stepped, counted.step stepped⟩
  · intro w a w' ⟨lined, counted⟩ allowed stepped
    rcases gate_of_step lined counted stepped with same | ⟨b, made, own⟩
    · exact .inl same
    · exact .inr ⟨b, gives w a b allowed own, made⟩

/-- In every run of the service the gate has gone through a run of its own, and its waiters are
the parked requests, each of them once, as many as it counts. -/
theorem service_refines_gate {ok : World σ → WorldAct → Prop} {ledger : σ} {w : World σ}
    (reached : Reaches (World.step B ts s) ok (World.start s ledger) w) :
    Reaches CapacityGate.step Always (.create (capacityFor s s.minReplicas)) w.shared.gate ∧
      Lined w ∧ (w.shared.gate.waiters.length : ℤ) = w.shared.gate.waiting := by
  have lined := lined_of_reaches reached
  have counted := counted_of_reaches reached
  exact ⟨gate_of_reaches reached fun _ _ _ _ _ => trivial, lined, by
    rw [lined.length, counted.waiting]⟩

/-- No step loses a wake-up: a request that times out or is cancelled after it was woken leaves
enough marks for the free slots, or nobody who could use one. -/
def World.KeepsMarks (w : World σ) : WorldAct → Prop
  | .task i .timeout | .task i (.cancel _) => w.shared.gate.KeepsMarks (.cancel i)
  | _ => True

/-- The gate's own condition on its steps, from the one on the service. -/
theorem World.KeepsMarks.gate {w : World σ} {a : WorldAct} {b : GateAct} (keeps : w.KeepsMarks a)
    (own : ∀ i, b = .cancel i → a = .task i .timeout ∨ ∃ executed, a = .task i (.cancel executed)) :
    w.shared.gate.KeepsMarks b := by
  cases b with
  | cancel i =>
      rcases own i rfl with rfl | ⟨executed, rfl⟩
      · exact keeps
      · exact keeps
  | _ => trivial

/-- A woken request passes the gate if there is room. -/
theorem admitted_of_runnable (B : LedgerBackend σ) (ts : TextSupport) (s : Settings) {w : World σ}
    {i : ℕ} {t : Task} (here : w.tasks[i]? = some t) (parked : t.phase.parked = true)
    (runnable : w.shared.gate.runnable i = true)
    (room : w.shared.gate.active < w.shared.gate.capacity) :
    ∃ w', World.step B ts s w (.task i .wake) = some w' ∧
      (∃ evs, w'.log = w.log ++ evs ∧ .admitted i ∈ evs) ∧
      ∃ u, w'.tasks[i]? = some u ∧ u.phase.holdsSlot = true := by
  obtain ⟨request, streaming, ph⟩ := t
  cases ph with
  | queued d r =>
      have passes : (w.shared.gate.resume i).1 = true := by
        simp only [CapacityGate.resume, if_pos room]
      have made : taskStep B ts s i ⟨request, streaming, .queued d r⟩ w.shared .wake =
          some (enter i ⟨request, streaming, .queued d r⟩ w.shared d r
            (w.shared.gate.resume i).2) := by
        simp only [taskStep, if_pos runnable, passGate, passes, if_true]
      cases streaming with
      | true =>
          refine ⟨_, by simp only [World.step, here, made]; rfl, ⟨_, rfl, by simp [enter]⟩, _,
            Pool.get_set_self here _, rfl⟩
      | false =>
          refine ⟨_, by simp only [World.step, here, made]; rfl, ⟨_, rfl, by simp [enter]⟩, _,
            Pool.get_set_self here _, rfl⟩
  | _ => cases parked

/-- In a run that loses no wake-up, somebody who waits while a slot is free means somebody who was
woken. -/
theorem runnable_of_free {ledger : σ} {w : World σ}
    (reached : Reaches (World.step B ts s) World.KeepsMarks (World.start s ledger) w)
    {i : ℕ} {t : Task} (here : w.tasks[i]? = some t) (parked : t.phase.parked = true)
    (free : w.shared.gate.active < w.shared.gate.capacity) :
    ∃ j u, w.tasks[j]? = some u ∧ u.phase.parked = true ∧ w.shared.gate.runnable j = true := by
  have lined := lined_of_reaches reached
  have run : Reaches CapacityGate.step CapacityGate.KeepsMarks
      (.create (capacityFor s s.minReplicas)) w.shared.gate :=
    gate_of_reaches reached fun w a b keeps own => keeps.gate own
  have covered : w.shared.gate.Covered :=
    run.invariant ⟨le_rfl, .inl rfl⟩ fun g b g' covered keeps made => covered.step keeps made
  have some_marked : ∃ wt ∈ w.shared.gate.waiters, wt.marked = true := by
    obtain ⟨wt, mem, -⟩ := List.mem_map.mp ((lined.mem_iff here).mpr parked)
    rcases covered.marks with none | enough
    · exact ⟨wt, mem, by simpa using List.countP_eq_zero.mp none wt mem⟩
    · have positive : 0 < w.shared.gate.marked := by
        unfold CapacityGate.spare at enough
        omega
      obtain ⟨wt, mem, mark⟩ := List.countP_pos_iff.mp positive
      exact ⟨wt, mem, mark⟩
  obtain ⟨wt, mem, marked⟩ := some_marked
  obtain ⟨u, there, waits⟩ := (lined.parked wt.id).mp (List.mem_map_of_mem mem)
  exact ⟨wt.id, u, there, waits, lined.distinct.runnable mem marked⟩

/-- In a run that loses no wake-up, a slot that is free while somebody waits for one is taken by
the next step of one of the requests that wait: it was woken, and is admitted. -/
theorem free_slot_finds_waiter {ledger : σ} {w : World σ}
    (reached : Reaches (World.step B ts s) World.KeepsMarks (World.start s ledger) w)
    {i : ℕ} {t : Task} (here : w.tasks[i]? = some t) (parked : t.phase.parked = true)
    (free : w.shared.gate.active < w.shared.gate.capacity) :
    ∃ j u w', w.tasks[j]? = some u ∧ u.phase.parked = true ∧
      World.step B ts s w (.task j .wake) = some w' ∧
      (∃ evs, w'.log = w.log ++ evs ∧ .admitted j ∈ evs) ∧
      ∃ v, w'.tasks[j]? = some v ∧ v.phase.holdsSlot = true := by
  obtain ⟨j, u, there, waits, runnable⟩ := runnable_of_free reached here parked free
  obtain ⟨w', stepped, admitted, holds⟩ := admitted_of_runnable B ts s there waits runnable free
  exact ⟨j, u, w', there, waits, stepped, admitted, holds⟩

end Steps

instance {σ : Type} (w : World σ) (a : WorldAct) : Decidable (w.KeepsMarks a) :=
  match a with
  | .task i .timeout | .task i (.cancel _) =>
      inferInstanceAs (Decidable (w.shared.gate.KeepsMarks (.cancel i)))
  | .submit .. | .clock .. | .scale _ | .task _ (.run _) | .task _ .wake | .task _ (.answer _)
  | .task _ (.chunk _) | .task _ .exhausted | .task _ (.streamError _) | .task _ .next
  | .task _ .close => isTrue trivial

/-- The slot is free, and the request that waits for it is woken. -/
theorem service_refines_gate_in_handover :
    ∃ w, Reaches (World.step Ledger.backend .ascii oneSlot) Always (World.start oneSlot {}) w ∧
      w.shared.gate.waiters = [⟨1, true⟩] ∧
      Reaches CapacityGate.step Always (.create (capacityFor oneSlot oneSlot.minReplicas))
        w.shared.gate := by
  have holds : execHolds (World.step Ledger.backend .ascii oneSlot) Always
      (World.start oneSlot {}) handover.dropLast
      (fun w => decide (w.shared.gate.waiters = [⟨1, true⟩])) = true := by
    decide +kernel
  obtain ⟨w, reached, waiters⟩ := exists_reaches_of_execHolds _ _ holds
  exact ⟨w, reached, of_decide_eq_true waiters, (service_refines_gate reached).1⟩

theorem free_slot_finds_waiter_in_handover :
    ∃ w j w', Reaches (World.step Ledger.backend .ascii oneSlot) World.KeepsMarks
        (World.start oneSlot {}) w ∧
      World.step Ledger.backend .ascii oneSlot w (.task j .wake) = some w' ∧
      ∃ evs, w'.log = w.log ++ evs ∧ .admitted j ∈ evs := by
  have holds : execHolds (World.step Ledger.backend .ascii oneSlot) World.KeepsMarks
      (World.start oneSlot {}) handover.dropLast
      (fun w => (w.tasks[1]?.any (·.phase.parked)) &&
        decide (w.shared.gate.active < w.shared.gate.capacity)) = true := by
    decide +kernel
  obtain ⟨w, reached, both⟩ := exists_reaches_of_execHolds _ _ holds
  obtain ⟨waits, free⟩ := (Bool.and_eq_true ..).mp both
  obtain ⟨t, here, parked⟩ := (Option.any_eq_true ..).mp waits
  obtain ⟨j, u, w', -, -, stepped, admitted, -⟩ :=
    free_slot_finds_waiter reached here parked (of_decide_eq_true free)
  exact ⟨w, j, w', reached, stepped, admitted⟩

end LLMInference
