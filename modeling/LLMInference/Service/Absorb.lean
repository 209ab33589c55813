import LLMInference.Service.Capacity
import LLMInference.Service.Queue

/-!
What the control loop is for (`app/service.py`, `autoscale_tick`; `app/gate.py`, `resize`).

More requests are there than the gate has slots. If replicas for all of them may be had, the next
tick lets all of them in: the gate grows to the load and wakes everybody. From then on, and until
somebody new comes to the gate, no later tick takes the room away and nobody parks again.

* `Autoscaler.room_after`: a tick that finds room for the load leaves room for it.
* `Absorbed`: the load fits the gate, and nobody waits unwoken. Steps that bring no newcomer
  preserve it.
* `overload_absorbed`: the theorem.
-/

namespace LLMInference

open Runs

section Replicas

variable {ts : TextSupport} {s : Settings} {a : Autoscaler} {t : Tick}

theorem capacityFor_mono (target : 0 < s.targetConcurrencyPerReplica) {m n : ℤ} (le : m ≤ n) :
    capacityFor s m ≤ capacityFor s n := by
  rw [capacityFor_eq, capacityFor_eq]
  refine max_le_max le_rfl (Int.floor_le_floor ?_)
  exact mul_le_mul_of_nonneg_right (Int.cast_le.mpr le) target.le

/-- The gate of as many replicas as a load needs, or more, has room for it. -/
theorem le_capacityFor (target : 0 < s.targetConcurrencyPerReplica) {load n : ℤ}
    (enough : ⌈(load : ℚ) / s.targetConcurrencyPerReplica⌉ ≤ n) : load ≤ capacityFor s n := by
  rw [capacityFor_eq]
  exact le_max_of_le_right (le_floor_mul target enough)

/-- The gate of fewer replicas has not. -/
theorem lt_ceil_of_capacityFor (target : 0 < s.targetConcurrencyPerReplica) {load n : ℤ}
    (busy : capacityFor s n < load) : n < ⌈(load : ℚ) / s.targetConcurrencyPerReplica⌉ := by
  by_contra few
  exact absurd (le_capacityFor target (not_lt.mp few)) (not_le.mpr busy)

/-- A count of replicas in use. -/
def Autoscaler.Bounded (s : Settings) (a : Autoscaler) : Prop :=
  a.current ≤ max s.minReplicas s.maxReplicas

theorem Autoscaler.Bounded.after (bounded : a.Bounded s) (ts : TextSupport) (t : Tick) :
    (a.after ts s t).Bounded s := by
  rcases (Autoscaler.moves ts s a t).current with same | wanted
  · exact same.le.trans bounded
  · unfold Autoscaler.rawDesired at wanted
    have clamped : ∀ n, max s.minReplicas (min n s.maxReplicas) ≤ max s.minReplicas s.maxReplicas :=
      fun n => max_le_max le_rfl (min_le_right _ _)
    unfold Autoscaler.Bounded
    split_ifs at wanted
    · exact Option.some.inj wanted ▸ clamped 0
    · exact Option.some.inj wanted ▸ clamped _

/-- A tick that finds room for the load leaves room for it, whatever it decides. -/
theorem Autoscaler.room_after (ts : TextSupport) (t : Tick)
    (target : 0 < s.targetConcurrencyPerReplica)
    (bounded : a.Bounded s) (counts : 0 ≤ t.load.total)
    (room : t.load.total ≤ capacityFor s a.current) :
    t.load.total ≤ capacityFor s (a.after ts s t).current := by
  have moved := Autoscaler.moves ts s a t
  generalize a.after ts s t = a' at moved
  generalize a.commitOf ts s t = c at moved
  cases moved with
  | stays => exact room
  | @commits up desired _ wanted beyond cooled count =>
      rw [count]
      rw [Autoscaler.rawDesired_eq target (.inl counts), Option.some.injEq] at wanted
      cases up with
      | true => exact room.trans (capacityFor_mono target (le_of_lt beyond))
      | false =>
          -- Fewer than there are is not the maximum, so it is what the load needs.
          have fewer : desired < a.current := beyond
          refine le_capacityFor target ?_
          unfold Settings.clampReplicas at wanted
          unfold Autoscaler.Bounded at bounded
          omega

/-- A tick that finds too little room, and is neither cooling down nor at the maximum, makes it. -/
theorem Autoscaler.room_made (ts : TextSupport) (t : Tick)
    (target : 0 < s.targetConcurrencyPerReplica)
    (busy : capacityFor s a.current < t.load.total)
    (within : ⌈(t.load.total : ℚ) / s.targetConcurrencyPerReplica⌉ ≤ s.maxReplicas)
    (cooled : s.scaleUpCooldownS ≤ t.now - a.lastScaleUp) :
    t.load.total ≤ capacityFor s (a.after ts s t).current := by
  have needed := lt_ceil_of_capacityFor target busy
  have counts : 0 ≤ t.load.total := by
    have one : 1 ≤ capacityFor s a.current := by
      rw [capacityFor_eq]
      exact le_max_left _ _
    omega
  have wanted := Autoscaler.rawDesired_eq target (s := s) (.inl counts)
  have moved := Autoscaler.moves ts s a t
  generalize a.after ts s t = a' at moved
  generalize a.commitOf ts s t = c at moved
  have enough : ⌈(t.load.total : ℚ) / s.targetConcurrencyPerReplica⌉ ≤
      s.clampReplicas ⌈(t.load.total : ℚ) / s.targetConcurrencyPerReplica⌉ := by
    unfold Settings.clampReplicas
    omega
  cases moved with
  | @commits up desired _ there beyond cooled count =>
      cases wanted.symm.trans there
      rw [count]
      exact le_capacityFor target enough
  | stays held =>
      have more : Beyond true a.current
          (s.clampReplicas ⌈(t.load.total : ℚ) / s.targetConcurrencyPerReplica⌉) :=
        needed.trans_le enough
      exact absurd cooled (not_le.mpr (held true _ wanted more))

end Replicas

section Gate

variable {g : CapacityGate}

/-- `resize` does not change the load. -/
theorem load_resize (g : CapacityGate) (n : ℤ) : (g.resize n).load = g.load := rfl

/-- A gate that has grown over its whole load has woken everybody. -/
theorem parked_resize {s : Settings} {n : ℤ} (grows : g.capacity < capacityFor s n)
    (fits : (g.waiters.length : ℤ) ≤ capacityFor s n) :
    (g.resize (capacityFor s n)).parked = 0 := by
  have least : max 1 (capacityFor s n) = capacityFor s n := by simp [capacityFor]
  have few : g.waiters.countP (!·.marked) ≤ g.waiters.length := List.countP_le_length
  obtain ⟨parked, -⟩ := countP_notify (capacityFor s n).toNat g.waiters
  simp only [CapacityGate.parked, CapacityGate.resize, least, if_pos grows, parked]
  omega

/-- No step of `resize` leaves more unwoken. -/
theorem parked_resize_le (g : CapacityGate) (n : ℤ) : (g.resize n).parked ≤ g.parked := by
  unfold CapacityGate.resize CapacityGate.parked
  simp only
  split
  · obtain ⟨parked, -⟩ := countP_notify (max 1 n).toNat g.waiters
    rw [parked]
    exact Nat.sub_le _ _
  · exact le_rfl

end Gate

section Loop

variable {σ : Type} {B : LedgerBackend σ} {ts : TextSupport} {s : Settings}

/-- The call of `step` in a tick. -/
def Shared.tick (sh : Shared σ) (later : ℚ) : Tick :=
  { load := sh.gate.load, now := sh.mono, later }

/-- A tick steps the autoscaler and fits the gate to it. -/
theorem scale_eq {sh : Shared σ} (fitted : Fitted s sh) (ts : TextSupport) (later : ℚ) :
    (World.scale ts s sh later).autoscaler = sh.autoscaler.after ts s (sh.tick later) ∧
      (World.scale ts s sh later).gate =
        sh.gate.resize (capacityFor s (sh.autoscaler.after ts s (sh.tick later)).current) := by
  have still : sh.gate.resize (capacityFor s sh.autoscaler.current) = sh.gate := by
    have least : max 1 (capacityFor s sh.autoscaler.current) = sh.gate.capacity := by
      rw [fitted]
      simp [capacityFor]
    simp [CapacityGate.resize, least]
  have same : (sh.tick later).load = ⟨sh.gate.active, sh.gate.waiting⟩ := rfl
  unfold World.scale Autoscaler.after
  rw [same]
  simp only
  split
  · rename_i none
    simp only [Shared.tick, none]
    exact ⟨trivial, still.symm⟩
  · rename_i d a' stepped
    simp only [Shared.tick, stepped]
    obtain ⟨before, count⟩ := Autoscaler.count_of_step stepped
    refine ⟨trivial, ?_⟩
    split
    · rw [count]
    · rename_i unchanged
      have kept : d.desiredReplicas = d.currentReplicas := by
        simpa [ScaleDecision.changed] using unchanged
      rw [← count, kept, before, still]

theorem bounded_of_reaches {ok : World σ → WorldAct → Prop} {ledger : σ} {w : World σ}
    (reached : Reaches (World.step B ts s) ok (World.start s ledger) w) :
    w.shared.autoscaler.Bounded s := by
  apply reached.invariant_of (I := fun w => w.shared.autoscaler.Bounded s)
  · exact le_max_left _ _
  · intro w a w' before bounded _ stepped
    cases a with
    | submit request streaming =>
        cases stepped
        exact bounded
    | clock now mono =>
        cases stepped
        exact bounded
    | scale later =>
        cases stepped
        have after := bounded.after ts (w.shared.tick later)
        rwa [← (scale_eq (fitted_of_reaches before) ts later).1] at after
    | task i a =>
        obtain ⟨t, sh, ph, evs, -, made, rfl⟩ := task_of_step stepped
        have same := (trans_of_taskStep made).capacity.1
        exact (congrArg (Autoscaler.Bounded s) same).mpr bounded

/-- The load fits the gate, and everybody who waits was woken. -/
structure Absorbed (g : CapacityGate) : Prop where
  fits : g.load.total ≤ g.capacity
  woken : g.parked = 0

/-- The step brings nobody new to the gate. -/
def NoNewcomer (w : World σ) : WorldAct → Prop
  | .task i (.run _) => (w.tasks[i]?.any fun t => t.phase.asks) = false
  | _ => True

instance (w : World σ) (a : WorldAct) : Decidable (NoNewcomer w a) :=
  match a with
  | .task _ (.run _) => inferInstanceAs (Decidable (_ = false))
  | .submit .. | .clock .. | .scale _ | .task _ .timeout | .task _ .wake | .task _ (.answer _)
  | .task _ (.chunk _) | .task _ .exhausted | .task _ (.streamError _) | .task _ .next
  | .task _ .close | .task _ (.cancel _) => isTrue trivial

theorem Absorbed.step {w w' : World σ} {a : WorldAct} (absorbed : Absorbed w.shared.gate)
    (target : 0 < s.targetConcurrencyPerReplica) (lined : Lined w) (counted : Counted w)
    (fitted : Fitted s w.shared) (bounded : w.shared.autoscaler.Bounded s)
    (nobody : NoNewcomer w a) (stepped : World.step B ts s w a = some w') :
    Absorbed w'.shared.gate := by
  obtain ⟨fits, woken⟩ := absorbed
  cases a with
  | submit request streaming =>
      cases stepped
      exact ⟨fits, woken⟩
  | clock now mono =>
      cases stepped
      exact ⟨fits, woken⟩
  | scale later =>
      cases stepped
      obtain ⟨-, gate⟩ := scale_eq fitted ts later
      have counts : 0 ≤ w.shared.gate.load.total := by
        simp only [LoadSample.total, CapacityGate.load, counted.active, counted.waiting]
        omega
      have room := Autoscaler.room_after ts (w.shared.tick later) target bounded counts
        (fits.trans fitted.le)
      show Absorbed (World.scale ts s w.shared later).gate
      rw [gate]
      refine ⟨?_, ?_⟩
      · rw [load_resize, capacity_resize]
        exact room
      · exact Nat.le_zero.mp (woken ▸ parked_resize_le _ _)
  | task i a =>
      obtain ⟨t, sh, ph, evs, here, made, rfl⟩ := task_of_step stepped
      have moved := (trans_of_taskStep made).gate
      have waking : a = .wake → w.shared.gate.runnable i = true := by
        rintro rfl
        exact runnable_of_wake made
      show Absorbed sh.gate
      generalize sh.gate = gate at moved ⊢
      have room : w.shared.gate.active + w.shared.gate.waiting ≤ w.shared.gate.capacity := fits
      have waits : t.phase.parked = true → 0 < w.shared.gate.waiting := by
        intro parked
        have positive := Pool.countP_pos here (p := (·.phase.parked)) parked
        have counts := counted.waiting
        omega
      cases moved with
      | kept => exact ⟨fits, woken⟩
      | acquired asks parks =>
          rw [NoNewcomer, here, Option.any_some] at nobody
          cases asks.symm.trans nobody
      | woken parked parks =>
          have waiting := waits parked
          rcases CapacityGate.counts_resume (waking rfl) with
            ⟨free, -, unwoken, -⟩ | ⟨full, -, -, -⟩
          · refine ⟨?_, unwoken.trans woken⟩
            simp only [CapacityGate.load, LoadSample.total, CapacityGate.resume, if_pos free]
            omega
          · omega
      | left parked leaves gives =>
          have present := CapacityGate.waiter_isSome.mpr ((lined.mem_iff here).mpr parked)
          obtain ⟨wt, found⟩ := Option.isSome_iff_exists.mp present
          obtain ⟨unwoken, -⟩ := CapacityGate.counts_leave found (w.shared.gate.abandon i) rfl
          refine ⟨?_, by omega⟩
          simp only [CapacityGate.load, LoadSample.total, CapacityGate.abandon]
          omega
      | released holds outside after =>
          have active : 0 < w.shared.gate.active := by
            have positive := Pool.countP_pos here (p := (·.phase.holdsSlot)) holds
            have counts := counted.active
            omega
          obtain ⟨unwoken, -⟩ := countP_notify 1 w.shared.gate.waiters
          refine ⟨?_, ?_⟩
          · simp only [CapacityGate.load, LoadSample.total, CapacityGate.release]
            omega
          · simp only [CapacityGate.parked] at woken
            simp only [CapacityGate.parked, CapacityGate.release, unwoken, woken]

/-- A run without newcomers keeps the room. -/
theorem absorbed_of_reaches (target : 0 < s.targetConcurrencyPerReplica)
    {ok : World σ → WorldAct → Prop} {ledger : σ} {w w' : World σ}
    (reached : Reaches (World.step B ts s) ok (World.start s ledger) w)
    (absorbed : Absorbed w.shared.gate) (later : Reaches (World.step B ts s) NoNewcomer w w') :
    Absorbed w'.shared.gate := by
  apply later.invariant_of (I := fun w => Absorbed w.shared.gate) absorbed
  intro w₁ a w₂ before absorbed nobody stepped
  have whole : Reaches (World.step B ts s) Always (World.start s ledger) w₁ :=
    (reached.weaken fun _ _ _ => trivial).trans (before.weaken fun _ _ _ => trivial)
  exact absorbed.step target (lined_of_reaches whole) (counted_of_reaches whole)
    (fitted_of_reaches whole) (bounded_of_reaches whole) nobody stepped

/-- A tick finds more requests than slots, is not cooling down, and may have as many replicas as
they need. Then everybody it finds gets through: in every run after it that brings nobody new to
the gate, whatever else happens, each request that still waits has been woken and is admitted by
its own next step. -/
theorem overload_absorbed (target : 0 < s.targetConcurrencyPerReplica) {ledger : σ}
    {w w₁ : World σ} (reached : Reaches (World.step B ts s) Always (World.start s ledger) w)
    (busy : w.shared.gate.capacity < w.shared.gate.load.total)
    (within : ⌈(w.shared.gate.load.total : ℚ) / s.targetConcurrencyPerReplica⌉ ≤ s.maxReplicas)
    (cooled : s.scaleUpCooldownS ≤ w.shared.mono - w.shared.autoscaler.lastScaleUp) {later : ℚ}
    (ticked : World.step B ts s w (.scale later) = some w₁) {w₂ : World σ}
    (run : Reaches (World.step B ts s) NoNewcomer w₁ w₂) {i : ℕ} {t : Task}
    (here : w₂.tasks[i]? = some t) (parked : t.phase.parked = true) :
    ∃ w₃, World.step B ts s w₂ (.task i .wake) = some w₃ ∧
      (∃ evs, w₃.log = w₂.log ++ evs ∧ .admitted i ∈ evs) ∧
      ∃ u, w₃.tasks[i]? = some u ∧ u.phase.holdsSlot = true := by
  have fitted := fitted_of_reaches reached
  have counted := counted_of_reaches reached
  have lined := lined_of_reaches reached
  obtain ⟨-, gate⟩ := scale_eq fitted ts later
  have made := Autoscaler.room_made ts (w.shared.tick later) target
    (fitted.ge.trans_lt busy) within cooled
  have absorbed : Absorbed w₁.shared.gate := by
    cases ticked
    show Absorbed (World.scale ts s w.shared later).gate
    rw [gate]
    refine ⟨made.trans (capacity_resize ..).ge, parked_resize (busy.trans_le made) ?_⟩
    refine le_trans ?_ made
    have queue : (w.shared.gate.waiters.length : ℤ) = w.shared.gate.waiting := by
      rw [lined.length, counted.waiting]
    show (w.shared.gate.waiters.length : ℤ) ≤ w.shared.gate.active + w.shared.gate.waiting
    rw [queue, counted.active]
    omega
  have after := reached.tail trivial ticked
  have still := absorbed_of_reaches target after absorbed run
  have whole : Reaches (World.step B ts s) Always (World.start s ledger) w₂ :=
    after.trans (run.weaken fun _ _ _ => trivial)
  have lined₂ := lined_of_reaches whole
  have counted₂ := counted_of_reaches whole
  obtain ⟨wt, mem, rfl⟩ := List.mem_map.mp ((lined₂.mem_iff here).mpr parked)
  have marked : wt.marked = true := by
    simpa using List.countP_eq_zero.mp still.woken wt mem
  have waits : 0 < w₂.tasks.countP (·.phase.parked) := Pool.countP_pos here parked
  have room : w₂.shared.gate.active < w₂.shared.gate.capacity := by
    have fits : w₂.shared.gate.active + w₂.shared.gate.waiting ≤ w₂.shared.gate.capacity :=
      still.fits
    have counts := counted₂.waiting
    omega
  exact admitted_of_runnable B ts s here parked (lined₂.distinct.runnable mem marked) room

end Loop

/-- Somebody else arrives, the request that had the slot is answered and returns it, and the
autoscaler is called again. -/
def crowdServed : List WorldAct :=
  [.clock 21 21, .submit { prompt := "hey", userId := "x" } false, .task 0 (.run .none),
    .task 0 (.answer (.completion { text := "yo", inputTokens := 1, outputTokens := 1 })),
    .task 0 (.run .none), .scale 30]

theorem overload_absorbed_crowd :
    ∃ w w₁ w₂ w₃, Reaches (World.step Ledger.backend .ascii oneSlot) Always
        (World.start oneSlot {}) w ∧
      World.step Ledger.backend .ascii oneSlot w (.scale 20) = some w₁ ∧
      Reaches (World.step Ledger.backend .ascii oneSlot) NoNewcomer w₁ w₂ ∧
      .slotReleased 0 ∈ w₂.log ∧
      World.step Ledger.backend .ascii oneSlot w₂ (.task 1 .wake) = some w₃ ∧
      ∃ evs, w₃.log = w₂.log ++ evs ∧ .admitted 1 ∈ evs := by
  have holds : execHolds (World.step Ledger.backend .ascii oneSlot) Always (World.start oneSlot {})
      crowd (fun w => decide (w.shared.gate.capacity = 1 ∧ w.shared.gate.load = ⟨1, 1⟩ ∧
          oneSlot.scaleUpCooldownS ≤ w.shared.mono - w.shared.autoscaler.lastScaleUp) &&
        (World.step Ledger.backend .ascii oneSlot w (.scale 20)).any fun w₁ =>
          execHolds (World.step Ledger.backend .ascii oneSlot) NoNewcomer w₁ crowdServed fun w₂ =>
            decide (.slotReleased 0 ∈ w₂.log) && w₂.tasks[1]?.any (·.phase.parked)) = true := by
    decide +kernel
  obtain ⟨w, reached, both⟩ := exists_reaches_of_execHolds _ _ holds
  obtain ⟨state, both⟩ := (Bool.and_eq_true ..).mp both
  obtain ⟨one, load, cooled⟩ := of_decide_eq_true state
  obtain ⟨w₁, ticked, served⟩ := (Option.any_eq_true ..).mp both
  obtain ⟨w₂, run, both⟩ := exists_reaches_of_execHolds _ _ served
  obtain ⟨returned, waits⟩ := (Bool.and_eq_true ..).mp both
  obtain ⟨t, here, parked⟩ := (Option.any_eq_true ..).mp waits
  have positive : 0 < oneSlot.targetConcurrencyPerReplica := by decide +kernel
  have busy : w.shared.gate.capacity < w.shared.gate.load.total := by
    rw [one, load]
    decide
  have within : ⌈(w.shared.gate.load.total : ℚ) / oneSlot.targetConcurrencyPerReplica⌉ ≤
      oneSlot.maxReplicas := by
    rw [load]
    decide +kernel
  obtain ⟨w₃, woken, admitted, -⟩ :=
    overload_absorbed positive reached busy within cooled ticked run here parked
  exact ⟨w, w₁, w₂, w₃, reached, ticked, run, of_decide_eq_true returned, woken, admitted⟩

end LLMInference
