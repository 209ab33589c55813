import LLMInference.Autoscaler.Cooldowns
import LLMInference.Service.Slots
import Mathlib.Algebra.Order.Floor.Ring

/-!
The control loop of the service (`app/service.py`): `autoscale_tick` samples the gate, steps the
autoscaler, and resizes the gate when the count has changed.

The autoscaler rounds a quotient up; `_capacity_for` rounds a product down.

* `Fitted`: the gate has the capacity of the current count.
* `capacity_follows`: it does in every reached state, and a tick that nothing holds back gives the
  gate room for the load it has sampled, with no replica to spare.
-/

namespace LLMInference

open Runs

/-- `_capacity_for` rounds down. -/
theorem capacityFor_eq (s : Settings) (n : ℤ) :
    capacityFor s n = max 1 ⌊(n : ℚ) * s.targetConcurrencyPerReplica⌋ := by
  unfold capacityFor truncate
  generalize (n : ℚ) * s.targetConcurrencyPerReplica = x
  rcases le_or_gt 0 x with positive | negative
  · have floor : x.num.tdiv x.den = ⌊x⌋ := by
      rw [Rat.floor_def', Int.tdiv_eq_ediv_of_nonneg (Rat.num_nonneg.mpr positive)]
    rw [floor]
  · have truncated : x.num.tdiv x.den ≤ 0 := by
      have below := Rat.num_neg.mpr negative
      have opposite : 0 ≤ (-x.num).tdiv x.den := Int.tdiv_nonneg (by omega) (Int.natCast_nonneg _)
      rw [Int.neg_tdiv] at opposite
      omega
    have floor : ⌊x⌋ ≤ 0 := Int.floor_nonpos negative.le
    rw [max_eq_left (by omega), max_eq_left (by omega)]

/-- What `current_load` samples. -/
def CapacityGate.load (g : CapacityGate) : LoadSample :=
  { inFlight := g.active, queueDepth := g.waiting }

section Loop

variable {σ : Type} {B : LedgerBackend σ} {ts : TextSupport} {s : Settings}

/-- The gate has the capacity of the current count. -/
def Fitted (s : Settings) (sh : Shared σ) : Prop :=
  sh.gate.capacity = capacityFor s sh.autoscaler.current

/-- Requests change neither the count nor the capacity. -/
theorem Trans.capacity {i : ℕ} {req : Request} {streaming : Bool} {sh sh' : Shared σ}
    {ph ph' : Phase} {a : TaskAct} {evs : List Event}
    (step : Trans B ts s i req streaming sh ph a sh' ph' evs) :
    sh'.autoscaler = sh.autoscaler ∧ sh'.gate.capacity = sh.gate.capacity := by
  cases step
  case enterBuffered entering | enterStreamed entering => cases entering <;> exact ⟨rfl, rfl⟩
  all_goals exact ⟨rfl, rfl⟩

theorem capacity_resize (g : CapacityGate) (s : Settings) (n : ℤ) :
    (g.resize (capacityFor s n)).capacity = capacityFor s n := by
  simp [CapacityGate.resize, capacityFor]

/-- A tick fits the gate to the count it leaves. -/
theorem Fitted.scale {sh : Shared σ} (fitted : Fitted s sh) (ts : TextSupport) (later : ℚ) :
    Fitted s (World.scale ts s sh later) := by
  unfold World.scale
  simp only
  split
  · exact fitted
  · rename_i d a' stepped
    obtain ⟨before, count⟩ := Autoscaler.count_of_step stepped
    unfold Fitted at fitted ⊢
    simp only
    split
    · rw [capacity_resize, count]
    · rename_i same
      have kept : d.desiredReplicas = d.currentReplicas := by
        simpa [ScaleDecision.changed] using same
      rw [fitted, ← count, kept, before]

theorem fitted_of_reaches {ok : World σ → WorldAct → Prop} {ledger : σ} {w : World σ}
    (reached : Reaches (World.step B ts s) ok (World.start s ledger) w) : Fitted s w.shared := by
  apply reached.invariant (I := fun w => Fitted s w.shared)
  · simp [Fitted, World.start, CapacityGate.create, capacityFor]
  · intro w a w' fitted _ stepped
    cases a with
    | submit request streaming =>
        cases stepped
        exact fitted
    | clock now mono =>
        cases stepped
        exact fitted
    | scale later =>
        cases stepped
        exact fitted.scale ts later
    | task i a =>
        obtain ⟨t, sh, ph, evs, -, made, rfl⟩ := task_of_step stepped
        obtain ⟨same, capacity⟩ := (trans_of_taskStep made).capacity
        show sh.gate.capacity = capacityFor s sh.autoscaler.current
        rw [same, capacity]
        exact fitted

/-- The load is a count of requests. -/
theorem load_nonneg {ok : World σ → WorldAct → Prop} {ledger : σ} {w : World σ}
    (reached : Reaches (World.step B ts s) ok (World.start s ledger) w) :
    0 ≤ w.shared.gate.load.total := by
  obtain ⟨active, waiting⟩ := counted_of_reaches reached
  simp only [LoadSample.total, CapacityGate.load, active, waiting]
  omega

/-- Rounding the quotient up leaves room for the load when the product is rounded down. -/
theorem le_floor_mul {load n : ℤ} {target : ℚ} (positive : 0 < target)
    (enough : ⌈(load : ℚ) / target⌉ ≤ n) : load ≤ ⌊(n : ℚ) * target⌋ := by
  rw [Int.le_floor, ← div_le_iff₀ positive]
  exact Int.ceil_le.mp enough

/-- One replica less would not have. -/
theorem pred_mul_lt {load : ℤ} {target : ℚ} (positive : 0 < target) :
    ((⌈(load : ℚ) / target⌉ : ℚ) - 1) * target < load := by
  rw [← lt_div_iff₀ positive, sub_lt_iff_lt_add]
  exact Int.ceil_lt_add_one _

/-- In every reached state the gate has the capacity of the current count. A tick that neither a
cooldown nor the maximum holds back leaves room for the load it has sampled, and one replica
less, unless there are no more than the minimum, would have left too little. -/
theorem capacity_follows (target : 0 < s.targetConcurrencyPerReplica) {ledger : σ} {w : World σ}
    (reached : Reaches (World.step B ts s) Always (World.start s ledger) w) :
    w.shared.gate.capacity =
        max 1 ⌊(w.shared.autoscaler.current : ℚ) * s.targetConcurrencyPerReplica⌋ ∧
      ∀ later, ∃ d a' w',
        w.shared.autoscaler.step ts s w.shared.gate.load w.shared.mono later = some (d, a') ∧
        World.step B ts s w (.scale later) = some w' ∧
        (d.suppressed = false →
          ⌈(w.shared.gate.load.total : ℚ) / s.targetConcurrencyPerReplica⌉ ≤ s.maxReplicas →
          w.shared.gate.load.total ≤ w'.shared.gate.capacity ∧
            (d.desiredReplicas = s.minReplicas ∨
              ((d.desiredReplicas : ℚ) - 1) * s.targetConcurrencyPerReplica <
                w.shared.gate.load.total)) := by
  have fitted := fitted_of_reaches reached
  refine ⟨fitted.trans (capacityFor_eq s _), ?_⟩
  intro later
  let t : Tick := { load := w.shared.gate.load, now := w.shared.mono, later }
  have wanted : Autoscaler.rawDesired s t.load = _ :=
    Autoscaler.rawDesired_eq target (.inl (load_nonneg reached))
  obtain ⟨d, stepped, free⟩ :=
    w.shared.autoscaler.step_of_wanted ts wanted
  refine ⟨d, _, _, stepped, rfl, ?_⟩
  intro unsuppressed unclamped
  have count := free unsuppressed
  have desired := (Autoscaler.count_of_step stepped).2
  rw [Settings.clampReplicas, min_eq_left unclamped] at count
  constructor
  · have after : (World.scale ts s w.shared later).autoscaler =
        w.shared.autoscaler.after ts s t := by
      have here : w.shared.autoscaler.step ts s
          { inFlight := w.shared.gate.active, queueDepth := w.shared.gate.waiting } w.shared.mono
            later = some (d, w.shared.autoscaler.after ts s t) := stepped
      simp only [World.scale, here]
    have room : (World.scale ts s w.shared later).gate.capacity = _ :=
      (fitted.scale ts later).trans (capacityFor_eq s _)
    show w.shared.gate.load.total ≤ (World.scale ts s w.shared later).gate.capacity
    rw [room, after, count]
    exact le_max_of_le_right (le_floor_mul target (le_max_right _ _))
  · rw [desired, count]
    rcases max_choice s.minReplicas
      ⌈(w.shared.gate.load.total : ℚ) / s.targetConcurrencyPerReplica⌉ with least | needed
    · exact .inl least
    · rw [needed]
      exact .inr (pred_mul_lt target)

end Loop

/-- One request has the slot, another waits for it. -/
def crowd : List WorldAct :=
  [.clock 20 20, .submit { prompt := "hi", userId := "u" } false,
    .submit { prompt := "hi", userId := "v" } false,
    .task 0 (.run .none), .task 0 (.run .none), .task 0 (.run .none),
    .task 1 (.run .none), .task 1 (.run .none), .task 1 (.run .none)]

theorem capacity_follows_crowd :
    ∃ w d a' w',
      Reaches (World.step Ledger.backend .ascii oneSlot) Always (World.start oneSlot {}) w ∧
      w.shared.gate.load = ⟨1, 1⟩ ∧
      w.shared.autoscaler.step .ascii oneSlot w.shared.gate.load w.shared.mono 20 = some (d, a') ∧
      World.step Ledger.backend .ascii oneSlot w (.scale 20) = some w' ∧
      2 ≤ w'.shared.gate.capacity := by
  have holds : execHolds (World.step Ledger.backend .ascii oneSlot) Always (World.start oneSlot {})
      crowd (fun w => decide (w.shared.gate.load = ⟨1, 1⟩ ∧
        (w.shared.autoscaler.step .ascii oneSlot w.shared.gate.load w.shared.mono 20).any
          (fun out => !out.1.suppressed))) = true := by
    decide +kernel
  obtain ⟨w, reached, good⟩ := exists_reaches_of_execHolds _ _ holds
  obtain ⟨load, free⟩ := of_decide_eq_true good
  have positive : 0 < oneSlot.targetConcurrencyPerReplica := by decide +kernel
  obtain ⟨d, a', w', stepped, ticked, fits⟩ := (capacity_follows positive reached).2 20
  refine ⟨w, d, a', w', reached, load, stepped, ticked, ?_⟩
  rw [load] at fits
  refine (fits ?_ (by decide +kernel)).1
  rw [stepped] at free
  simpa using free

end LLMInference
