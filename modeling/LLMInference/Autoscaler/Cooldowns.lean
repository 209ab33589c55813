import LLMInference.Autoscaler
import LLMInference.Lib.Runs
import Mathlib.Tactic.Linarith

/-!
Cooldowns of the autoscaler (`app/autoscaler.py`), over runs of `step`.

Each direction has a stamp of its own, which starts at 0. A scale-down waits for the stamp of the
scale-downs only.

* `moves`: what one call commits, and when it commits nothing.
* `Stamped`: a stamp is the time of the last commit in its direction, once there is one.
* `no_flap_iff`: a run keeps every scale-down clear of all commits exactly when no call takes
  replicas away within the cooldown of the last scale-up.
* `replicas_bounded`: the bounds, the spacing within one direction, and where a call leads.
-/

namespace LLMInference

open Runs

/-- One call of `step`: the load, and what `decide` and `apply` read from the clock. -/
structure Tick where
  load : LoadSample
  now : ℚ
  later : ℚ
  deriving DecidableEq, Repr

/-- A count that `apply` has committed: the direction and the time. -/
structure Commit where
  up : Bool
  time : ℚ
  deriving DecidableEq, Repr

/-- A cooldown held the count back. -/
def ScaleDecision.suppressed (d : ScaleDecision) : Bool :=
  decide (d.reason = "scale up suppressed by cooldown" ∨
    d.reason = "scale down suppressed by cooldown")

namespace Autoscaler

section Calls

variable (ts : TextSupport) (s : Settings) (a : Autoscaler) (t : Tick)

/-- What a call commits. -/
def commitOf : Option Commit :=
  match a.step ts s t.load t.now t.later with
  | some (d, _) =>
      if d.changed then
        some { up := Decidable.decide (a.current < d.desiredReplicas), time := t.later }
      else none
  | none => none

/-- The autoscaler after a call; one that raises leaves it as it was. -/
def after : Autoscaler :=
  match a.step ts s t.load t.now t.later with
  | some (_, a') => a'
  | none => a

end Calls

/-- The cooldown stamp of a direction. -/
def stamp (a : Autoscaler) (up : Bool) : ℚ := if up then a.lastScaleUp else a.lastScaleDown

end Autoscaler

/-- The cooldown of a direction. -/
def Settings.cooldown (s : Settings) (up : Bool) : ℚ :=
  if up then s.scaleUpCooldownS else s.scaleDownCooldownS

/-- The wanted count, more or fewer replicas than there are, of a direction. -/
def Beyond (up : Bool) (current desired : ℤ) : Prop :=
  if up then current < desired else desired < current

namespace Autoscaler

/-- What a call does: it commits the wanted count and stamps the direction, or nothing. -/
inductive Moves (s : Settings) (a : Autoscaler) (t : Tick) : Option Commit → Autoscaler → Prop
  | commits {up : Bool} {desired : ℤ} {a' : Autoscaler}
      (wanted : rawDesired s t.load = some desired) (beyond : Beyond up a.current desired)
      (cooled : s.cooldown up ≤ t.now - a.stamp up) (count : a'.current = desired)
      (stamped : a'.stamp up = t.later) (other : a'.stamp (!up) = a.stamp (!up)) :
      Moves s a t (some { up, time := t.later }) a'
  | stays (held : ∀ up desired, rawDesired s t.load = some desired → Beyond up a.current desired →
      t.now - a.stamp up < s.cooldown up) : Moves s a t none a

section Calls

variable {ts : TextSupport} {s : Settings} {a : Autoscaler} {t : Tick}

theorem moves (ts : TextSupport) (s : Settings) (a : Autoscaler) (t : Tick) :
    Moves s a t (a.commitOf ts s t) (a.after ts s t) := by
  unfold commitOf after step Autoscaler.decide
  cases wanted : rawDesired s t.load with
  | none => exact .stays (by simp [wanted])
  | some desired =>
      by_cases more : a.current < desired
      · by_cases cooled : s.scaleUpCooldownS ≤ t.now - a.lastScaleUp
        · have changed : desired ≠ a.current := more.ne'
          simp only [Option.map_some, more, cooled, if_true, apply, ScaleDecision.changed, changed,
            ne_eq, not_false_eq_true, decide_true, Bool.true_eq_false, if_false]
          exact .commits wanted more cooled rfl rfl rfl
        · simp only [Option.map_some, more, cooled, if_true, if_false, apply,
            ScaleDecision.changed, ne_eq, not_true_eq_false, decide_false, Bool.false_eq_true]
          refine .stays ?_
          rintro (_ | _) d there beyond
          · cases wanted.symm.trans there
            exact absurd more (not_lt.mpr (le_of_lt beyond))
          · exact not_le.mp cooled
      · by_cases fewer : desired < a.current
        · by_cases cooled : s.scaleDownCooldownS ≤ t.now - a.lastScaleDown
          · have changed : desired ≠ a.current := fewer.ne
            simp only [Option.map_some, more, fewer, cooled, if_true, if_false, apply,
              ScaleDecision.changed, changed, ne_eq, not_false_eq_true, decide_true, decide_false,
              Bool.true_eq_false]
            exact .commits wanted fewer cooled rfl rfl rfl
          · simp only [Option.map_some, more, fewer, cooled, if_true, if_false, apply,
              ScaleDecision.changed, ne_eq, not_true_eq_false, decide_false, Bool.false_eq_true]
            refine .stays ?_
            rintro (_ | _) d there beyond
            · exact not_le.mp cooled
            · cases wanted.symm.trans there
              exact absurd beyond more
        · simp only [Option.map_some, more, fewer, if_false, apply, ScaleDecision.changed, ne_eq,
            not_true_eq_false, decide_false, Bool.false_eq_true]
          refine .stays ?_
          rintro (_ | _) d there beyond <;> cases wanted.symm.trans there
          · exact absurd beyond fewer
          · exact absurd beyond more

/-- The count is the one before, or the wanted one. -/
theorem Moves.current {c : Option Commit} {a' : Autoscaler} (moves : Moves s a t c a') :
    a'.current = a.current ∨ rawDesired s t.load = some a'.current := by
  cases moves with
  | commits wanted _ _ count => exact .inr (count ▸ wanted)
  | stays => exact .inl rfl

end Calls

/-- The call takes no replicas away within the cooldown of the last scale-up. -/
def WaitsOut (s : Settings) (a : Autoscaler) (t : Tick) : Prop :=
  ∀ desired ∈ rawDesired s t.load, desired < a.current →
    s.scaleDownCooldownS ≤ t.now - a.lastScaleDown →
      s.scaleDownCooldownS ≤ t.later - a.lastScaleUp

instance (s : Settings) (a : Autoscaler) (t : Tick) : Decidable (a.WaitsOut s t) :=
  inferInstanceAs (Decidable (∀ desired ∈ rawDesired s t.load, _ → _ → _))

end Autoscaler

/-! ### Runs -/

/-- An autoscaler, the clock it reads, and the calls so far with what they were made on, the
latest first. -/
structure ScalerRun where
  scaler : Autoscaler
  clock : ℚ
  calls : List (Autoscaler × Tick) := []
  deriving DecidableEq, Repr

namespace ScalerRun

/-- A new autoscaler, on a clock that reads anything. -/
def start (s : Settings) (clock : ℚ) : ScalerRun := { scaler := .create s, clock }

def step (ts : TextSupport) (s : Settings) (r : ScalerRun) (t : Tick) : Option ScalerRun :=
  if r.clock ≤ t.now ∧ t.now ≤ t.later then
    some
      { scaler := r.scaler.after ts s t, clock := t.later, calls := (r.scaler, t) :: r.calls }
  else none

/-- What was committed, the latest first. -/
def commits (ts : TextSupport) (s : Settings) (r : ScalerRun) : List Commit :=
  r.calls.filterMap fun c => c.1.commitOf ts s c.2

end ScalerRun

/-- No commit lies in the cooldown before a scale-down. The latest commit stands first. -/
def NoFlap (s : Settings) (commits : List Commit) : Prop :=
  commits.Pairwise fun newer older =>
    newer.up = false → older.time ≤ newer.time - s.scaleDownCooldownS

/-- Two commits in one direction are its cooldown apart. The latest commit stands first. -/
def Spaced (s : Settings) (commits : List Commit) : Prop :=
  commits.Pairwise fun newer older =>
    newer.up = older.up → older.time + s.cooldown newer.up ≤ newer.time

namespace ScalerRun

/-- What the stamps and the count say about the commits so far. -/
structure Stamped (s : Settings) (scaler : Autoscaler) (clock : ℚ) (commits : List Commit) :
    Prop where
  passed : ∀ c ∈ commits, c.time ≤ clock
  latest : ∀ c ∈ commits, c.time ≤ scaler.stamp c.up
  attained : ∀ up, (∃ c ∈ commits, c.up = up) →
    ∃ c ∈ commits, c.up = up ∧ c.time = scaler.stamp up
  floor : s.minReplicas ≤ scaler.current
  grown : s.minReplicas < scaler.current → ∃ c ∈ commits, c.up = true

section Steps

variable {ts : TextSupport} {s : Settings} {a a' : Autoscaler} {t : Tick} {clock : ℚ}
  {commits : List Commit} {r r' : ScalerRun}

theorem min_le_rawDesired {load : LoadSample} {desired : ℤ}
    (wanted : Autoscaler.rawDesired s load = some desired) : s.minReplicas ≤ desired := by
  unfold Autoscaler.rawDesired at wanted
  split_ifs at wanted <;> cases wanted <;> exact le_max_left _ _

theorem rawDesired_le_max {load : LoadSample} {desired : ℤ} (bounds : s.minReplicas ≤ s.maxReplicas)
    (wanted : Autoscaler.rawDesired s load = some desired) : desired ≤ s.maxReplicas := by
  unfold Autoscaler.rawDesired at wanted
  split_ifs at wanted <;> cases wanted <;> exact max_le bounds (min_le_right _ _)

/-- The step lemma. -/
theorem Stamped.moves (stamped : Stamped s a clock commits) (onward : clock ≤ t.later)
    {c : Option Commit} (moves : Autoscaler.Moves s a t c a') :
    Stamped s a' t.later (c.toList ++ commits) := by
  obtain ⟨passed, latest, attained, floor, grown⟩ := stamped
  have passed' : ∀ c ∈ commits, c.time ≤ t.later := fun c mem => (passed c mem).trans onward
  cases moves with
  | stays held => exact ⟨passed', latest, attained, floor, grown⟩
  | @commits up desired a' wanted beyond cooled count stampedAt other =>
      have new : ({ up, time := t.later } : Commit) ∈ [({ up, time := t.later } : Commit)] ++
          commits := List.mem_cons_self
      refine ⟨?_, ?_, ?_, count ▸ min_le_rawDesired wanted, ?_⟩
      · simpa using passed'
      · rintro c (_ | ⟨_, mem⟩)
        · exact stampedAt.ge
        · rcases Bool.eq_or_eq_not c.up up with same | other'
          · rw [same, stampedAt]
            exact passed' c mem
          · rw [other', other, ← other']
            exact latest c mem
      · intro dir some'
        rcases Bool.eq_or_eq_not dir up with rfl | rfl
        · exact ⟨_, new, rfl, stampedAt.symm⟩
        · obtain ⟨c, mem, dir⟩ := some'
          have old : c ∈ commits := by
            rcases List.mem_cons.mp mem with rfl | old
            · exact absurd dir (by simp)
            · exact old
          obtain ⟨c', mem', dir', time⟩ := attained _ ⟨c, old, dir⟩
          exact ⟨c', List.mem_append_right _ mem', dir', time.trans other.symm⟩
      · intro more
        cases up with
        | true => exact ⟨_, new, rfl⟩
        | false =>
            have fewer : desired < a.current := beyond
            obtain ⟨c, mem, dir⟩ := grown (by omega)
            exact ⟨c, List.mem_append_right _ mem, dir⟩

theorem step_eq_some (stepped : r.step ts s t = some r') :
    r.clock ≤ t.now ∧ t.now ≤ t.later ∧ r' =
      { scaler := r.scaler.after ts s t, clock := t.later, calls := (r.scaler, t) :: r.calls } := by
  obtain ⟨⟨onward, later⟩, ⟨⟩⟩ := Option.ite_none_right_eq_some.mp stepped
  exact ⟨onward, later, rfl⟩

theorem commits_step (stepped : r.step ts s t = some r') :
    r'.commits ts s = (r.scaler.commitOf ts s t).toList ++ r.commits ts s := by
  obtain ⟨-, -, rfl⟩ := step_eq_some stepped
  unfold ScalerRun.commits
  rw [List.filterMap_cons]
  cases r.scaler.commitOf ts s t <;> rfl

theorem Stamped.step (stamped : Stamped s r.scaler r.clock (r.commits ts s))
    (stepped : r.step ts s t = some r') :
    Stamped s r'.scaler r'.clock (r'.commits ts s) := by
  have commits := commits_step stepped
  obtain ⟨onward, later, rfl⟩ := step_eq_some stepped
  rw [commits]
  exact stamped.moves (onward.trans later) (r.scaler.moves ts s t)

theorem stamped_of_reaches (reached : Reaches (step ts s) Always (start s clock) r) :
    Stamped s r.scaler r.clock (r.commits ts s) := by
  apply reached.invariant
  · exact ⟨by simp [commits, start], by simp [commits, start], by simp [commits, start], le_rfl,
      fun more => absurd more (lt_irrefl _)⟩
  · intro r t r' stamped _ stepped
    exact stamped.step stepped

/-- One call keeps clear of the commits before it exactly when it waits out the last scale-up. -/
theorem Stamped.clear_iff (stamped : Stamped s a clock commits) (onward : t.now ≤ t.later)
    {c : Option Commit} (moves : Autoscaler.Moves s a t c a') :
    (∀ newer ∈ c, newer.up = false →
        ∀ older ∈ commits, older.time ≤ newer.time - s.scaleDownCooldownS) ↔
      a.WaitsOut s t := by
  obtain ⟨-, latest, attained, -, grown⟩ := stamped
  cases moves with
  | stays held =>
      refine iff_of_true (by simp) ?_
      intro desired wanted fewer cooled
      exact absurd cooled (not_le.mpr (held false desired wanted fewer))
  | @commits up desired a' wanted beyond cooled =>
      have once : ∀ d, Autoscaler.rawDesired s t.load = some d → d = desired :=
        fun d there => Option.some.inj (there.symm.trans wanted)
      cases up with
      | true =>
          refine iff_of_true (by simp) ?_
          intro d there fewer
          cases once d there
          exact absurd fewer (not_lt.mpr (le_of_lt beyond))
      | false =>
          have fewer : desired < a.current := beyond
          have cooled' : s.scaleDownCooldownS ≤ t.now - a.lastScaleDown := cooled
          simp only [Option.mem_def, Option.some.injEq, forall_eq', forall_const]
          constructor
          · intro clear d _ _ _
            have more := (min_le_rawDesired wanted).trans_lt fewer
            obtain ⟨older, mem, -, time⟩ := attained true (grown more)
            have apart := clear older mem
            rw [time] at apart
            exact le_sub_comm.mp apart
          · intro waits older mem
            have before := latest older mem
            cases dir : older.up with
            | true =>
                have last : older.time ≤ a.lastScaleUp := by rwa [dir] at before
                exact last.trans (le_sub_comm.mp (waits desired wanted fewer cooled'))
            | false =>
                have last : older.time ≤ a.lastScaleDown := by rwa [dir] at before
                linarith

/-- A commit is its cooldown past the stamp of its direction. -/
theorem Stamped.spaced (stamped : Stamped s a clock commits) (onward : t.now ≤ t.later)
    {c : Option Commit} (moves : Autoscaler.Moves s a t c a') :
    ∀ newer ∈ c, ∀ older ∈ commits,
      newer.up = older.up → older.time + s.cooldown newer.up ≤ newer.time := by
  cases moves with
  | stays held => simp
  | @commits up desired a' wanted beyond cooled =>
      simp only [Option.mem_def, Option.some.injEq, forall_eq']
      intro older mem same
      have before := stamped.latest older mem
      rw [← same] at before
      linarith

theorem pairwise_step {R : Commit → Commit → Prop} {c : Option Commit} :
    (c.toList ++ commits).Pairwise R ↔
      (∀ newer ∈ c, ∀ older ∈ commits, R newer older) ∧ commits.Pairwise R := by
  cases c <;> simp

end Steps

variable {ts : TextSupport} {s : Settings} {clock : ℚ} {r : ScalerRun}

/-- In every run a scale-down keeps clear of the commits before it exactly when no call takes
replicas away within the cooldown of the last scale-up. -/
theorem no_flap_iff (reached : Reaches (step ts s) Always (start s clock) r) :
    NoFlap s (r.commits ts s) ↔ ∀ c ∈ r.calls, c.1.WaitsOut s c.2 := by
  apply reached.invariant_of
  · simp [NoFlap, commits, start]
  · intro r t r' before same _ stepped
    have commits := commits_step stepped
    obtain ⟨-, later, rfl⟩ := step_eq_some stepped
    have clear := (stamped_of_reaches before).clear_iff later (r.scaler.moves ts s t)
    rw [NoFlap, commits, pairwise_step, List.forall_mem_cons, ← same, ← clear]
    have swap : ∀ newer : Commit, (∀ older ∈ r.commits ts s, newer.up = false →
        older.time ≤ newer.time - s.scaleDownCooldownS) ↔ (newer.up = false →
          ∀ older ∈ r.commits ts s, older.time ≤ newer.time - s.scaleDownCooldownS) :=
      fun newer => ⟨fun all dir older mem => all older mem dir,
        fun all older mem dir => all dir older mem⟩
    simp only [swap]
    rfl

/-- A burst, and a call when nothing is left of it. -/
def burst (gone : ℚ) : List Tick := [⟨⟨12, 0⟩, 1000, 1000⟩, ⟨⟨0, 0⟩, gone, gone⟩]

theorem no_flap_after_burst :
    ∃ r, Reaches (step .ascii {}) Always (start {} 1000) r ∧
      r.commits .ascii {} = [⟨false, 1060⟩, ⟨true, 1000⟩] ∧ NoFlap {} (r.commits .ascii {}) := by
  have holds : execHolds (step .ascii {}) Always (start {} 1000) (burst 1060) (fun r =>
      decide (r.commits .ascii {} = [⟨false, 1060⟩, ⟨true, 1000⟩] ∧
        ∀ c ∈ r.calls, c.1.WaitsOut {} c.2)) = true := by
    decide +kernel
  obtain ⟨r, reached, good⟩ := exists_reaches_of_execHolds _ _ holds
  obtain ⟨commits, waits⟩ := of_decide_eq_true good
  exact ⟨r, reached, commits, (no_flap_iff reached).mpr waits⟩

/-- A service that has been up for a while starts two replicas for a burst, and stops them a
second later. -/
theorem burst_flaps :
    ∃ r, Reaches (step .ascii {}) Always (start {} 1000) r ∧
      r.commits .ascii {} = [⟨false, 1001⟩, ⟨true, 1000⟩] ∧ ¬NoFlap {} (r.commits .ascii {}) := by
  have holds : execHolds (step .ascii {}) Always (start {} 1000) (burst 1001)
      (fun r => decide (r.commits .ascii {} = [⟨false, 1001⟩, ⟨true, 1000⟩])) = true := by
    decide +kernel
  obtain ⟨r, reached, good⟩ := exists_reaches_of_execHolds _ _ holds
  have commits := of_decide_eq_true good
  refine ⟨r, reached, commits, ?_⟩
  rw [commits, NoFlap, List.pairwise_pair]
  intro clear
  exact absurd (clear rfl) (by decide +kernel)

end ScalerRun

/-! ### Bounds -/

/-- A count, clamped to the bounds. -/
def Settings.clampReplicas (s : Settings) (n : ℤ) : ℤ := max s.minReplicas (min n s.maxReplicas)

namespace Autoscaler

variable {s : Settings} {a : Autoscaler} {t : Tick}

/-- For a count of requests, the wanted count is the quotient, rounded up and clamped. -/
theorem rawDesired_eq (target : 0 < s.targetConcurrencyPerReplica) {load : LoadSample}
    (counts : 0 ≤ load.total ∨ 0 ≤ s.minReplicas) :
    rawDesired s load =
      some (s.clampReplicas ⌈(load.total : ℚ) / s.targetConcurrencyPerReplica⌉) := by
  unfold rawDesired Settings.clampReplicas
  rcases lt_trichotomy load.total 0 with negative | zero | positive
  · have floor := counts.resolve_left (not_le.mpr negative)
    have below : ⌈(load.total : ℚ) / s.targetConcurrencyPerReplica⌉ ≤ 0 := by
      rw [Int.ceil_le, Int.cast_zero]
      exact div_nonpos_of_nonpos_of_nonneg (Int.cast_nonpos.mpr negative.le) target.le
    have low := min_le_left (0 : ℤ) s.maxReplicas
    have low' := min_le_left ⌈(load.total : ℚ) / s.targetConcurrencyPerReplica⌉ s.maxReplicas
    have same : max s.minReplicas (min 0 s.maxReplicas) = max s.minReplicas
        (min ⌈(load.total : ℚ) / s.targetConcurrencyPerReplica⌉ s.maxReplicas) := by
      rw [max_eq_left (low.trans floor), max_eq_left (low'.trans (below.trans floor))]
    rw [if_pos negative.le]
    exact congrArg some same
  · simp [zero]
  · simp [not_le.mpr positive, target.ne']

/-- The decision is about the count before, and says the count after. -/
theorem count_of_step {ts : TextSupport} {d : ScaleDecision} {a' : Autoscaler} {load : LoadSample}
    {now later : ℚ} (stepped : a.step ts s load now later = some (d, a')) :
    d.currentReplicas = a.current ∧ d.desiredReplicas = a'.current := by
  unfold step Autoscaler.decide at stepped
  cases wanted : rawDesired s load with
  | none => simp [wanted] at stepped
  | some desired =>
      simp only [wanted, Option.map_some, Option.some.injEq, Prod.mk.injEq] at stepped
      obtain ⟨rfl, rfl⟩ := stepped
      unfold apply ScaleDecision.changed
      split_ifs <;> simp_all

/-- A call that is not held back leaves the wanted count. -/
theorem step_of_wanted (ts : TextSupport) (a : Autoscaler) {desired : ℤ}
    (wanted : rawDesired s t.load = some desired) :
    ∃ d, a.step ts s t.load t.now t.later = some (d, a.after ts s t) ∧
      (d.suppressed = false → (a.after ts s t).current = desired) := by
  unfold after step Autoscaler.decide
  rw [wanted]
  simp only [Option.map_some, Option.some.injEq, Prod.mk.injEq, and_true, exists_eq_left']
  split_ifs with more cooled fewer cooled
  · simp [apply, ScaleDecision.changed, more, more.ne']
  · simp [ScaleDecision.suppressed]
  · simp [apply, ScaleDecision.changed, more, fewer.ne]
  · simp [ScaleDecision.suppressed]
  · intro _
    simpa [apply, ScaleDecision.changed] using le_antisymm (not_lt.mp fewer) (not_lt.mp more)

end Autoscaler

namespace ScalerRun

variable {ts : TextSupport} {s : Settings} {clock : ℚ} {r : ScalerRun}

theorem spaced_of_reaches (reached : Reaches (step ts s) Always (start s clock) r) :
    Spaced s (r.commits ts s) := by
  apply reached.invariant_of
  · simp [Spaced, commits, start]
  · intro r t r' before spaced _ stepped
    have commits := commits_step stepped
    obtain ⟨-, later, rfl⟩ := step_eq_some stepped
    rw [Spaced, commits, pairwise_step]
    exact ⟨(stamped_of_reaches before).spaced later (r.scaler.moves ts s t), spaced⟩

theorem current_le_max (bounds : s.minReplicas ≤ s.maxReplicas)
    (reached : Reaches (step ts s) Always (start s clock) r) :
    r.scaler.current ≤ s.maxReplicas := by
  apply reached.invariant (I := fun r => r.scaler.current ≤ s.maxReplicas) bounds
  intro r t r' below _ stepped
  obtain ⟨-, -, rfl⟩ := step_eq_some stepped
  rcases (r.scaler.moves ts s t).current with same | wanted
  · exact same.le.trans below
  · exact rawDesired_le_max bounds wanted

/-- The count stays in its bounds and the commits of a direction keep their distance; a call that
no cooldown holds back leaves the load's quotient, rounded up and clamped. -/
theorem replicas_bounded (bounds : s.minReplicas ≤ s.maxReplicas)
    (target : 0 < s.targetConcurrencyPerReplica)
    (reached : Reaches (step ts s) Always (start s clock) r) :
    (s.minReplicas ≤ r.scaler.current ∧ r.scaler.current ≤ s.maxReplicas) ∧
      Spaced s (r.commits ts s) ∧
      ∀ t : Tick, 0 ≤ t.load.total ∨ 0 ≤ s.minReplicas →
        ∃ d, r.scaler.step ts s t.load t.now t.later = some (d, r.scaler.after ts s t) ∧
          (d.suppressed = false → (r.scaler.after ts s t).current =
            s.clampReplicas ⌈(t.load.total : ℚ) / s.targetConcurrencyPerReplica⌉) :=
  ⟨⟨(stamped_of_reaches reached).floor, current_le_max bounds reached⟩, spaced_of_reaches reached,
    fun _ counts => r.scaler.step_of_wanted ts (Autoscaler.rawDesired_eq target counts)⟩

theorem replicas_bounded_after_burst :
    ∃ r, Reaches (step .ascii {}) Always (start {} 1000) r ∧ r.commits .ascii {} ≠ [] ∧
      (1 ≤ r.scaler.current ∧ r.scaler.current ≤ 20) ∧ Spaced {} (r.commits .ascii {}) := by
  have holds : execHolds (step .ascii {}) Always (start {} 1000) (burst 1060)
      (fun r => decide (r.commits .ascii {} ≠ [])) = true := by
    decide +kernel
  obtain ⟨r, reached, good⟩ := exists_reaches_of_execHolds _ _ holds
  obtain ⟨within, spaced, -⟩ := replicas_bounded (by decide) (by decide +kernel) reached
  exact ⟨r, reached, of_decide_eq_true good, within, spaced⟩

end ScalerRun

end LLMInference
