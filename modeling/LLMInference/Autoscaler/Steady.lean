import LLMInference.Autoscaler.Cooldowns

/-!
The autoscaler under a load that stays (`app/autoscaler.py`).

* `Moves.toward`: one call brings the count to what the load needs, or leaves all as it was.
* `Settling.step`: the step lemma.
* `steady_load_settles`: from any state, however often it is called, it changes the count once at
  most. It is where the load needs it as soon as one call comes after the cooldown.
-/

namespace LLMInference

open Runs

/-- The count a load needs. -/
def neededFor (s : Settings) (load : ℤ) : ℤ :=
  s.clampReplicas ⌈(load : ℚ) / s.targetConcurrencyPerReplica⌉

/-- The direction from a count to the one a load needs. -/
def Autoscaler.direction (s : Settings) (load : ℤ) (a : Autoscaler) : Bool :=
  Decidable.decide (a.current < neededFor s load)

namespace ScalerRun

/-- Every call finds this load. -/
def Loaded (load : ℤ) (_ : ScalerRun) (t : Tick) : Prop := t.load.total = load

instance (load : ℤ) (r : ScalerRun) (t : Tick) : Decidable (Loaded load r t) :=
  inferInstanceAs (Decidable (_ = _))

section Steps

variable {ts : TextSupport} {s : Settings} {load : ℤ} {a a' : Autoscaler} {t : Tick}
  {c : Option Commit} {r r₀ r' : ScalerRun}

theorem beyond_of_ne (other : a.current ≠ neededFor s load) :
    Beyond (a.direction s load) a.current (neededFor s load) := by
  rcases lt_or_gt_of_ne other with more | fewer
  · rw [Autoscaler.direction, decide_eq_true more]
    exact more
  · rw [Autoscaler.direction, decide_eq_false (not_lt.mpr (le_of_lt fewer))]
    exact fewer

/-- A call under the load brings the count to what it needs, in one commit, or does nothing; and
then the count is what it needs already, or the call is too early. -/
theorem Moves.toward (target : 0 < s.targetConcurrencyPerReplica) (counts : 0 ≤ load)
    (loaded : t.load.total = load) (moves : Autoscaler.Moves s a t c a') :
    (a'.current = neededFor s load ∧ a.current ≠ neededFor s load) ∨
      (a' = a ∧ c = none ∧ (a.current = neededFor s load ∨
        t.now - a.stamp (a.direction s load) < s.cooldown (a.direction s load))) := by
  have wanted : Autoscaler.rawDesired s t.load = some (neededFor s load) := by
    rw [Autoscaler.rawDesired_eq target (.inl (loaded ▸ counts)), loaded]
    rfl
  cases moves with
  | @commits up desired _ there beyond cooled count =>
      cases wanted.symm.trans there
      refine .inl ⟨count, ?_⟩
      cases up with
      | true => exact ne_of_lt beyond
      | false => exact ne_of_gt beyond
  | stays held =>
      refine .inr ⟨rfl, rfl, ?_⟩
      by_cases there : a.current = neededFor s load
      · exact .inl there
      · exact .inr (held _ _ wanted (beyond_of_ne there))

/-- What the calls since `r₀` have done: the count is what the load needs after one commit at most,
or nothing has changed and all of them were too early. -/
def Settling (ts : TextSupport) (s : Settings) (load : ℤ) (r₀ r : ScalerRun) : Prop :=
  ∃ since, r.calls = since ++ r₀.calls ∧
    ((r.scaler.current = neededFor s load ∧
        (since.filterMap fun c => c.1.commitOf ts s c.2).length ≤ 1) ∨
      (r.scaler = r₀.scaler ∧ (since.filterMap fun c => c.1.commitOf ts s c.2) = [] ∧
        ∀ c ∈ since, c.2.now - r₀.scaler.stamp (r₀.scaler.direction s load) <
          s.cooldown (r₀.scaler.direction s load)))

theorem Settling.step (target : 0 < s.targetConcurrencyPerReplica) (counts : 0 ≤ load)
    (settling : Settling ts s load r₀ r) (loaded : Loaded load r t)
    (stepped : r.step ts s t = some r') : Settling ts s load r₀ r' := by
  obtain ⟨since, calls, state⟩ := settling
  obtain ⟨-, -, rfl⟩ := step_eq_some stepped
  refine ⟨(r.scaler, t) :: since, congrArg _ calls, ?_⟩
  rw [List.filterMap_cons]
  have moves := r.scaler.moves ts s t
  rcases Moves.toward target counts loaded moves with ⟨arrived, away⟩ | ⟨still, none, early⟩
  · -- The one commit: there was none before it, since the count was not there yet.
    refine .inl ⟨arrived, ?_⟩
    rcases state with ⟨there, -⟩ | ⟨-, quiet, -⟩
    · exact absurd there away
    · simp only [quiet]
      split <;> simp
  · simp only [none]
    rcases state with ⟨there, once⟩ | ⟨same, quiet, before⟩
    · exact .inl ⟨(congrArg Autoscaler.current still).trans there, once⟩
    · rcases early with there | early
      · exact .inl ⟨(congrArg Autoscaler.current still).trans there, by rw [quiet]; simp⟩
      · refine .inr ⟨still.trans same, quiet, List.forall_mem_cons.mpr ⟨?_, before⟩⟩
        rwa [same] at early

/-- From any state, and as long as every call finds the same load: the calls change the count once
at most, and after one that comes when the cooldown of the way to go is over, the count is what
the load needs. -/
theorem steady_load_settles (target : 0 < s.targetConcurrencyPerReplica) (counts : 0 ≤ load)
    (run : Reaches (ScalerRun.step ts s) (Loaded load) r r') :
    ∃ since, r'.calls = since ++ r.calls ∧
      (since.filterMap fun c => c.1.commitOf ts s c.2).length ≤ 1 ∧
      ((∃ c ∈ since, s.cooldown (r.scaler.direction s load) ≤
          c.2.now - r.scaler.stamp (r.scaler.direction s load)) →
        r'.scaler.current = neededFor s load) := by
  have settling : Settling ts s load r r' := by
    apply run.invariant
    · exact ⟨[], rfl, .inr ⟨rfl, rfl, List.forall_mem_nil _⟩⟩
    · intro r₁ t r₂ settling loaded stepped
      exact settling.step target counts loaded stepped
  obtain ⟨since, calls, state⟩ := settling
  refine ⟨since, calls, ?_, ?_⟩
  · rcases state with ⟨-, once⟩ | ⟨-, quiet, -⟩
    · exact once
    · rw [quiet]
      exact Nat.zero_le _
  · rintro ⟨c, mem, cooled⟩
    rcases state with ⟨there, -⟩ | ⟨-, -, early⟩
    · exact there
    · exact absurd cooled (not_le.mpr (early c mem))

end Steps

/-- Twelve requests that stay: three replicas from the first call on. -/
theorem steady_load_settles_twelve :
    ∃ r, Reaches (ScalerRun.step .ascii {}) (Loaded 12) (start {} 1000) r ∧ r.calls.length = 2 ∧
      r.scaler.current = neededFor {} 12 := by
  have holds : execHolds (ScalerRun.step .ascii {}) (Loaded 12) (start {} 1000)
      [⟨⟨12, 0⟩, 1000, 1000⟩, ⟨⟨8, 4⟩, 1001, 1001⟩] (fun r => decide (r.calls.length = 2 ∧
        ∃ c ∈ r.calls, 10 ≤ c.2.now)) = true := by
    decide +kernel
  obtain ⟨r, run, both⟩ := exists_reaches_of_execHolds _ _ holds
  obtain ⟨two, c, mem, late⟩ := of_decide_eq_true both
  have target : 0 < ({} : Settings).targetConcurrencyPerReplica := by decide +kernel
  obtain ⟨since, calls, -, settles⟩ := steady_load_settles target (by decide) run
  have direction : (start {} 1000).scaler.direction {} 12 = true := by decide +kernel
  refine ⟨r, run, two, settles ⟨c, ?_, ?_⟩⟩
  · rwa [calls, show (start {} 1000).calls = [] from rfl, List.append_nil] at mem
  · rw [direction]
    exact late.trans_eq (sub_zero _).symm

end ScalerRun

end LLMInference
