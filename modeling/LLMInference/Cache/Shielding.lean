import LLMInference.Cache.SingleFlight

/-!
Whom a cancellation hurts in `SingleFlight.run` (`app/cache.py`).

The class shields the followers: one that gives up does not cancel the work the others wait for.
The first caller awaits the task itself, so its cancellation stops the work for everybody.

* `Considerate`: the steps that stop no execution for others.
* `OnCourse`: in a run of such steps, the execution a caller waits for has not been stopped or
  has produced what it was to.
* `unhurt_iff_considerate`: a considerate step hurts nobody in such a run, and every other step can
  be continued to where a caller that was never cancelled has been given something else.
-/

namespace LLMInference

open Runs

namespace SingleFlight

variable {α : Type}

namespace World

/-- Nobody's execution is stopped: a first caller is cancelled after its execution, or when no other
still waits for it, and none joins an execution that has been asked to stop, unless it has
produced what it was to. -/
def Considerate (w : World α) : Act α → Prop
  | .run key _ => ∀ e ∈ w.inflight.lookup key, ∀ x ∈ w.executions[e]?,
      x.cancelled = true → x.outcome = some x.due
  | .cancel i => ∀ c ∈ w.callers[i]?, ∀ x ∈ w.executions[c.awaits]?,
      x.leader = i → x.outcome.isNone = true → ∀ j < w.callers.length, j ≠ i →
        ∀ d ∈ w.callers[j]?, d.awaits = c.awaits → d.result.isNone = true → d.cancelled = true
  | _ => True

instance [DecidableEq α] (w : World α) (a : Act α) : Decidable (w.Considerate a) :=
  match a with
  | .run _ _ | .cancel _ => by
      unfold Considerate
      infer_instance
  | .finish _ | .divert _ _ | .resume _ => inferInstanceAs (Decidable True)

/-- Every caller that is not cancelled is given what the execution it joined was to produce. -/
structure Unhurt (w : World α) : Prop where
  returned : ∀ c ∈ w.callers, c.cancelled = false → ∀ r, c.result = some r →
    w.executions[c.awaits]?.map (·.due) = some r
  /-- One that waits will be resumed with it, as soon as the execution is over. -/
  waiting : ∀ c ∈ w.callers, c.cancelled = false → c.result = none →
    ∃ x, w.executions[c.awaits]? = some x ∧ (x.outcome = none ∨ c.wake x = some x.due)

end World

/-- The execution has produced what it was to, or nothing keeps it from that. -/
def Execution.Reliable (x : Execution α) : Prop :=
  x.outcome = some x.due ∨ x.outcome = none ∧ x.cancelled = false

namespace World

/-- The caller relies on a reliable execution. -/
structure Relies (executions : List (Execution α)) (c : Caller α) : Prop where
  free : c.mustCancel = false
  execution : ∃ x, executions[c.awaits]? = some x ∧ x.Reliable ∧
    ∀ r, c.result = some r → x.outcome = some r

structure OnCourse (w : World α) : Prop where
  natural : ∀ x ∈ w.executions, x.cancelled = false → x.Reliable
  relies : ∀ c ∈ w.callers, c.cancelled = false → Relies w.executions c

section Considerate

variable {w w' : World α} {a : Act α} {e i j : ℕ} {c d : Caller α} {x : Execution α}

theorem OnCourse.unhurt (course : w.OnCourse) : w.Unhurt where
  returned := by
    intro c mem uncancelled r result
    obtain ⟨-, x, runs, reliable, produced⟩ := course.relies c mem uncancelled
    rw [runs, Option.map_some]
    have outcome := produced r result
    rcases reliable with due | ⟨unfinished, -⟩
    · exact due.symm.trans outcome
    · cases unfinished.symm.trans outcome
  waiting := by
    intro c mem uncancelled waits
    obtain ⟨free, x, runs, reliable, -⟩ := course.relies c mem uncancelled
    refine ⟨x, runs, ?_⟩
    rcases reliable with due | ⟨unfinished, -⟩
    · exact .inr ((Caller.wake_of_free free x).trans due)
    · exact .inl unfinished

/-- A caller relies on its execution when others change. -/
theorem Relies.set {executions : List (Execution α)} (relies : Relies executions c)
    (y : Execution α) (other : c.awaits ≠ e) : Relies (executions.set e y) c := by
  obtain ⟨free, x, runs, rest⟩ := relies
  exact ⟨free, x, (List.getElem?_set_ne other.symm).trans runs, rest⟩

theorem Relies.spawn {executions : List (Execution α)} (relies : Relies executions c)
    (y : Execution α) : Relies (executions ++ [y]) c := by
  obtain ⟨free, x, runs, rest⟩ := relies
  exact ⟨free, x, Pool.get_old runs _, rest⟩

theorem OnCourse.start : ({} : World α).OnCourse where
  natural := fun _ mem => by cases mem
  relies := fun _ mem => by cases mem

/-- The callers after one of them has changed. -/
theorem mem_callers_set {callers : List (Caller α)} (mem : d ∈ callers.set i c) :
    d = c ∨ ∃ j, j ≠ i ∧ callers[j]? = some d := by
  obtain ⟨j, found⟩ := List.mem_iff_getElem?.mp mem
  rcases Pool.get_set found with ⟨-, new⟩ | ⟨ne, old⟩
  · exact .inl new
  · exact .inr ⟨j, ne, old⟩

theorem OnCourse.join (course : w.OnCourse) (runs : w.executions[e]? = some x)
    (meant : x.cancelled = true → x.outcome = some x.due) : (w.join e x).OnCourse where
  natural := course.natural
  relies := by
    intro d mem uncancelled
    rcases List.mem_append.mp mem with old | new
    · exact course.relies d old uncancelled
    · cases List.mem_singleton.mp new
      refine ⟨rfl, x, runs, ?_, fun _ produced => produced⟩
      cases asked : x.cancelled with
      | true => exact .inl (meant asked)
      | false => exact course.natural x (List.mem_of_getElem? runs) asked

theorem OnCourse.launch (course : w.OnCourse) (key : String) (due : Except PyError α) :
    (w.launch key due).OnCourse where
  natural := by
    intro y mem left
    rcases List.mem_append.mp mem with old | new
    · exact course.natural y old left
    · rw [List.mem_singleton.mp new]
      exact .inr ⟨rfl, rfl⟩
  relies := by
    intro d mem uncancelled
    rcases List.mem_append.mp mem with old | new
    · exact (course.relies d old uncancelled).spawn _
    · cases List.mem_singleton.mp new
      refine ⟨rfl, _, List.getElem?_concat_length, .inr ⟨rfl, rfl⟩, fun r result => ?_⟩
      cases result

/-- A caller who relies on an unfinished execution has not returned, and it has not been asked
to stop. -/
theorem Relies.of_unfinished (relies : Relies w.executions c)
    (runs : w.executions[c.awaits]? = some x) (unfinished : x.outcome = none) :
    c.result = none ∧ x.cancelled = false := by
  obtain ⟨-, y, runs', reliable, produced⟩ := relies
  cases runs.symm.trans runs'
  refine ⟨?_, ?_⟩
  · cases result : c.result with
    | none => rfl
    | some r => cases unfinished.symm.trans (produced r result)
  · rcases reliable with due | ⟨-, left⟩
    · cases unfinished.symm.trans due
    · exact left

theorem OnCourse.settle (course : w.OnCourse) (runs : w.executions[e]? = some x)
    (unfinished : x.outcome = none) {outcome : Except PyError α}
    (meant : x.cancelled = false → outcome = x.due) : (w.settle e x outcome).OnCourse where
  natural := by
    intro y mem left
    rcases List.mem_or_eq_of_mem_set mem with old | rfl
    · exact course.natural y old left
    · exact .inl (congrArg some (meant left))
  relies := by
    intro d mem uncancelled
    have relies := course.relies d mem uncancelled
    rcases eq_or_ne d.awaits e with rfl | other
    · obtain ⟨waits, left⟩ := relies.of_unfinished runs unfinished
      refine ⟨relies.free, _, Pool.get_set_self runs _, .inl (congrArg some (meant left)), ?_⟩
      intro r result
      cases waits.symm.trans result
    · exact relies.set _ other

theorem OnCourse.passOn (course : w.OnCourse) (runs : w.executions[c.awaits]? = some x)
    (unfinished : x.outcome = none) (alone : ∀ j d, j ≠ i → w.callers[j]? = some d →
      d.awaits = c.awaits → d.result = none → d.cancelled = true) : (w.passOn i c x).OnCourse where
  natural := by
    intro y mem left
    rcases List.mem_or_eq_of_mem_set mem with old | rfl
    · exact course.natural y old left
    · cases left
  relies := by
    intro d mem uncancelled
    rcases mem_callers_set mem with rfl | ⟨j, ne, there⟩
    · cases uncancelled
    · have relies := course.relies d (List.mem_of_getElem? there) uncancelled
      rcases eq_or_ne d.awaits c.awaits with same | other
      · obtain ⟨waits, -⟩ := relies.of_unfinished (same ▸ runs) unfinished
        cases uncancelled.symm.trans (alone j d ne there same waits)
      · exact relies.set _ other

theorem OnCourse.interrupt (course : w.OnCourse) : (w.interrupt i c).OnCourse where
  natural := course.natural
  relies := by
    intro d mem uncancelled
    rcases List.mem_or_eq_of_mem_set mem with old | rfl
    · exact course.relies d old uncancelled
    · cases uncancelled

theorem OnCourse.leave (course : w.OnCourse) (here : w.callers[i]? = some c)
    (runs : w.executions[c.awaits]? = some x) {r : Except PyError α} (woken : c.wake x = some r) :
    (w.leave i c x r).OnCourse where
  natural := course.natural
  relies := by
    intro d mem uncancelled
    rcases List.mem_or_eq_of_mem_set mem with old | rfl
    · exact course.relies d old uncancelled
    · obtain ⟨free, y, runs', reliable, -⟩ :=
        course.relies c (List.mem_of_getElem? here) uncancelled
      cases runs.symm.trans runs'
      rw [Caller.wake_of_free free] at woken
      exact ⟨free, x, runs, reliable, fun _ result => woken.trans result⟩

/-- A considerate step keeps every uncancelled caller's execution on its course. -/
theorem OnCourse.step (course : w.OnCourse) (considerate : w.Considerate a)
    (stepped : w.step a = some w') : w'.OnCourse := by
  cases trans_of_step stepped with
  | joins entry runs => exact course.join runs (considerate _ entry _ runs)
  | launches _ => exact course.launch ..
  | finishes runs unfinished => exact course.settle runs unfinished fun _ => rfl
  | diverts runs unfinished asked =>
      refine course.settle runs unfinished fun left => ?_
      cases asked.symm.trans left
  | passesOn here runs _ leads unfinished =>
      refine course.passOn runs unfinished fun j d ne there same waits => ?_
      exact considerate _ here _ runs leads (Option.isNone_iff_eq_none.mpr unfinished) j
        (List.getElem?_eq_some_iff.mp there).1 ne d there same (Option.isNone_iff_eq_none.mpr waits)
  | interrupts _ _ _ _ => exact course.interrupt
  | returns here runs _ woken => exact course.leave here runs woken

theorem onCourse_of_reaches (reached : Reaches step Considerate ({} : World α) w) : w.OnCourse :=
  reached.invariant .start fun _ _ _ course considerate stepped => course.step considerate stepped

/-! ### What an execution does that has been asked to stop -/

/-- A factory can fail in more than one way. -/
theorem exists_ne_due (due : Except PyError α) : ∃ outcome : Except PyError α, outcome ≠ due := by
  by_cases through : due = .error cancelledError
  · refine ⟨.error ⟨"RuntimeError", ""⟩, ?_⟩
    rw [through]
    simp [cancelledError]
  · exact ⟨.error cancelledError, fun same => through same.symm⟩

/-- A caller that waits for an execution that has been asked to stop may be given anything. -/
theorem hurt_of_asked (here : w.callers[j]? = some d) (runs : w.executions[d.awaits]? = some x)
    (unfinished : x.outcome = none) (asked : x.cancelled = true) (waits : d.result = none)
    (uncancelled : d.cancelled = false) (free : d.mustCancel = false) :
    ∃ w', Reaches step Considerate w w' ∧ ¬ w'.Unhurt := by
  obtain ⟨outcome, other⟩ := exists_ne_due x.due
  have runs' := Pool.get_set_self runs { x with outcome := some outcome }
  have diverts : w.step (.divert d.awaits outcome) = some (w.settle d.awaits x outcome) := by
    simp [World.step, runs, unfinished, asked]
  have resumes : (w.settle d.awaits x outcome).step (.resume j) = some
      ((w.settle d.awaits x outcome).leave j d { x with outcome := some outcome } outcome) := by
    simp [World.step, settle, here, runs', waits, Caller.wake_of_free free]
  have diverted : Reaches step Considerate w (w.settle d.awaits x outcome) :=
    Reaches.refl.tail (a := .divert d.awaits outcome) trivial diverts
  refine ⟨_, diverted.tail (a := .resume j) trivial resumes, fun unhurt => other ?_⟩
  have given := unhurt.returned _ (List.mem_of_getElem? (Pool.get_set_self here _)) uncancelled
    outcome rfl
  rw [leave, settle, runs', Option.map_some] at given
  exact (Option.some.inj given).symm

/-- A step that is not considerate can be continued to a caller that is hurt. -/
theorem hurt_of_inconsiderate (course : w.OnCourse) (stepped : w.step a = some w')
    (inconsiderate : ¬ w.Considerate a) : ∃ v, Reaches step Considerate w' v ∧ ¬ v.Unhurt := by
  cases trans_of_step stepped with
  | joins entry runs =>
      rename_i key due e x
      have stopped : x.cancelled = true ∧ x.outcome ≠ some x.due := by
        by_contra fine
        refine inconsiderate fun e' entry' x' runs' asked => ?_
        cases entry.symm.trans entry'
        cases runs.symm.trans runs'
        by_contra diverted
        exact fine ⟨asked, diverted⟩
      cases outcome : x.outcome with
      | none =>
          exact hurt_of_asked (j := w.callers.length) List.getElem?_concat_length runs outcome
            stopped.1 outcome rfl rfl
      | some r =>
          refine ⟨_, .refl, fun unhurt => stopped.2 ?_⟩
          have given := unhurt.returned _ (List.mem_append_right _ (List.mem_singleton_self _)) rfl
            r outcome
          rw [World.join, runs, Option.map_some] at given
          rw [outcome, given]
  | launches absent =>
      refine absurd (fun e entry => ?_) inconsiderate
      cases absent.symm.trans entry
  | passesOn here runs waits leads unfinished =>
      rename_i i c x
      have shared : ∃ j d, j ≠ i ∧ w.callers[j]? = some d ∧ d.awaits = c.awaits ∧
          d.result = none ∧ d.cancelled = false := by
        by_contra alone
        refine inconsiderate fun c' here' x' runs' _ _ j _ ne d there same waits => ?_
        cases here.symm.trans here'
        by_contra uncancelled
        exact alone ⟨j, d, ne, there, same, Option.isNone_iff_eq_none.mp waits,
          Bool.not_eq_true _ ▸ uncancelled⟩
      obtain ⟨j, d, ne, there, same, waits', uncancelled⟩ := shared
      have free := (course.relies d (List.mem_of_getElem? there) uncancelled).free
      refine hurt_of_asked (j := j) (d := d) (x := { x with cancelled := true })
        ((List.getElem?_set_ne ne.symm).trans there) ?_ unfinished rfl waits' uncancelled free
      rw [same]
      exact Pool.get_set_self runs _
  | interrupts here runs waits apart =>
      refine absurd (fun c' here' x' runs' leads unfinished => ?_) inconsiderate
      cases here.symm.trans here'
      cases runs.symm.trans runs'
      have ended := apart leads
      rw [Option.isNone_iff_eq_none.mp unfinished] at ended
      cases ended
  | finishes _ _ | diverts _ _ _ | returns _ _ _ _ => exact absurd trivial inconsiderate

/-- In a run of considerate steps every caller that is not cancelled is given what the execution it
joined was to produce; and a step keeps it so, whatever considerate steps follow, if and only if it
is considerate. -/
theorem unhurt_iff_considerate (reached : Reaches step Considerate ({} : World α) w) :
    w.Unhurt ∧ ∀ a w', w.step a = some w' →
      (w.Considerate a ↔ ∀ v, Reaches step Considerate w' v → v.Unhurt) := by
  refine ⟨(onCourse_of_reaches reached).unhurt, fun a w' stepped => ⟨?_, ?_⟩⟩
  · intro considerate v later
    exact (onCourse_of_reaches ((reached.tail considerate stepped).trans later)).unhurt
  · intro unhurt
    by_contra inconsiderate
    obtain ⟨v, later, hurt⟩ :=
      hurt_of_inconsiderate (onCourse_of_reaches reached) stepped inconsiderate
    exact hurt (unhurt v later)

end Considerate

/-! ### A first caller that gives up -/

/-- Two callers want the same, and the first is cancelled. -/
def leaderActs : List (Act ℕ) :=
  [.run "k" (.ok 1), .run "k" (.ok 2), .cancel 0, .divert 0 (.error cancelledError), .resume 1]

/-- The second is not, and is given `CancelledError`. -/
theorem leader_cancels_follower :
    ∃ w : World ℕ, Reaches step Always {} w ∧ ¬ w.Unhurt ∧
      ∃ c, w.callers[1]? = some c ∧ c.cancelled = false ∧
        c.result = some (.error cancelledError) := by
  have holds : execHolds step Always ({} : World ℕ) leaderActs (fun w =>
      w.callers[1]?.any fun c => decide (c.cancelled = false ∧
        c.result = some (.error cancelledError) ∧
        w.executions[c.awaits]?.map (·.due) = some (.ok 1))) = true := by
    decide +kernel
  obtain ⟨w, reached, good⟩ := exists_reaches_of_execHolds _ _ holds
  obtain ⟨c, here, good⟩ := (Option.any_eq_true ..).mp good
  obtain ⟨uncancelled, result, due⟩ := of_decide_eq_true good
  refine ⟨w, reached, fun unhurt => ?_, c, here, uncancelled, result⟩
  have given := unhurt.returned c (List.mem_of_getElem? here) uncancelled _ result
  rw [due] at given
  cases given

/-- Of three callers a follower is cancelled while they wait, and the first when the work is
done. -/
def followerActs : List (Act ℕ) :=
  [.run "k" (.ok 1), .run "k" (.ok 2), .run "k" (.ok 3), .cancel 1, .resume 1, .finish 0, .cancel 0,
    .resume 0, .resume 2]

/-- The third is given the value. -/
theorem unhurt_iff_considerate_follower :
    ∃ w : World ℕ, Reaches step Considerate {} w ∧ w.Unhurt ∧
      ∃ c, w.callers[2]? = some c ∧ c.cancelled = false ∧ c.result = some (.ok 1) := by
  have holds : execHolds step Considerate ({} : World ℕ) followerActs (fun w =>
      w.callers[2]?.any fun c =>
        decide (c.cancelled = false ∧ c.result = some (.ok 1))) = true := by
    decide +kernel
  obtain ⟨w, reached, good⟩ := exists_reaches_of_execHolds _ _ holds
  obtain ⟨c, here, good⟩ := (Option.any_eq_true ..).mp good
  obtain ⟨uncancelled, result⟩ := of_decide_eq_true good
  exact ⟨w, reached, (unhurt_iff_considerate reached).1, c, here, uncancelled, result⟩

end World

end SingleFlight

end LLMInference
