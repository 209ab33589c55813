import LLMInference.Lib.Pool
import LLMInference.Lib.Runs
import LLMInference.Failover.Loop

/-!
Pools of failover calls over one registry of breakers, and who reports on a probe.

`FailoverPool` interleaves any number of calls. A half-open breaker admits nobody until
the probe it admitted is reported on, and only the calls in the pool report.

* `ProbesHeld`: every breaker waiting for a probe has a call outstanding on its model.
  Steps that meet `Reported` preserve it.
* `breaker_never_wedged`: in a run of such steps, a pool without outstanding calls has
  only breakers that admit a call at some later time.
* `silent_end_sticks`, `stuck_forever`: the condition is exact. A step that fails it
  leaves its model's breaker waiting with nobody to report, and no later step of any run
  changes that.
-/

namespace LLMInference

/-- Any number of calls over one registry. -/
structure FailoverPool where
  now : ℚ
  breakers : BreakerRegistry
  metrics : Metrics
  calls : List CallPhase

/-- One scheduling decision. -/
inductive FailoverAct where
  /-- A new call. -/
  | start (req : RouteRequest) (decision : RoutingDecision)
  /-- The breakers' clock reads `t`. -/
  | clock (t : ℚ)
  /-- Call `i` makes a pass. -/
  | attempt (i : ℕ)
  /-- The provider answers call `i`. -/
  | outcome (i : ℕ) (o : GenerateOutcome)
  /-- Call `i` is cancelled at its await. -/
  | cancel (i : ℕ)

/-- The step ends no call in silence. -/
def FailoverAct.loud : FailoverAct → Bool
  | .outcome _ (.failure f) => f.serverFault
  | .cancel _ => false
  | _ => true

namespace FailoverPool

def init (failureThreshold : ℤ) (recoveryTimeoutS : ℚ) : FailoverPool :=
  { now := 0, breakers := .fresh failureThreshold recoveryTimeoutS, metrics := {}, calls := [] }

/-- Call `i` takes a step of its own. -/
def update (p : FailoverPool) (i : ℕ) (out : BreakerRegistry × CallPhase × Metrics) :
    FailoverPool :=
  { p with breakers := out.1, calls := p.calls.set i out.2.1, metrics := out.2.2 }

def step (ts : TextSupport) (s : Settings) (p : FailoverPool) : FailoverAct → Option FailoverPool
  | .start req decision =>
      some { p with calls := p.calls ++ [.attempting (.start req decision)] }
  | .clock t => some { p with now := t }
  | .attempt i =>
      match p.calls[i]? with
      | some (.attempting c) => some (p.update i (c.attempt ts s p.now p.breakers p.metrics))
      | _ => none
  | .outcome i o =>
      match p.calls[i]? with
      | some (.generating c) => some (p.update i (c.onOutcome ts s p.now o p.breakers p.metrics))
      | _ => none
  | .cancel i =>
      match p.calls[i]? with
      | some (.generating _) => some { p with calls := p.calls.set i .cancelled }
      | _ => none

/-- A `provider.generate` call on the model is outstanding. -/
def Outstanding (p : FailoverPool) (name : String) : Prop :=
  ∃ (i : ℕ) (c : FailoverCall), p.calls[i]? = some (.generating c) ∧ c.target = name

/-- Another call than `i` is outstanding on the model. -/
def OutstandingBut (p : FailoverPool) (i : ℕ) (name : String) : Prop :=
  ∃ (j : ℕ) (c : FailoverCall),
    j ≠ i ∧ p.calls[j]? = some (.generating c) ∧ c.target = name

/-- Call `i` may end without a report: its model's breaker is not waiting for a probe,
or another outstanding call on the model can still report. -/
def MayStaySilent (p : FailoverPool) (i : ℕ) : Prop :=
  ∀ c, p.calls[i]? = some (.generating c) → (p.breakers.get c.target).Probing →
    p.OutstandingBut i c.target

/-- The run condition: no probe ends without anybody left to report on it. -/
def Reported (p : FailoverPool) : FailoverAct → Prop
  | .outcome i (.failure f) => f.serverFault = false → p.MayStaySilent i
  | .cancel i => p.MayStaySilent i
  | _ => True

section Probes

variable {ts : TextSupport} {s : Settings} {p p' : FailoverPool}

/-- Every breaker that waits for a probe has a call outstanding. -/
def ProbesHeld (p : FailoverPool) : Prop :=
  ∀ name, (p.breakers.get name).Probing → p.Outstanding name

/-- Replacing an entry that is not outstanding on `name` keeps what is. -/
theorem Outstanding.set {name : String} {i : ℕ} {ph : CallPhase} {b : BreakerRegistry} {m : Metrics}
    (out : p.Outstanding name)
    (other : ∀ c, p.calls[i]? = some (.generating c) → c.target = name → p.OutstandingBut i name) :
    Outstanding { p with breakers := b, calls := p.calls.set i ph, metrics := m } name := by
  have keep : ∀ {j c}, j ≠ i → p.calls[j]? = some (.generating c) → c.target = name →
      Outstanding { p with breakers := b, calls := p.calls.set i ph, metrics := m } name :=
    fun {j c} ne here same => ⟨j, c, by simp [List.getElem?_set_ne ne.symm, here], same⟩
  obtain ⟨j, c, here, same⟩ := out
  rcases eq_or_ne j i with rfl | ne
  · obtain ⟨k, c', ne, here', same'⟩ := other c here same
    exact keep ne here' same'
  · exact keep ne here same

theorem probesHeld_attempt {i : ℕ} {c : FailoverCall} (held : p.ProbesHeld)
    (here : p.calls[i]? = some (.attempting c)) :
    ProbesHeld (p.update i (c.attempt ts s p.now p.breakers p.metrics)) := by
  intro name probing
  simp only [update, FailoverCall.attempt_breakers] at probing
  have before : ((p.breakers.get c.target).allows p.now).2 = p.breakers.get c.target ∨
      name ≠ c.target → (p.breakers.get name).Probing := by
    intro same
    by_cases eq : name = c.target
    · subst eq
      simpa [same.resolve_right (not_not.mpr rfl)] using probing
    · simpa [eq] using probing
  have idle : ∀ c', p.calls[i]? = some (.generating c') → c'.target = name →
      p.OutstandingBut i name := by
    intro c' here'
    rw [here] at here'
    cases here'
  rcases CircuitBreaker.allows_cases (p.breakers.get c.target) p.now with
    ⟨-, same, -⟩ | ⟨-, -, same⟩ | ⟨admitted, -, -, -⟩
  · exact (held name (before (.inl same))).set idle
  · exact (held name (before (.inl same))).set idle
  · by_cases eq : name = c.target
    · -- The caller that was just admitted is the one outstanding.
      refine ⟨i, c, ?_, eq.symm⟩
      have awaits : (c.attempt ts s p.now p.breakers p.metrics).2.1 = .generating c :=
        FailoverCall.attempt_generating_iff.mpr ⟨admitted, rfl⟩
      simp [update, Pool.get_set_self here, awaits]
    · exact (held name (before (.inr eq))).set idle

theorem probesHeld_outcome {i : ℕ} {c : FailoverCall} {o : GenerateOutcome} (held : p.ProbesHeld)
    (here : p.calls[i]? = some (.generating c)) (reported : p.Reported (.outcome i o)) :
    ProbesHeld (p.update i (c.onOutcome ts s p.now o p.breakers p.metrics)) := by
  intro name probing
  have elsewhere : name ≠ c.target → ∀ c', p.calls[i]? = some (.generating c') →
      c'.target = name → p.OutstandingBut i name := by
    intro ne c' here' same
    rw [here] at here'
    cases here'
    exact absurd same.symm ne
  cases o with
  | completion k =>
      by_cases eq : name = c.target
      · subst eq
        simp [update, FailoverCall.onOutcome] at probing
      · exact (held name (by simpa [update, FailoverCall.onOutcome, eq] using probing)).set
          (elsewhere eq)
  | failure f =>
      by_cases fault : f.serverFault = true
      · simp only [update, FailoverCall.onOutcome, fault, if_true] at probing
        by_cases eq : name = c.target
        · subst eq
          rw [BreakerRegistry.get_put_self] at probing
          exact absurd probing (CircuitBreaker.not_probing_recordFailure _ _)
        · rw [BreakerRegistry.get_put_ne _ eq] at probing
          exact (held name probing).set (elsewhere eq)
      · -- No report: the run condition hands over another outstanding call.
        have silent := reported (Bool.not_eq_true _ ▸ fault)
        simp only [update, FailoverCall.onOutcome, fault] at probing
        apply (held name probing).set
        intro c' here' same
        exact same ▸ silent c' here' (same.symm ▸ probing)

theorem probesHeld_step {a : FailoverAct} (held : p.ProbesHeld) (reported : p.Reported a)
    (stepped : p.step ts s a = some p') : p'.ProbesHeld := by
  cases a with
  | start req decision =>
      cases stepped
      intro name probing
      obtain ⟨j, c, here, same⟩ := held name probing
      exact ⟨j, c, Pool.get_old here _, same⟩
  | clock t =>
      cases stepped
      exact fun name probing => held name probing
  | attempt i =>
      simp only [step] at stepped
      split at stepped
      · rename_i c here
        cases stepped
        exact probesHeld_attempt held here
      · cases stepped
  | outcome i o =>
      simp only [step] at stepped
      split at stepped
      · rename_i c here
        cases stepped
        exact probesHeld_outcome held here reported
      · cases stepped
  | cancel i =>
      simp only [step] at stepped
      split at stepped
      · rename_i c here
        cases stepped
        intro name probing
        apply (held name probing).set
        intro c' here' same
        exact same ▸ reported c' here' (same.symm ▸ probing)
      · cases stepped

theorem probesHeld_init (failureThreshold : ℤ) (recoveryTimeoutS : ℚ) :
    (init failureThreshold recoveryTimeoutS).ProbesHeld := by
  intro name probing
  cases probing.1

end Probes

/-- In a run in which no probe ends without anybody left to report on it, whenever no
call is outstanding every model's breaker admits a call at some later time. -/
theorem breaker_never_wedged (ts : TextSupport) (s : Settings) (failureThreshold : ℤ)
    (recoveryTimeoutS : ℚ) {p : FailoverPool}
    (reached : Runs.Reaches (step ts s) Reported (init failureThreshold recoveryTimeoutS) p)
    (idle : ∀ name, ¬ p.Outstanding name) (name : String) :
    ∃ t, p.now ≤ t ∧ ((p.breakers.get name).allows t).1 = true := by
  have held : p.ProbesHeld := reached.invariant (probesHeld_init _ _)
    fun _ _ _ held reported stepped => probesHeld_step held reported stepped
  exact CircuitBreaker.exists_allows (fun probing => idle name (held name probing)) p.now

/-- No call is at its await, decidably. -/
def quiet (p : FailoverPool) : Bool :=
  p.calls.all fun
    | .generating _ => false
    | _ => true

theorem not_outstanding_of_quiet {p : FailoverPool} (quiet : p.quiet = true) (name : String) :
    ¬ p.Outstanding name := by
  rintro ⟨i, c, here, -⟩
  have := List.all_eq_true.mp quiet _ (List.mem_of_getElem? here)
  cases this

section Wedged

/-- A request pinned to the model `small`. -/
def pinnedRequest : RouteRequest := { prompt := "hello", forceModel := some "small" }

/-- What `route` decides for it. -/
def pinnedDecision : RoutingDecision where
  model := { name := "small", tier := .simple, inputPricePer1k := 1 / 4000,
             outputPricePer1k := 1 / 800, maxContextTokens := 16000 }
  complexity := { tier := .simple, score := 0 }
  inputTokens := 1
  projectedOutputTokens := 384
  projectedCost := 1921 / 4000000
  downgraded := false
  notes := ["forced model=small"]

example : route .ascii {} pinnedRequest [] = .ok pinnedDecision := by decide +kernel

/-- Call `i`: it starts, is admitted, and the provider answers. -/
def answered (i : ℕ) (o : GenerateOutcome) : List FailoverAct :=
  [.start pinnedRequest pinnedDecision, .attempt i, .outcome i o]

theorem reported_of_loud {p : FailoverPool} {a : FailoverAct} (loud : a.loud = true) :
    p.Reported a := by
  cases a with
  | outcome i o =>
      cases o with
      | completion k => trivial
      | failure f => exact fun silent => absurd loud (by simp [FailoverAct.loud, silent])
  | cancel i => cases loud
  | _ => trivial

/-- One failure trips the breaker, and the probe after the recovery time completes. -/
theorem breaker_never_wedged_after_probe :
    ∃ p, Runs.Reaches (step .ascii {}) Reported (init 1 30) p ∧ (∀ name, ¬ p.Outstanding name) ∧
      ∃ t, p.now ≤ t ∧ ((p.breakers.get "small").allows t).1 = true := by
  have holds : Runs.execHolds (step .ascii {}) (fun _ a => a.loud = true) (init 1 30)
      (answered 0 (.failure (.unavailable "503")) ++ [.clock 30] ++
        answered 1 (.completion { text := "hi", inputTokens := 1, outputTokens := 1 }))
      quiet = true := by
    decide +kernel
  obtain ⟨p, run, still⟩ := Runs.exists_reaches_of_execHolds _ _ holds
  have reported : Runs.Reaches (step .ascii {}) Reported (init 1 30) p :=
    run.weaken fun _ _ loud => reported_of_loud loud
  have idle := not_outstanding_of_quiet still
  exact ⟨p, reported, idle, breaker_never_wedged .ascii {} 1 30 reported idle "small"⟩

/-- Five failed calls trip the breaker, and the probe after the recovery time ends in an
error that is not a server fault: nobody is left to report. -/
theorem breaker_wedged_by_client_error :
    ∃ p, Runs.Reaches (step .ascii {}) Runs.Always (init 5 30) p ∧ (∀ name, ¬ p.Outstanding name) ∧
      ∀ t, ((p.breakers.get "small").allows t).1 = false := by
  have holds : Runs.execHolds (step .ascii {}) Runs.Always (init 5 30)
      ((List.range 5).flatMap (answered · (.failure (.unavailable "503"))) ++ [.clock 30] ++
        answered 5 (.failure (.other "ProviderError" "400")))
      (fun p => p.quiet && decide (p.breakers.get "small").Probing) = true := by
    decide +kernel
  obtain ⟨p, run, wedged⟩ := Runs.exists_reaches_of_execHolds _ _ holds
  rw [Bool.and_eq_true, decide_eq_true_eq] at wedged
  refine ⟨p, run, not_outstanding_of_quiet wedged.1, fun t => ?_⟩
  rw [CircuitBreaker.allows_of_probing wedged.2]

end Wedged

/-! ### The condition is exact -/

section Stuck

variable {ts : TextSupport} {s : Settings} {p p' : FailoverPool} {name : String}

/-- Waiting for a probe that nobody is left to report on. -/
def Stuck (p : FailoverPool) (name : String) : Prop :=
  (p.breakers.get name).Probing ∧ ¬ p.Outstanding name

/-- A step that fails the run condition leaves its model stuck. -/
theorem silent_end_sticks {a : FailoverAct} (silent : ¬ p.Reported a)
    (stepped : p.step ts s a = some p') : ∃ name, p'.Stuck name := by
  have alone : ∀ {i}, ¬ p.MayStaySilent i → ∃ c : FailoverCall,
      p.calls[i]? = some (.generating c) ∧ (p.breakers.get c.target).Probing ∧
        ¬ p.OutstandingBut i c.target := by
    intro i fails
    simp only [MayStaySilent, not_forall] at fails
    obtain ⟨c, here, probing, none⟩ := fails
    exact ⟨c, here, probing, none⟩
  have noneLeft : ∀ {i} {c : FailoverCall} {ph : CallPhase} {b : BreakerRegistry} {m : Metrics},
      p.calls[i]? = some (.generating c) → ¬ p.OutstandingBut i c.target →
      (∀ c', ph ≠ .generating c') →
      ¬ Outstanding { p with breakers := b, calls := p.calls.set i ph, metrics := m } c.target := by
    rintro i c ph b m here none ended ⟨j, c', found, same⟩
    rcases Pool.get_set found with ⟨rfl, eq⟩ | ⟨ne, old⟩
    · exact ended c' eq.symm
    · exact none ⟨j, c', ne, old, same⟩
  cases a with
  | start req decision => exact absurd trivial silent
  | clock t => exact absurd trivial silent
  | attempt i => exact absurd trivial silent
  | outcome i o =>
      cases o with
      | completion k => exact absurd trivial silent
      | failure f =>
          simp only [Reported, Classical.not_imp] at silent
          obtain ⟨c, here, probing, none⟩ := alone silent.2
          simp only [step, here, FailoverCall.onOutcome, silent.1] at stepped
          cases stepped
          exact ⟨c.target, probing, noneLeft here none (fun _ => by simp)⟩
  | cancel i =>
      obtain ⟨c, here, probing, none⟩ := alone silent
      simp only [step, here] at stepped
      cases stepped
      exact ⟨c.target, probing, noneLeft here none (fun _ => by simp)⟩

/-- No step frees a stuck model: its breaker admits nobody, and nobody else reports. -/
theorem Stuck.step {a : FailoverAct} (stuck : p.Stuck name) (stepped : p.step ts s a = some p') :
    p'.Stuck name := by
  obtain ⟨probing, none⟩ := stuck
  have still : ∀ {i ph} {b : BreakerRegistry} {m : Metrics},
      (∀ c : FailoverCall, ph = .generating c → c.target ≠ name) →
      ¬ Outstanding { p with breakers := b, calls := p.calls.set i ph, metrics := m } name := by
    rintro i ph b m ended ⟨j, c', found, same⟩
    rcases Pool.get_set found with ⟨rfl, eq⟩ | ⟨-, old⟩
    · exact ended c' eq.symm same
    · exact none ⟨j, c', old, same⟩
  cases a with
  | start req decision =>
      cases stepped
      refine ⟨probing, ?_⟩
      rintro ⟨j, c, found, same⟩
      rcases Pool.get_spawn found with old | ⟨-, eq⟩
      · exact none ⟨j, c, old, same⟩
      · cases eq
  | clock t =>
      cases stepped
      exact ⟨probing, fun ⟨j, c, found, same⟩ => none ⟨j, c, found, same⟩⟩
  | attempt i =>
      simp only [FailoverPool.step] at stepped
      split at stepped
      · rename_i c here
        cases stepped
        refine ⟨?_, still fun c' awaits same => ?_⟩
        · by_cases eq : name = c.target
          · subst eq
            simpa [update, CircuitBreaker.allows_of_probing probing] using probing
          · simpa [update, eq] using probing
        · obtain ⟨admitted, rfl⟩ := FailoverCall.attempt_generating_iff.mp awaits
          rw [same, CircuitBreaker.allows_of_probing probing] at admitted
          cases admitted
      · cases stepped
  | outcome i o =>
      simp only [FailoverPool.step] at stepped
      split at stepped
      · rename_i c here
        cases stepped
        have other : name ≠ c.target := fun same => none ⟨i, c, here, same.symm⟩
        cases o with
        | completion k =>
            exact ⟨by simpa [update, FailoverCall.onOutcome, other] using probing,
              still fun c' eq => by cases eq⟩
        | failure f =>
            by_cases fault : f.serverFault = true
            · simp only [update, FailoverCall.onOutcome, fault, if_true]
              exact ⟨by simpa [other] using probing,
                still fun c' eq => absurd eq (FailoverCall.afterError_ne_generating _ _ c')⟩
            · simp only [update, FailoverCall.onOutcome, fault]
              exact ⟨probing, still fun c' eq => by cases eq⟩
      · cases stepped
  | cancel i =>
      simp only [FailoverPool.step] at stepped
      split at stepped
      · cases stepped
        exact ⟨probing, still fun c' eq => by cases eq⟩
      · cases stepped

/-- In no continuation of any kind does a stuck model's breaker admit a call. -/
theorem stuck_forever (stuck : p.Stuck name)
    (reached : Runs.Reaches (FailoverPool.step ts s) Runs.Always p p') (t : ℚ) :
    ((p'.breakers.get name).allows t).1 = false := by
  have stays : p'.Stuck name := by
    induction reached with
    | refl => exact stuck
    | tail _ _ stepped still => exact Stuck.step still stepped
  rw [CircuitBreaker.allows_of_probing stays.1]

end Stuck

end FailoverPool

end LLMInference
