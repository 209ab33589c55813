import LLMInference.Http.Responses
import LLMInference.RateLimit.Window

/-!
What a `retry-after` is worth (`app/main.py`, `_as_http`; `app/service.py`, `_check_rate_limit`).

A client that is refused for its rate is told a number of seconds. However long the service runs
on, whatever the others do, and however often the client is refused again in between, its next
request is let in once that many seconds are over.

* `Trans.limiter`: only the arrival of a request touches the limiter.
* `Awaits.step`: the step lemma.
* `retry_after_lets_in`: the theorem.
-/

namespace LLMInference

open Runs TokenBucketLimiter

section Arrivals

variable {σ : Type} {B : LedgerBackend σ} {ts : TextSupport} {s : Settings} {i : ℕ} {t : Task}
  {sh sh' : Shared σ} {a : TaskAct} {ph ph' : Phase} {evs : List Event} {l : TokenBucketLimiter}

/-- The check of a request that arrives. -/
def Task.check (t : Task) (mono : ℚ) : LimiterCall := ⟨t.request.userId, mono, 1⟩

theorem limiter_arrive (limiter : sh.limiter = some l) :
    (arrive ts s t sh).1.limiter = some (l.serve (t.check sh.mono)) := by
  have served : l.serve (t.check sh.mono) = (l.check t.request.userId sh.mono 1).2 := rfl
  unfold arrive
  rw [limiter, served]
  simp only
  split
  · rfl
  · split <;> rfl

/-- What the limiter says decides. -/
theorem arrive_rateLimited {r : Option ℚ} (limiter : sh.limiter = some l) :
    (arrive ts s t sh).2.1 = .done (.rateLimited r) ↔
      (l.check t.request.userId sh.mono 1).1 = .error r := by
  unfold arrive
  rw [limiter]
  simp only
  cases l.check t.request.userId sh.mono 1 with
  | mk limited l' =>
      cases limited with
      | error r' => simp
      | ok u =>
          simp only [reduceCtorEq, iff_false]
          split
          · simp
          · simp only
            split <;> simp

/-- Only the arrival of a request touches the limiter. -/
theorem Trans.limiter {req : Request} {streaming : Bool}
    (step : Trans B ts s i req streaming sh ph a sh' ph' evs) (arrived : ph ≠ .arrived) :
    sh'.limiter = sh.limiter := by
  cases step <;> first | rfl | exact absurd rfl arrived

/-- No step of a task moves the clock. -/
theorem Trans.mono {req : Request} {streaming : Bool}
    (step : Trans B ts s i req streaming sh ph a sh' ph' evs) : sh'.mono = sh.mono := by
  cases step <;> rfl

theorem arrive_of_taskStep {f : LedgerFault} (arrived : t.phase = .arrived)
    (made : taskStep B ts s i t sh (.run f) = some (sh', ph', evs)) :
    sh' = (arrive ts s t sh).1 ∧ ph' = (arrive ts s t sh).2.1 := by
  simp only [taskStep, arrived] at made
  split at made
  · have same : arrive ts s t sh = (sh', ph', evs) := Option.some.inj made
    rw [same]
    exact ⟨rfl, rfl⟩
  · cases made

/-- A step of a task leaves the limiter alone, or is the arrival. -/
theorem limiter_of_taskStep (made : taskStep B ts s i t sh a = some (sh', ph', evs)) :
    sh'.limiter = sh.limiter ∨ t.phase = .arrived ∧ sh' = (arrive ts s t sh).1 := by
  by_cases here : t.phase = .arrived
  · cases a with
    | run f => exact .inr ⟨here, (arrive_of_taskStep here made).1⟩
    | cancel executed =>
        simp only [taskStep, here] at made
        cases made
        exact .inl rfl
    | _ => simp [taskStep, here] at made
  · exact .inl ((trans_of_taskStep made).limiter here)

end Arrivals

/-! ### Waiting -/

section Waiting

variable {σ : Type} {B : LedgerBackend σ} {ts : TextSupport} {s : Settings} {w w' : World σ}
  {user : String} {level since : ℚ} {capacity rate : ℚ}

/-- The clock does not run back, and no check of the user is admitted. -/
def Patient (user : String) (w : World σ) : WorldAct → Prop
  | .clock _ mono => w.shared.mono ≤ mono
  | .task i _ => ∀ t l, w.tasks[i]? = some t → t.phase = .arrived → t.request.userId = user →
      w.shared.limiter = some l → l.allows (t.check w.shared.mono) = false
  | _ => True

/-- The user's bucket held `level` at `since`, and has only been refilled. -/
def Awaits (user : String) (capacity rate level since : ℚ) (sh : Shared σ) : Prop :=
  since ≤ sh.mono ∧ ∃ l, sh.limiter = some l ∧ l.capacity = capacity ∧
    l.refillPerSecond = rate ∧ l.Refilling user level since sh.mono

theorem Awaits.step {a : WorldAct} (awaits : Awaits user capacity rate level since w.shared)
    (nonneg : 0 ≤ rate) (patient : Patient user w a) (stepped : World.step B ts s w a = some w') :
    Awaits user capacity rate level since w'.shared := by
  obtain ⟨started, l, limiter, rfl, rfl, refilling⟩ := awaits
  cases a with
  | submit request streaming =>
      cases stepped
      exact ⟨started, l, limiter, rfl, rfl, refilling⟩
  | clock now mono =>
      cases stepped
      exact ⟨le_trans started patient, l, limiter, rfl, rfl,
        fun later onward => refilling later (le_trans patient onward)⟩
  | scale later =>
      cases worldTrans_of_step stepped with
      | scale => exact ⟨started, l, limiter, rfl, rfl, refilling⟩
  | task i a =>
      obtain ⟨t, sh, ph, evs, here, made, rfl⟩ := task_of_step stepped
      have clock : sh.mono = w.shared.mono := (trans_of_taskStep made).mono
      refine ⟨clock.symm ▸ started, ?_⟩
      rcases limiter_of_taskStep made with same | ⟨arrived, arrives⟩
      · exact ⟨l, same.trans limiter, rfl, rfl, clock.symm ▸ refilling⟩
      · have refused : (t.check w.shared.mono).userId = user →
            l.allows (t.check w.shared.mono) = false := fun own =>
          patient t l here arrived own limiter
        refine ⟨l.serve (t.check w.shared.mono), ?_, serve_capacity, serve_rate, ?_⟩
        · rw [arrives]
          exact limiter_arrive limiter
        · exact clock.symm ▸ refilling.serve nonneg le_rfl refused

/-- A refusal starts the wait. -/
theorem awaits_of_written {t : Task} {sh : Shared σ} {l : TokenBucketLimiter}
    (limiter : sh.limiter = some l) (clock : (arrive ts s t sh).1.mono = sh.mono)
    (written : (l.check t.request.userId sh.mono 1).2 =
      l.setBucket t.request.userId (l.current t.request.userId sh.mono) sh.mono) :
    Awaits t.request.userId l.capacity l.refillPerSecond (l.current t.request.userId sh.mono)
      sh.mono (arrive ts s t sh).1 := by
  refine ⟨clock.ge, _, limiter_arrive limiter, serve_capacity, serve_rate, ?_⟩
  have serves : l.serve (t.check sh.mono) = l.setBucket t.request.userId
      (l.current t.request.userId sh.mono) sh.mono := written
  rw [serves, clock]
  exact refilling_setBucket l _ _ _

theorem awaits_of_reaches (awaits : Awaits user capacity rate level since w.shared)
    (nonneg : 0 ≤ rate) (patient : Reaches (World.step B ts s) (Patient user) w w') :
    Awaits user capacity rate level since w'.shared :=
  patient.invariant (I := fun w => Awaits user capacity rate level since w.shared) awaits
    fun _ _ _ awaits allowed stepped => awaits.step nonneg allowed stepped

end Waiting

/-- With a refill, a refusal names a time, since the tokens are short. -/
theorem wait_of_refused {l : TokenBucketLimiter} (rate : 0 < l.refillPerSecond) {user : String}
    {now cost : ℚ} {r : Option ℚ} (refusal : (l.check user now cost).1 = .error r) :
    ∃ wait, r = some wait ∧ l.current user now < cost := by
  unfold check at refusal
  simp only at refusal
  split at refusal
  · rename_i short
    rw [retryAfterS, if_pos rate] at refusal
    cases refusal
    exact ⟨_, rfl, short⟩
  · cases refusal

/-- The number in the header is more than the time to wait, and by a second at most. -/
theorem retryAfter_near {wait : ℚ} (positive : 0 ≤ wait) :
    wait < (max 1 (truncate wait + 1) : ℤ) ∧ ((max 1 (truncate wait + 1) : ℤ) : ℚ) ≤ wait + 1 := by
  refine ⟨lt_retryAfter wait, ?_⟩
  have floor : truncate wait = ⌊wait⌋ := by
    rw [truncate, Int.tdiv_eq_ediv_of_nonneg (Rat.num_nonneg.mpr positive), Rat.floor_def']
  have below := Int.floor_le wait
  rw [floor]
  push_cast
  exact max_le (by linarith) (by linarith)

/-- A client whose request is refused for its rate is told, on both endpoints, a whole number of
seconds, which is more than it has to wait, and by a second at most. As long as no request of its
user is let in, and whatever else happens, a request of the user that arrives when that many
seconds are over is not refused for its rate. -/
theorem retry_after_lets_in {σ : Type} {B : LedgerBackend σ} {ts : TextSupport} {s : Settings}
    (classes : String → List String) {w w₁ : World σ} {l : TokenBucketLimiter}
    (limiter : w.shared.limiter = some l) (rate : 0 < l.refillPerSecond) (burst : 1 ≤ l.capacity)
    {i : ℕ} {t : Task} {r : Option ℚ} (here : w.tasks[i]? = some t) (arrived : t.phase = .arrived)
    {f : LedgerFault} (arrives : World.step B ts s w (.task i (.run f)) = some w₁)
    (refused : w₁.tasks[i]? = some { t with phase := .done (.rateLimited r) }) :
    ∃ wait : ℚ, r = some wait ∧ ∃ n : ℤ, (wait < n ∧ n ≤ wait + 1) ∧
      (∃ err, infer ts classes t.request.userId (.rateLimited r) = .refused err ∧
        inferStream ts classes t.request.userId [] (.rateLimited r) = .refused err ∧
        err.status = 429 ∧ err.retryAfter = some n) ∧
      ∀ {w₂ w₃ : World σ} {j : ℕ} {t₂ : Task} {f' : LedgerFault},
        Reaches (World.step B ts s) (Patient t.request.userId) w₁ w₂ →
        w.shared.mono + n ≤ w₂.shared.mono → w₂.tasks[j]? = some t₂ → t₂.phase = .arrived →
        t₂.request.userId = t.request.userId →
        World.step B ts s w₂ (.task j (.run f')) = some w₃ →
        ∀ t₃, w₃.tasks[j]? = some t₃ → ∀ r', t₃.phase ≠ .done (.rateLimited r') := by
  obtain ⟨t', sh, ph, evs, there, made, rfl⟩ := task_of_step arrives
  cases here.symm.trans there
  have bound := (List.getElem?_eq_some_iff.mp here).1
  simp only [List.getElem?_set_self bound, Option.some.injEq, Task.mk.injEq, true_and] at refused
  obtain ⟨rfl, rfl⟩ := arrive_of_taskStep arrived made
  have refusal := (arrive_rateLimited limiter).mp refused
  obtain ⟨wait, rfl, short⟩ := wait_of_refused rate refusal
  obtain ⟨rfl, written⟩ := check_of_refused refusal
  have positive : 0 ≤ (1 - l.current t.request.userId w.shared.mono) / l.refillPerSecond :=
    div_nonneg (sub_nonneg.mpr short.le) rate.le
  obtain ⟨enough, near⟩ := retryAfter_near positive
  refine ⟨_, rfl, _, ⟨enough, near⟩, ⟨_, rfl, rfl, rfl, rfl⟩, ?_⟩
  intro w₂ w₃ j t₂ f' patient waited again ready same served t₃ there₃ r' limited
  have clock : (arrive ts s t w.shared).1.mono = w.shared.mono := (trans_of_taskStep made).mono
  have start := awaits_of_written limiter clock written
  obtain ⟨started, l₂, limiter₂, capacity, rate₂, refilling⟩ :=
    awaits_of_reaches (w := { shared := _, tasks := _, log := _ }) start rate.le patient
  obtain ⟨t', sh, ph, evs', there', made₂, rfl⟩ := task_of_step served
  cases again.symm.trans there'
  obtain ⟨rfl, rfl⟩ := arrive_of_taskStep ready made₂
  simp only [List.getElem?_set_self (List.getElem?_eq_some_iff.mp again).1, Option.some.injEq]
    at there₃
  subst there₃
  have denied := (arrive_rateLimited limiter₂).mp limited
  rw [same] at denied
  have admitted : l₂.allows ⟨t.request.userId, w₂.shared.mono, 1⟩ = true := by
    rw [refilling.allows_iff (rate₂ ▸ rate) (capacity ▸ burst) le_rfl, rate₂]
    linarith
  rw [allows, admits, denied] at admitted
  cases admitted

/-- One request in two seconds. -/
def twoSecondsApart : Settings :=
  { oneSlot with rateLimitEnabled := true, rateLimitBurst := 1, rateLimitPerSecond := 1 / 2 }

/-- The second request of a user at once is told to come back in three seconds. -/
theorem retry_after_lets_in_after_three :
    ∃ (w : World Ledger) (err : HttpError),
      Reaches (World.step Ledger.backend .ascii twoSecondsApart) Always
        (World.start twoSecondsApart {}) w ∧
      inferStream .ascii (fun _ => []) "u" [] (.rateLimited (some 2)) = .refused err ∧
      err.retryAfter = some 3 := by
  let step := World.step Ledger.backend .ascii twoSecondsApart
  have holds : execHolds step Always (World.start twoSecondsApart {})
      [.submit { prompt := "hi", userId := "u" } true,
        .submit { prompt := "hi", userId := "u" } true, .task 0 (.run .none)]
      (fun w => (w.shared.limiter.any fun l =>
          decide (0 < l.refillPerSecond ∧ 1 ≤ l.capacity)) &&
        (w.tasks[1]?.any fun t => decide (t.phase = .arrived ∧ t.request.userId = "u")) &&
        ((step w (.task 1 (.run .none))).any fun w₁ => decide (w₁.tasks[1]? =
          w.tasks[1]?.map fun t => { t with phase := .done (.rateLimited (some 2)) }))) = true := by
    decide +kernel
  obtain ⟨w, reached, both⟩ := exists_reaches_of_execHolds _ _ holds
  simp only [Bool.and_eq_true, Option.any_eq_true, decide_eq_true_eq] at both
  obtain ⟨⟨⟨l, limiter, rate, burst⟩, t, here, arrived, user⟩, w₁, arrives, refused⟩ := both
  rw [here] at refused
  obtain ⟨wait, known, n, ⟨enough, near⟩, ⟨err, -, answer, -, header⟩, -⟩ :=
    retry_after_lets_in (fun _ => []) limiter rate burst here arrived arrives refused
  cases known
  have three : n = 3 := by
    have above : (2 : ℤ) < n := by exact_mod_cast enough
    have below : n ≤ (3 : ℤ) := by
      have cast : (n : ℚ) ≤ (3 : ℤ) := near.trans (by norm_num)
      exact_mod_cast cast
    omega
  exact ⟨w, err, reached, user ▸ answer, three ▸ header⟩

end LLMInference
