import LLMInference.Providers.Buffered
import LLMInference.Providers.Malformed
import LLMInference.Providers.Retries

/-!
What a buffered call makes of its upstream (`app/providers/vllm.py`, `generate`).

* `spec_generateFrom`: the first reply that is not tried again decides. If there is none the call
  ends in a server fault after the last attempt, or in the overflow of a back-off before it.
* `retries_every_fault_iff`: all server faults are retried unless the reply that decides is one, or
  the back-off overflows after one.
* `surfaces_iff`: the call returns text and integers or raises a provider error exactly when a
  response that decides carries a document that can be read, and the back-off does not overflow.
-/

namespace LLMInference

namespace HttpReply

/-- The reply makes `generate` try again. -/
def Retried : HttpReply → Prop
  | .unreachable _ => True
  | .response status _ _ => status ∈ retryableStatus

/-- The upstream is at fault: it was not reached, or it answered with 429 or a 5xx. -/
def Faulty : HttpReply → Prop
  | .unreachable _ => True
  | .response status _ _ => status = 429 ∨ 500 ≤ status ∧ status < 600

end HttpReply

namespace VLLMProvider

section Loop

variable (v : VLLMProvider) (ts : TextSupport) (h : PyHost) (model : ModelSpec) (prompt : String)

/-- The reply that decides: those before it are tried again, and it is not. -/
structure Decides (upstream : ℕ → HttpReply) (k : ℕ) : Prop where
  before : ∀ j < k, (upstream j).Retried
  within : (k : ℤ) < v.maxRetries
  reached : k ≤ backoffLimit
  settled : ¬(upstream k).Retried

/-- What a reply that decides comes to. -/
def answerTo : HttpReply → Except ProviderFailure VLLMCompletion
  | .unreachable e => .error (unestablished e)
  | .response status text json =>
      if 400 ≤ status then
        .error (.other "ProviderError"
          (s!"vLLM rejected the request ({status}): " ++ (text.take 200).toString))
      else (json >>= v.parseCompletion ts h model prompt).mapError escaped

/-- What the loop can come to, with `left` attempts left from `attempt` on. -/
inductive LoopSpec (upstream : ℕ → HttpReply) (left attempt : ℕ) : VLLMAnswer → Prop
  | decided {k : ℕ} (within : k < left) (waited : ∀ j < k, attempt + j < backoffLimit)
      (before : ∀ j < k, (upstream (attempt + j)).Retried)
      (settled : ¬(upstream (attempt + k)).Retried) :
      LoopSpec upstream left attempt
        { outcome := v.answerTo ts h model prompt (upstream (attempt + k)),
          requests := attempt + k + 1 }
  | exhausted {f : ProviderFailure} (waited : ∀ j, j + 1 < left → attempt + j < backoffLimit)
      (all : ∀ j < left, (upstream (attempt + j)).Retried) (fault : f.serverFault = true) :
      LoopSpec upstream left attempt { outcome := .error f, requests := attempt + left }
  | overflowed {k : ℕ} (within : k + 1 < left) (waited : ∀ j < k, attempt + j < backoffLimit)
      (long : backoffLimit ≤ attempt + k) (all : ∀ j ≤ k, (upstream (attempt + j)).Retried) :
      LoopSpec upstream left attempt
        { outcome := .error (escaped tooLarge), requests := attempt + k + 1 }

end Loop

/-- What is asked of the loop: no attempt too many, no attempt after a reply that is not to be
tried again, no giving up as long as only the upstream is at fault, and a server fault in the
end. -/
structure RetriesFaults (v : VLLMProvider) (upstream : ℕ → HttpReply) (a : VLLMAnswer) : Prop where
  bounded : a.requests ≤ v.maxRetries.toNat
  afterRetried : ∀ k, k + 1 < a.requests → (upstream k).Retried
  persistent : (∀ k < a.requests, (upstream k).Faulty) → a.requests = v.maxRetries.toNat
  raised : (upstream (a.requests - 1)).Faulty →
    ∃ f : ProviderFailure, a.outcome = .error f ∧ f.serverFault = true

section Spec

variable {v : VLLMProvider} {ts : TextSupport} {h : PyHost} {model : ModelSpec} {prompt : String}
  {upstream : ℕ → HttpReply}

theorem serverFault_unestablished (e : PyError) : (unestablished e).serverFault = true := by
  unfold unestablished
  split <;> rfl

/-- One more attempt that is tried again. -/
theorem LoopSpec.again {left attempt : ℕ} {a : VLLMAnswer}
    (spec : v.LoopSpec ts h model prompt upstream left (attempt + 1) a)
    (early : attempt < backoffLimit) (first : (upstream attempt).Retried) :
    v.LoopSpec ts h model prompt upstream (left + 1) attempt a := by
  have shifted : ∀ {P : ℕ → Prop} {n : ℕ}, P attempt → (∀ j < n, P (attempt + 1 + j)) →
      ∀ j < n + 1, P (attempt + j) := by
    intro P n here all j lt
    cases j with
    | zero => exact here
    | succ j => simpa [Nat.add_assoc, Nat.add_comm 1] using all j (by omega)
  cases spec with
  | @decided k within waited before settled =>
      rw [Nat.add_assoc, Nat.add_comm 1 k] at settled ⊢
      exact .decided (by omega) (shifted (P := (· < backoffLimit)) early waited)
        (shifted (P := fun n => (upstream n).Retried) first before) settled
  | exhausted waited all fault =>
      rw [Nat.add_assoc, Nat.add_comm 1 left]
      refine .exhausted (fun j lt => ?_)
        (shifted (P := fun n => (upstream n).Retried) first all) fault
      cases j with
      | zero => exact early
      | succ j =>
          have before := waited j (by omega)
          omega
  | @overflowed k within waited long all =>
      rw [show attempt + 1 + k = attempt + (k + 1) by omega] at long ⊢
      have waits := shifted (P := (· < backoffLimit)) early waited
      refine .overflowed (by omega) waits long fun j le => ?_
      exact shifted (P := fun n => (upstream n).Retried) (n := k + 1) first
        (fun j lt => all j (by omega)) j (by omega)

/-- A reply that is tried again, in the loop. -/
theorem spec_tryAgain {left attempt : ℕ} {last : ProviderFailure} {a : VLLMAnswer}
    (retried : (upstream attempt).Retried) (fault : last.serverFault = true)
    (spec : v.LoopSpec ts h model prompt upstream left (attempt + 1) a) :
    v.LoopSpec ts h model prompt upstream (left + 1) attempt (tryAgain left attempt last a) := by
  have only : ∀ j ≤ 0, (upstream (attempt + j)).Retried := by
    intro j le
    cases Nat.le_zero.mp le
    exact retried
  unfold tryAgain
  split
  · rename_i none
    subst none
    exact .exhausted (fun j lt => by omega) (fun j lt => only j (by omega)) fault
  · rcases Nat.lt_or_ge attempt backoffLimit with early | late
    · rw [sleepBackoff_of_lt early]
      exact spec.again early retried
    · rw [sleepBackoff_of_le late]
      exact .overflowed (k := 0) (by omega) (by simp) late only

/-- The loop's spec. -/
theorem spec_generateFrom (left attempt : ℕ) :
    v.LoopSpec ts h model prompt upstream left attempt
      (v.generateFrom ts h model prompt upstream left attempt) := by
  induction left generalizing attempt with
  | zero => exact .exhausted (by simp) (by simp) rfl
  | succ left ih =>
      have here : ¬(upstream attempt).Retried →
          v.LoopSpec ts h model prompt upstream (left + 1) attempt
            { outcome := v.answerTo ts h model prompt (upstream attempt),
              requests := attempt + 1 } :=
        fun settled => .decided (k := 0) (Nat.succ_pos left) (by simp) (by simp) settled
      rw [generateFrom]
      cases reply : upstream attempt with
      | unreachable e =>
          exact spec_tryAgain (reply ▸ trivial) (serverFault_unestablished e) (ih (attempt + 1))
      | response status text json =>
          by_cases retried : status ∈ retryableStatus
          · simp only [retried, if_true]
            exact spec_tryAgain (reply ▸ retried) rfl (ih (attempt + 1))
          · rw [reply] at here
            have settled := here retried
            simp only [retried, if_false]
            simp only [answerTo] at settled
            split at settled <;> rename_i rejected
            · simpa only [rejected, if_true] using settled
            · simpa only [rejected, if_false] using settled

/-- One reply decides at most. -/
theorem Decides.unique {j k : ℕ} (decides : v.Decides upstream j)
    (decides' : v.Decides upstream k) : j = k := by
  rcases lt_trichotomy j k with earlier | eq | later
  · exact absurd (decides'.before j earlier) decides.settled
  · exact eq
  · exact absurd (decides.before k later) decides'.settled

/-- A reply that decides is the last, and its own answer is the outcome. -/
theorem generate_of_decides {k : ℕ} (decides : v.Decides upstream k) :
    v.generate ts h model prompt upstream =
      { outcome := v.answerTo ts h model prompt (upstream k), requests := k + 1 } := by
  have within := decides.within
  have reached := decides.reached
  have spec : v.LoopSpec ts h model prompt upstream v.maxRetries.toNat 0
      (v.generate ts h model prompt upstream) := spec_generateFrom _ _
  generalize v.generate ts h model prompt upstream = a at spec ⊢
  cases spec with
  | @decided j within' waited before settled =>
      simp only [Nat.zero_add] at waited before settled ⊢
      have reached' : j ≤ backoffLimit := le_of_forall_lt waited
      rw [Decides.unique ⟨before, by omega, reached', settled⟩ decides]
  | exhausted _ all _ =>
      have retried := all k (by omega)
      rw [Nat.zero_add] at retried
      exact absurd retried decides.settled
  | overflowed _ _ long all =>
      have retried := all k (by omega)
      rw [Nat.zero_add] at retried
      exact absurd retried decides.settled

/-- Without one, every attempt is made, and the last ends in a server fault; or the back-off
overflows. -/
theorem generate_of_undecided (ts : TextSupport) (h : PyHost) (model : ModelSpec)
    (prompt : String) (undecided : ∀ k, ¬v.Decides upstream k) :
    (¬v.Overflows (fun k => (upstream k).Retried) ∧
      (∀ k : ℕ, (k : ℤ) < v.maxRetries → (upstream k).Retried) ∧ ∃ f : ProviderFailure,
        f.serverFault = true ∧ v.generate ts h model prompt upstream =
          { outcome := .error f, requests := v.maxRetries.toNat }) ∨
    v.Overflows (fun k => (upstream k).Retried) ∧ v.generate ts h model prompt upstream =
      { outcome := .error (escaped tooLarge), requests := backoffLimit + 1 } := by
  have spec : v.LoopSpec ts h model prompt upstream v.maxRetries.toNat 0
      (v.generate ts h model prompt upstream) := spec_generateFrom _ _
  generalize v.generate ts h model prompt upstream = a at spec ⊢
  cases spec with
  | @decided k within waited before settled =>
      simp only [Nat.zero_add] at waited before settled
      have reached : k ≤ backoffLimit := le_of_forall_lt waited
      exact absurd ⟨before, by omega, reached, settled⟩ (undecided k)
  | @exhausted f waited all fault =>
      simp only [Nat.zero_add] at waited all ⊢
      refine .inl ⟨?_, fun k within => all k (by omega), f, fault, rfl⟩
      rintro ⟨more, -⟩
      exact lt_irrefl _ (waited backoffLimit (by omega))
  | @overflowed k within waited long all =>
      simp only [Nat.zero_add] at waited long all ⊢
      have last : k = backoffLimit := le_antisymm (le_of_forall_lt waited) long
      subst last
      exact .inr ⟨⟨by omega, all⟩, rfl⟩

/-- A reply that decides ends the loop before the back-off can overflow. -/
theorem Decides.not_overflows {k : ℕ} (decides : v.Decides upstream k) :
    ¬v.Overflows fun k => (upstream k).Retried :=
  fun overflows => decides.settled (overflows.2 k decides.reached)

/-- All faults of the upstream are retried, and the last one is raised as a server fault, if and
only if the reply that decides is no such fault, and the back-off does not overflow after one. -/
theorem retries_every_fault_iff (v : VLLMProvider) (ts : TextSupport) (h : PyHost)
    (model : ModelSpec) (prompt : String) (upstream : ℕ → HttpReply) :
    v.RetriesFaults upstream (v.generate ts h model prompt upstream) ↔
      (∀ k, v.Decides upstream k → ¬(upstream k).Faulty) ∧
        (v.Overflows (fun k => (upstream k).Retried) → ¬(upstream backoffLimit).Faulty) := by
  by_cases decided : ∃ k, v.Decides upstream k
  · obtain ⟨k, decides⟩ := decided
    rw [generate_of_decides decides,
      and_iff_left fun overflows => absurd overflows decides.not_overflows]
    constructor
    · intro retries j decides'
      rw [decides'.unique decides]
      intro faulty
      obtain ⟨f, outcome, fault⟩ := retries.raised faulty
      have settled := decides.settled
      cases reply : upstream k with
      | unreachable e => exact settled (reply ▸ trivial)
      | response status text json =>
          rw [reply] at outcome faulty
          have rejected : 400 ≤ status := by
            rcases faulty with eq | ⟨le, -⟩ <;> omega
          simp only [answerTo, rejected, if_true, Except.error.injEq] at outcome
          rw [← outcome] at fault
          cases fault
    · intro blameless
      have within := decides.within
      refine ⟨?_, fun j lt => decides.before j (Nat.lt_of_succ_lt_succ lt), ?_, ?_⟩
      · show k + 1 ≤ v.maxRetries.toNat
        omega
      · exact fun all => absurd (all k (Nat.lt_succ_self k)) (blameless k decides)
      · exact fun faulty => absurd faulty (blameless k decides)
  · push Not at decided
    rw [and_iff_right fun k decides => absurd decides (decided k)]
    rcases generate_of_undecided ts h model prompt decided with
      ⟨fits, all, f, fault, made⟩ | ⟨overflows, made⟩
    · rw [made]
      refine iff_of_true ⟨le_rfl, fun k lt => all k ?_, fun _ => rfl, fun _ => ⟨f, rfl, fault⟩⟩
        fun overflows => absurd overflows fits
      exact Int.lt_toNat.mp ((Nat.lt_succ_self k).trans lt)
    · rw [made, forall_prop_of_true overflows]
      obtain ⟨more, all⟩ := overflows
      constructor
      · intro retries faulty
        obtain ⟨f, outcome, fault⟩ := retries.raised faulty
        cases outcome
        cases fault
      · intro blameless
        refine ⟨?_, fun k lt => all k (Nat.le_of_lt_succ (Nat.lt_of_succ_lt lt)),
          fun faults => ?_, fun faulty => ?_⟩
        · show backoffLimit + 1 ≤ v.maxRetries.toNat
          omega
        · exact absurd (faults backoffLimit (Nat.lt_succ_self _)) blameless
        · exact absurd faulty blameless

end Spec

/-- The model the requests below are for. -/
def asked : ModelSpec where
  name := "small"
  tier := .simple
  inputPricePer1k := 1 / 4000
  outputPricePer1k := 1 / 800
  maxContextTokens := 16000

/-- A server that answers with 501 is asked once, and its fault is no server fault. -/
theorem not_implemented_is_not_retried :
    ¬RetriesFaults {}
      (fun _ => .response 501 "Not Implemented" (.error ⟨"JSONDecodeError", "Expecting value"⟩))
      (generate {} .ascii (reading []) asked "hi"
        fun _ => .response 501 "Not Implemented" (.error ⟨"JSONDecodeError", "Expecting value"⟩)) := by
  intro retries
  have once := retries.persistent fun _ _ => .inr ⟨by decide, by decide⟩
  revert once
  decide

end VLLMProvider

/-! ### What parsing raises -/

/-- What Python's own operations raise here. -/
def builtinErrors : List String :=
  ["AttributeError", "IndexError", "KeyError", "OverflowError", "TypeError", "ValueError",
    "ZeroDivisionError"]

/-- If the computation raises, then one of Python's own exceptions. -/
def RaisesBuiltin {α : Type} (x : Except PyError α) : Prop :=
  ∀ e, x = .error e → e.typeName ∈ builtinErrors

section Builtin

variable {α β : Type} {h : PyHost} {ts : TextSupport} {x : PyValue}

theorem RaisesBuiltin.ok (a : α) : RaisesBuiltin (.ok a) := by
  intro e raised
  cases raised

theorem RaisesBuiltin.error {name detail : String} (builtin : name ∈ builtinErrors) :
    RaisesBuiltin (.error ⟨name, detail⟩ : Except PyError α) := by
  intro e raised
  cases raised
  exact builtin

theorem RaisesBuiltin.bind {x : Except PyError α} {f : α → Except PyError β}
    (first : RaisesBuiltin x) (rest : ∀ a, RaisesBuiltin (f a)) : RaisesBuiltin (x >>= f) := by
  intro e raised
  cases x with
  | error e' =>
      cases raised
      exact first e rfl
  | ok a => exact rest a e raised

theorem raisesBuiltin_get (key : String) (default : PyValue) :
    RaisesBuiltin (x.get key default) := by
  cases x with
  | dict items => exact .ok _
  | _ => exact .error (by decide)

theorem raisesBuiltin_first : RaisesBuiltin x.first := by
  cases x with
  | list items =>
      cases items with
      | nil => exact .error (by decide)
      | cons item rest => exact .ok item
  | str s =>
      rw [PyValue.first]
      split
      · exact .ok _
      · exact .error (by decide)
  | _ => exact .error (by decide)

theorem raisesBuiltin_len : RaisesBuiltin x.len := by
  cases x with
  | str s => exact .ok _
  | list items => exact .ok _
  | dict items => exact .ok _
  | _ => exact .error (by decide)

theorem raisesBuiltin_toInt : RaisesBuiltin (x.toInt h) := by
  cases x with
  | bool b => exact .ok _
  | int n => exact .ok n
  | float y =>
      cases y with
      | finite q => exact .ok _
      | infinite negative => exact .error (by decide)
      | nan => exact .error (by decide)
  | str s =>
      rw [PyValue.toInt]
      split
      · exact .ok _
      · exact .error (by decide)
  | _ => exact .error (by decide)

theorem raisesBuiltin_usageFrom (data : PyDict) : RaisesBuiltin (usageFrom h data) := by
  unfold usageFrom
  simp only
  split
  · refine (raisesBuiltin_get _ _).bind fun p => (raisesBuiltin_get _ _).bind fun c => ?_
    unfold usageOf
    split
    · exact .ok none
    · exact raisesBuiltin_toInt.bind fun i => raisesBuiltin_toInt.bind fun o => .ok _
  · exact .ok none

theorem raisesBuiltin_tokensOf (text : String) (charsPerToken : ℚ) :
    RaisesBuiltin (tokensOf ts text charsPerToken) := by
  unfold tokensOf
  split
  · exact .error (by decide)
  · exact .ok _

theorem raisesBuiltin_tokensOfValue (charsPerToken : ℚ) :
    RaisesBuiltin (tokensOfValue ts x charsPerToken) := by
  unfold tokensOfValue
  split
  · exact raisesBuiltin_tokensOf _ _
  · split
    · refine raisesBuiltin_len.bind fun n => ?_
      split
      · exact .error (by decide)
      · exact .ok _
    · exact .ok 0

/-- None of these is a provider error. -/
theorem provider_escaped_builtin {e : PyError} (builtin : e.typeName ∈ builtinErrors) :
    (escaped e).provider = false := by
  have apart : ∀ name ∈ builtinErrors,
      name ∉ ["ProviderError", "ProviderTimeoutError", "ProviderUnavailableError"] := by
    decide
  exact decide_eq_false (apart _ builtin)

end Builtin

/-- A completion with a text and integers, or a provider error. -/
def Surfaces (outcome : Except ProviderFailure VLLMCompletion) : Prop :=
  match outcome with
  | .ok c => ∃ text, c.text = .str text
  | .error f => f.provider = true

namespace VLLMProvider

section Documents

variable (v : VLLMProvider) (ts : TextSupport) (h : PyHost) (model : ModelSpec) (prompt : String)

/-- If there are choices, the first is an object whose text, if there is one, is a string; and
the usage can be read, or if none is reported, it can be counted. -/
def ReadableBody (data : PyDict) : Prop :=
  (data.get "choices" .none).truthy = true →
    ∃ (choice : PyDict) (rest : List PyValue) (text : String),
      data.get "choices" .none = .list (.dict choice :: rest) ∧
        (choice.get "text" (.str "")).orElse (.str "") = .str text ∧ ReadableUsage h data ∧
          (ReportsUsage data ∨ v.charsPerToken ≠ 0 ∨
            ¬Untokenized ts prompt ∧ ¬Untokenized ts text)

/-- A reply that is accepted carries an object that can be read. -/
def ReadableReply : HttpReply → Prop
  | .unreachable _ => True
  | .response status _ json =>
      status < 400 →
        match json with
        | .ok (.dict data) => v.ReadableBody ts h prompt data
        | .ok _ => False
        | .error e => (escaped e).provider = true

end Documents

section Documents

variable {v : VLLMProvider} {ts : TextSupport} {h : PyHost} {model : ModelSpec} {prompt : String}
  {data : PyDict}

theorem tokensOf_ok_iff {text : String} {charsPerToken : ℚ} :
    (∃ n, tokensOf ts text charsPerToken = .ok n) ↔
      charsPerToken ≠ 0 ∨ ¬Untokenized ts text := by
  by_cases counted : Untokenized ts text <;> by_cases zero : charsPerToken = 0 <;>
    simp [tokensOf, counted, zero]

theorem completionUsage_ok_iff {text : String} :
    (∃ usage, v.completionUsage ts h prompt data (.str text) = .ok usage) ↔
      ReadableUsage h data ∧ (ReportsUsage data ∨ v.charsPerToken ≠ 0 ∨
        ¬Untokenized ts prompt ∧ ¬Untokenized ts text) := by
  rw [completionUsage, exists_bind_ok_iff, ← usageFrom_ok_iff (h := h)]
  constructor
  · rintro ⟨u, used, usage, made⟩
    refine ⟨⟨u, used⟩, ?_⟩
    cases u with
    | some reported =>
        by_contra other
        exact Option.some_ne_none _ ((usageFrom_spec used).mpr fun reports => other (.inl reports))
    | none =>
        simp only [bind_eq_ok_iff] at made
        obtain ⟨i, input, o, output, -⟩ := made
        have input' := tokensOf_ok_iff.mp ⟨i, input⟩
        have output' := tokensOf_ok_iff.mp ⟨o, output⟩
        tauto
  · rintro ⟨⟨u, used⟩, counted⟩
    refine ⟨u, used, ?_⟩
    cases u with
    | some reported => exact ⟨reported, rfl⟩
    | none =>
        have silent := (usageFrom_spec used).mp rfl
        have counted' := counted.resolve_left silent
        obtain ⟨i, input⟩ : ∃ n, tokensOf ts prompt v.charsPerToken = .ok n :=
          tokensOf_ok_iff.mpr (by tauto)
        obtain ⟨o, output⟩ : ∃ n, tokensOf ts text v.charsPerToken = .ok n :=
          tokensOf_ok_iff.mpr (by tauto)
        simp only [exists_bind_ok_iff]
        exact ⟨i, input, o, output, _, rfl⟩

theorem raisesBuiltin_completionUsage (text : PyValue) :
    RaisesBuiltin (v.completionUsage ts h prompt data text) := by
  refine (raisesBuiltin_usageFrom data).bind fun u => ?_
  cases u with
  | some reported => exact .ok reported
  | none =>
      exact (raisesBuiltin_tokensOf _ _).bind fun i =>
        (raisesBuiltin_tokensOfValue _).bind fun o => .ok _

/-- Where there are choices, nothing but Python's own exceptions is raised. -/
theorem raisesBuiltin_completionOf (given : (data.get "choices" .none).truthy = true) :
    RaisesBuiltin (v.completionOf ts h model prompt data) := by
  simp only [completionOf, PyValue.orElse_of_truthy given, given, if_true]
  exact raisesBuiltin_first.bind fun choice => (raisesBuiltin_get _ _).bind fun text =>
    (raisesBuiltin_completionUsage _).bind fun usage => .ok _

theorem completionOf_text_iff (model : ModelSpec) (given : (data.get "choices" .none).truthy = true) :
    (∃ c, v.completionOf ts h model prompt data = .ok c ∧ ∃ text, c.text = .str text) ↔
      v.ReadableBody ts h prompt data := by
  rw [ReadableBody, forall_prop_of_true given]
  simp only [completionOf, PyValue.orElse_of_truthy given, given, if_true, bind_eq_ok_iff,
    PyValue.get_eq_ok_iff]
  constructor
  · rintro ⟨c, ⟨choice, first, text, ⟨fields, rfl, rfl⟩, usage, used, made⟩, s, is⟩
    obtain ⟨rest, choices⟩ := PyValue.first_eq_dict_iff.mp first
    cases made
    simp only at is
    rw [is] at used
    exact ⟨fields, rest, s, choices, is, completionUsage_ok_iff.mp ⟨usage, used⟩⟩
  · rintro ⟨fields, rest, s, choices, is, readable⟩
    obtain ⟨usage, used⟩ := completionUsage_ok_iff.mpr readable
    refine ⟨_, ⟨.dict fields, PyValue.first_eq_dict_iff.mpr ⟨rest, choices⟩, _,
      ⟨fields, rfl, rfl⟩, usage, ?_, rfl⟩, s, is⟩
    rw [is]
    exact used

/-- Parsing an object surfaces if and only if it can be read. -/
theorem surfaces_completionOf_iff :
    Surfaces ((v.completionOf ts h model prompt data).mapError escaped) ↔
      v.ReadableBody ts h prompt data := by
  cases given : (data.get "choices" .none).truthy with
  | false =>
      have unread : v.ReadableBody ts h prompt data := by
        intro truth
        cases given.symm.trans truth
      refine iff_of_true ?_ unread
      have raised : v.completionOf ts h model prompt data =
          .error ⟨"ProviderError", "vLLM returned no choices"⟩ := by
        simp [completionOf, PyValue.orElse_of_falsy given, PyValue.truthy]
      rw [raised]
      rfl
  | true =>
      rw [← completionOf_text_iff model given]
      have builtin : RaisesBuiltin (v.completionOf ts h model prompt data) :=
        raisesBuiltin_completionOf given
      cases made : v.completionOf ts h model prompt data with
      | ok c => simp [Surfaces, Except.mapError]
      | error e => simp [Surfaces, Except.mapError, provider_escaped_builtin (builtin e made)]

/-- The answer to a reply that decides surfaces if and only if the reply can be read. -/
theorem surfaces_answerTo_iff {r : HttpReply} (settled : ¬r.Retried) :
    Surfaces (v.answerTo ts h model prompt r) ↔ v.ReadableReply ts h prompt r := by
  cases r with
  | unreachable e => exact absurd trivial settled
  | response status text json =>
      rw [answerTo]
      split
      · rename_i rejected
        exact iff_of_true rfl fun below => absurd below (not_lt.mpr rejected)
      · rename_i accepted
        refine Iff.trans ?_ (forall_prop_of_true (not_le.mp accepted)).symm
        cases json with
        | error e => rfl
        | ok body =>
            cases body with
            | dict data => exact surfaces_completionOf_iff
            | _ =>
                refine iff_of_false ?_ not_false
                simp [Surfaces, parseCompletion, bind, Except.bind, Except.mapError, escaped,
                  ProviderFailure.provider, ProviderFailure.typeName]

/-- The call returns text and integers or raises a provider error if and only if the reply that
decides, if there is one, can be read, and the back-off does not overflow. -/
theorem surfaces_iff (v : VLLMProvider) (ts : TextSupport) (h : PyHost) (model : ModelSpec)
    (prompt : String) (upstream : ℕ → HttpReply) :
    Surfaces (v.generate ts h model prompt upstream).outcome ↔
      (∀ k, v.Decides upstream k → v.ReadableReply ts h prompt (upstream k)) ∧
        ¬v.Overflows fun k => (upstream k).Retried := by
  by_cases decided : ∃ k, v.Decides upstream k
  · obtain ⟨k, decides⟩ := decided
    rw [generate_of_decides decides, surfaces_answerTo_iff decides.settled,
      and_iff_left decides.not_overflows]
    constructor
    · intro readable j decides'
      rwa [decides'.unique decides]
    · exact fun all => all k decides
  · push Not at decided
    rw [and_iff_right fun k decides => absurd decides (decided k)]
    rcases generate_of_undecided ts h model prompt decided with
      ⟨fits, -, f, fault, made⟩ | ⟨overflows, made⟩
    · rw [made]
      refine iff_of_true ?_ fits
      cases f with
      | other name detail => cases fault
      | _ => rfl
    · rw [made]
      exact iff_of_false Bool.false_ne_true (not_not_intro overflows)

/-- A server that answers with a list makes an `AttributeError` escape. -/
theorem list_body_escapes :
    ¬Surfaces (generate {} .ascii (reading []) asked "hi"
      fun _ => .response 200 "[]" (.ok (.list []))).outcome :=
  Bool.false_ne_true

end Documents

end VLLMProvider

end LLMInference
