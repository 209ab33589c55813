import LLMInference.Providers.Frames

/-!
How a stream of the vLLM provider ends.

* `attemptStream_readable`: a response whose lines can all be read, up to the end mark, yields its
  texts in order, and then the last reason with the last usage, or with an estimate.
* `attemptStream_finished_iff`: a response that closes without an end mark finishes the stream,
  unless one of its lines is not a `ReadableLine`, or there is no usage to report.
* `generateStream_returns_iff`: the generator returns exactly when the response it is made of
  finishes it.
-/

namespace LLMInference

namespace VLLMProvider

/-- The final chunk has its usage: the server reported it, or it can be estimated without
dividing by nothing. -/
def HasUsage (v : VLLMProvider) (ts : TextSupport) (h : PyHost) (prompt : String)
    (lines : List String) : Prop :=
  (∃ data ∈ framesOf h lines, ReportsUsage data) ∨ v.charsPerToken ≠ 0 ∨
    (∀ data ∈ framesOf h lines, frameText data = none) ∧ ¬Untokenized ts prompt

/-- The usage of a response: the last one reported, or the estimate. -/
def usageOfLines (v : VLLMProvider) (ts : TextSupport) (h : PyHost) (prompt : String)
    (lines : List String) : Except PyError ReportedUsage :=
  match lastUsage h lines with
  | some usage => .ok usage
  | none => v.estimate ts prompt ((textsOf h lines).map textLength).sum

section Finish

attribute [local irreducible] parseSseLine

variable {v : VLLMProvider} {ts : TextSupport} {h : PyHost} {prompt : String}

theorem estimate_ok_iff {accumulated : ℕ} : (∃ u, v.estimate ts prompt accumulated = .ok u) ↔
    v.charsPerToken ≠ 0 ∨ accumulated = 0 ∧ ¬Untokenized ts prompt := by
  simp only [estimate, tokensOf, exists_bind_ok_iff]
  by_cases zero : v.charsPerToken = 0
  · by_cases counted : Untokenized ts prompt <;> by_cases none : accumulated = 0 <;>
      simp [zero, counted, none, pure, Except.pure]
  · by_cases none : accumulated = 0 <;> simp [zero, none, pure, Except.pure]

/-- The exception clause never finishes an attempt. -/
theorem raise_ne_finished (l : FrameLoop) (e : PyError) {pieces : List PyValue}
    {final : VLLMChunk} :
    l.raise e ≠ .finished pieces final := by
  unfold FrameLoop.raise
  split <;> simp

/-- The loop has finished: the reason and the usage are settled. -/
theorem finish_eq (lines : List String) :
    v.finish ts prompt ((framesOf h lines).foldl (FrameLoop.absorb h) {}) =
      match v.usageOfLines ts h prompt lines with
      | .ok usage => .finished (textsOf h lines)
          { finishReason := lastReason h lines, usage := some usage }
      | .error e => ((framesOf h lines).foldl (FrameLoop.absorb h) {}).raise e := by
  have reason : ((framesOf h lines).foldl (FrameLoop.absorb h) {}).finishReason.orElse
      (.str "stop") = lastReason h lines := by
    rw [absorb_finishReason, lastReason]
    cases last : ((framesOf h lines).filterMap frameReason).getLast? with
    | none => rfl
    | some given =>
        obtain ⟨data, -, here⟩ := List.mem_filterMap.mp (List.mem_of_getLast? last)
        exact PyValue.orElse_of_truthy (truthy_of_frameReason here)
  have usage : ((framesOf h lines).foldl (FrameLoop.absorb h) {}).finalUsage =
      lastUsage h lines := by
    rw [absorb_finalUsage, lastUsage, Option.or_none]
  have counted : ((framesOf h lines).foldl (FrameLoop.absorb h) {}).accumulated =
      ((textsOf h lines).map textLength).sum := by
    rw [absorb_accumulated, textsOf, Nat.zero_add]
  have pieces : ((framesOf h lines).foldl (FrameLoop.absorb h) {}).pieces = textsOf h lines := by
    rw [absorb_pieces, textsOf, List.nil_append]
  rw [finish, usageOfLines, usage, reason, counted, pieces]
  cases lastUsage h lines with
  | some u => rfl
  | none => rfl

/-- What an accepted response ends in depends on the loop over its lines. -/
theorem attemptStream_accepted {body : Except PyError (List UInt8)} {lines : List String} :
    v.attemptStream ts h prompt (.response 200 body lines none) =
      match readLines h {} lines with
      | (l, .raised e) => l.raise e
      | (l, _) => v.finish ts prompt l := by
  have accepted : (200 : ℕ) ∉ retryableStatus := by decide
  have notRejected : ¬(400 : ℕ) ≤ 200 := by decide
  simp only [attemptStream, accepted, notRejected, if_false]
  rcases readLines h {} lines with ⟨l, _ | _ | e⟩ <;> rfl

/-- A response whose lines can all be read, up to the mark, yields its texts, and its last reason
with its usage. -/
theorem attemptStream_readable {body : Except PyError (List UInt8)} {lines : List String}
    (readable : ∀ line ∈ beforeMark h lines, ReadableLine h line) :
    v.attemptStream ts h prompt (.response 200 body lines none) =
      match v.usageOfLines ts h prompt lines with
      | .ok usage => .finished (textsOf h lines)
          { finishReason := lastReason h lines, usage := some usage }
      | .error e => ((framesOf h lines).foldl (FrameLoop.absorb h) {}).raise e := by
  obtain ⟨gathered, went⟩ := readLines_readable (l := {}) readable
  rw [attemptStream_accepted, ← finish_eq, ← gathered]
  generalize readLines h {} lines = read at went
  rcases read with ⟨l, how⟩
  cases how with
  | done => rfl
  | exhausted => rfl
  | raised e => exact absurd rfl (went e)

/-- It finishes if and only if all can be read, and there is usage. -/
theorem attemptStream_finishes_iff {body : Except PyError (List UInt8)} {lines : List String} :
    (∃ pieces final, v.attemptStream ts h prompt (.response 200 body lines none) =
        .finished pieces final) ↔
      (∀ line ∈ beforeMark h lines, ReadableLine h line) ∧
        ∃ usage, v.usageOfLines ts h prompt lines = .ok usage := by
  by_cases readable : ∀ line ∈ beforeMark h lines, ReadableLine h line
  · rw [attemptStream_readable readable, and_iff_right readable]
    cases v.usageOfLines ts h prompt lines with
    | ok usage => simp
    | error e => simp [raise_ne_finished]
  · refine iff_of_false ?_ fun both => readable both.1
    push Not at readable
    obtain ⟨e, raised⟩ := readLines_raises_iff (l := {}).mpr readable
    rw [attemptStream_accepted]
    generalize readLines h {} lines = read at raised
    rcases read with ⟨l, how⟩
    cases raised
    simp [raise_ne_finished]

/-- There is usage when the server reports some, or it can be estimated. -/
theorem usageOfLines_ok_iff {lines : List String}
    (readable : ∀ line ∈ beforeMark h lines, ReadableLine h line) :
    (∃ usage, v.usageOfLines ts h prompt lines = .ok usage) ↔ v.HasUsage ts h prompt lines := by
  have reported : (∃ data ∈ framesOf h lines, ReportsUsage data) ↔ lastUsage h lines ≠ none := by
    rw [ne_eq, lastUsage_eq_none_iff readable]
    push Not
    rfl
  rw [HasUsage, reported, usageOfLines, ← textsOf_silent_iff readable]
  cases lastUsage h lines with
  | some usage => simp
  | none => simp [estimate_ok_iff]

/-- A response without an end mark that the server closes finishes the stream if and only if
the loop can read every line of it, and there is usage to report. -/
theorem attemptStream_finished_iff {body : Except PyError (List UInt8)} {lines : List String}
    (unmarked : ∀ line ∈ lines, parseSseLine h line ≠ .ok .done) :
    (∃ pieces final, v.attemptStream ts h prompt (.response 200 body lines none) =
        .finished pieces final) ↔
      (∀ line ∈ lines, ReadableLine h line) ∧ v.HasUsage ts h prompt lines := by
  rw [attemptStream_finishes_iff, beforeMark_eq_self unmarked]
  refine and_congr_right fun readable => usageOfLines_ok_iff ?_
  rwa [beforeMark_eq_self unmarked]

/-- A finished attempt ends in a chunk with usage. -/
theorem usage_of_finish {l : FrameLoop} {pieces : List PyValue} {final : VLLMChunk}
    (finished : v.finish ts prompt l = .finished pieces final) : final.usage.isSome = true := by
  unfold finish at finished
  split at finished
  · cases finished
    rfl
  · split at finished
    · cases finished
      rfl
    · exact absurd finished (raise_ne_finished _ _)

theorem usage_of_attemptStream {a : Attempt} {pieces : List PyValue} {final : VLLMChunk}
    (finished : v.attemptStream ts h prompt a = .finished pieces final) :
    final.usage.isSome = true := by
  cases a with
  | unreachable e => cases finished
  | response status body lines cut =>
      simp only [attemptStream] at finished
      split at finished
      · cases finished
      · split at finished
        · split at finished <;> cases finished
        · split at finished
          · exact absurd finished (raise_ne_finished _ _)
          · exact usage_of_finish finished
          · split at finished
            · exact absurd finished (raise_ne_finished _ _)
            · exact usage_of_finish finished

variable {upstream : ℕ → Attempt}

/-- After an attempt that is tried again the stream goes on with the next one, unless it was the last
or the back-off overflows. -/
theorem streamFrom_again {left attempt : ℕ} {f : ProviderFailure}
    (how : v.attemptStream ts h prompt (upstream attempt) = .again f) :
    v.streamFrom ts h prompt upstream (left + 1) attempt =
      if left = 0 then { chunks := [], failure := some f, requests := attempt + 1 }
      else if backoffLimit ≤ attempt then
        { chunks := [], failure := some (escaped tooLarge), requests := attempt + 1 }
      else v.streamFrom ts h prompt upstream left (attempt + 1) := by
  rw [streamFrom, how]
  rcases Nat.lt_or_ge attempt backoffLimit with early | late
  · simp only [sleepBackoff_of_lt early, if_neg (not_le.mpr early)]
  · simp only [sleepBackoff_of_le late, if_pos late]

/-- A stream that returns has yielded texts, and a chunk with usage at last. -/
theorem chunks_of_streamFrom {left attempt : ℕ}
    (returned : (v.streamFrom ts h prompt upstream left attempt).failure = none) :
    ∃ (pieces : List PyValue) (final : VLLMChunk),
      (v.streamFrom ts h prompt upstream left attempt).chunks =
        pieces.map textChunk ++ [final] ∧ final.usage.isSome = true := by
  induction left generalizing attempt with
  | zero => cases returned
  | succ left ih =>
      cases how : v.attemptStream ts h prompt (upstream attempt) with
      | finished pieces final =>
          rw [streamFrom, how]
          exact ⟨pieces, final, rfl, usage_of_attemptStream how⟩
      | failed pieces f =>
          rw [streamFrom, how] at returned
          cases returned
      | again f =>
          rw [streamFrom_again how] at returned ⊢
          split_ifs at returned ⊢
          exact ih returned

/-- Every attempt that has a back-off is tried again, and so is the next, which is not the last. -/
def Overflows (v : VLLMProvider) (retried : ℕ → Prop) : Prop :=
  (backoffLimit : ℤ) + 1 < v.maxRetries ∧ ∀ k ≤ backoffLimit, retried k

/-- The response the stream is made of: the attempts before it are tried again, and it is not,
or it is the last. -/
structure Answered (v : VLLMProvider) (ts : TextSupport) (h : PyHost) (prompt : String)
    (upstream : ℕ → Attempt) (k : ℕ) : Prop where
  before : ∀ j < k, (v.attemptStream ts h prompt (upstream j)).isAgain = true
  within : (k : ℤ) < v.maxRetries
  reached : k ≤ backoffLimit
  last : (k : ℤ) + 1 = v.maxRetries ∨ (v.attemptStream ts h prompt (upstream k)).isAgain = false

/-- Attempts that are tried again leave the rest of the loop. -/
theorem streamFrom_skip {left attempt : ℕ} (n : ℕ) (reached : attempt + n ≤ backoffLimit)
    (again : ∀ j < n, (v.attemptStream ts h prompt (upstream (attempt + j))).isAgain = true) :
    v.streamFrom ts h prompt upstream (n + left + 1) attempt =
      v.streamFrom ts h prompt upstream (left + 1) (attempt + n) := by
  induction n generalizing attempt with
  | zero => simp
  | succ n ih =>
      have first := again 0 (Nat.succ_pos n)
      rw [Nat.add_zero] at first
      rw [show n + 1 + left + 1 = n + left + 1 + 1 by omega]
      cases how : v.attemptStream ts h prompt (upstream attempt) with
      | again f =>
          rw [streamFrom_again how, if_neg (Nat.succ_ne_zero _), if_neg (by omega)]
          have rest : ∀ j < n,
              (v.attemptStream ts h prompt (upstream (attempt + 1 + j))).isAgain = true := by
            intro j lt
            simpa [Nat.add_assoc, Nat.add_comm 1] using again (j + 1) (by omega)
          rw [ih (by omega) rest, Nat.add_assoc, Nat.add_comm 1 n]
      | _ =>
          rw [how] at first
          cases first

/-- The stream returns if and only if the response it is made of finishes it. -/
theorem generateStream_returns_iff {k : ℕ} (answered : v.Answered ts h prompt upstream k) :
    (v.generateStream ts h prompt upstream).failure = none ↔
      ∃ pieces final, v.attemptStream ts h prompt (upstream k) = .finished pieces final := by
  obtain ⟨before, within, reached, last⟩ := answered
  obtain ⟨left, attempts⟩ : ∃ left, v.maxRetries.toNat = k + left + 1 :=
    ⟨v.maxRetries.toNat - k - 1, by omega⟩
  rw [generateStream, attempts,
    streamFrom_skip k (by rwa [Nat.zero_add]) (by simpa using before), Nat.zero_add, streamFrom]
  cases how : v.attemptStream ts h prompt (upstream k) with
  | finished pieces final => simp
  | failed pieces f => simp
  | again f =>
      have lastOne : left = 0 := by
        rcases last with end' | not
        · omega
        · rw [how] at not
          cases not
      simp [lastOne]

end Finish

end VLLMProvider

end LLMInference
