import LLMInference.Service.Relay

/-!
Streams a vLLM server cuts short (`app/providers/vllm.py`, `app/service.py`).

A server signals that a stream is complete by an end mark or a finish reason. The provider
asks for neither: where the lines just end, it makes up a final chunk, and the service stores
the text and reports a normal end.

`truncated_stream_iff`: a stream without a signal is told from a complete one only when
something in it brings the provider's loop down.
-/

namespace LLMInference

/-- The line signals completion: it is the end mark, or a frame whose first choice has a finish
reason. -/
def Signals (h : PyHost) (line : String) : Prop :=
  parseSseLine h line = .ok .done ∨
    ∃ (data choice : PyDict) (rest : List PyValue), parseSseLine h line = .ok (.frame data) ∧
      data.get "choices" .none = .list (.dict choice :: rest) ∧
      (choice.get "finish_reason" .none).truthy = true

/-- Nothing is stored, and no normal end is reported. -/
def Relay.Refused (r : Relay) : Prop := r.stored = none ∧ r.ended = false

section Truncated

variable {v : VLLMProvider} {ts : TextSupport} {h : PyHost} {s : Settings} {d : RoutingDecision}
  {prompt : String} {upstream : ℕ → Attempt}

/-- The stream of the provider is refused exactly when the provider raises. -/
theorem refused_iff_raises :
    (relay ts s d (v.generateStream ts h prompt upstream)).Refused ↔
      (v.generateStream ts h prompt upstream).failure ≠ none := by
  cases how : (v.generateStream ts h prompt upstream).failure with
  | some f => exact iff_of_true (relay_of_failure how) (Option.some_ne_none f)
  | none =>
      obtain ⟨pieces, final, chunks, usage⟩ := VLLMProvider.chunks_of_streamFrom how
      have ended : (relay ts s d (v.generateStream ts h prompt upstream)).ended = true :=
        relay_of_return how chunks usage
      refine iff_of_false ?_ (not_not_intro rfl)
      rintro ⟨-, refused⟩
      rw [ended] at refused
      cases refused

/-- A response that closes without a signal is refused, by the cache and by the stream, if and only
if one of its lines cannot be read, or the final chunk has no usage. -/
theorem truncated_stream_iff {k : ℕ} {body : Except PyError (List UInt8)} {lines : List String}
    (answered : v.Answered ts h prompt upstream k)
    (closed : upstream k = .response 200 body lines none)
    (unsignalled : ∀ line ∈ lines, ¬Signals h line) :
    (relay ts s d (v.generateStream ts h prompt upstream)).Refused ↔
      (∃ line ∈ lines, ¬ReadableLine h line) ∨ ¬v.HasUsage ts h prompt lines := by
  have unmarked : ∀ line ∈ lines, parseSseLine h line ≠ .ok .done :=
    fun line mem done => unsignalled line mem (.inl done)
  rw [refused_iff_raises, ne_eq, VLLMProvider.generateStream_returns_iff answered, closed,
    VLLMProvider.attemptStream_finished_iff unmarked, not_and_or]
  simp only [not_forall, exists_prop]

end Truncated

section OneFrame

/-- A decoder that knows one document. -/
def knowing (document : String) (value : PyValue) : PyHost where
  loads text :=
    if text = document then .ok value
    else .error ⟨"JSONDecodeError", "Expecting value: line 1 column 1 (char 0)"⟩
  intOf := String.toInt?
  repr text := "'" ++ text ++ "'"

/-- A server that sends one frame and closes. -/
def sending (document : String) : ℕ → Attempt :=
  fun _ => .response 200 (.ok []) ["data: " ++ document, ""] none

/-- A choice without text or reason. -/
def nullChoice : String := "\x7b\"choices\": [null]\x7d"

def nullChoiceValue : PyDict := [("choices", .list [.none])]

/-- The beginning of an answer. -/
def beginning : String := "\x7b\"choices\": [\x7b\"text\": \"The capital of\"\x7d]\x7d"

def beginningValue : PyDict := [("choices", .list [.dict [("text", .str "The capital of")]])]

def smallDecision : RoutingDecision where
  model :=
    { name := "small", tier := .simple, inputPricePer1k := 1 / 4000, outputPricePer1k := 1 / 800,
      maxContextTokens := 16000 }
  complexity := { tier := .simple, score := 0 }
  inputTokens := 1
  projectedOutputTokens := 384
  projectedCost := 481 / 10 ^ 6
  downgraded := false
  notes := []

theorem not_signals_skip {h : PyHost} {line : String} (parsed : parseSseLine h line = .ok .skip) :
    ¬Signals h line := by
  rintro (done | ⟨data, choice, rest, frame, -⟩)
  · cases parsed.symm.trans done
  · cases parsed.symm.trans frame

/-- Cut after a frame the loop cannot read, the stream is refused. -/
theorem truncated_stream_iff_null_choice :
    (relay .ascii {} smallDecision (VLLMProvider.generateStream {} .ascii
      (knowing nullChoice (.dict nullChoiceValue)) "hi" (sending nullChoice))).Refused := by
  let h := knowing nullChoice (.dict nullChoiceValue)
  have parsed : parseSseLine h ("data: " ++ nullChoice) = .ok (.frame nullChoiceValue) := by rfl
  have blank : parseSseLine h "" = .ok .skip := by rfl
  have answered : VLLMProvider.Answered {} .ascii h "hi" (sending nullChoice) 0 :=
    ⟨fun j lt => absurd lt (Nat.not_lt_zero j), by decide, Nat.zero_le _, .inr (by decide +kernel)⟩
  have unsignalled : ∀ line ∈ ["data: " ++ nullChoice, ""], ¬Signals h line := by
    rw [List.forall_mem_cons, List.forall_mem_singleton]
    refine ⟨?_, not_signals_skip blank⟩
    rintro (done | ⟨data, choice, rest, frame, choices, -⟩)
    · cases parsed.symm.trans done
    · cases parsed.symm.trans frame
      cases choices
  refine (truncated_stream_iff answered rfl unsignalled).mpr (.inl ⟨_, List.mem_cons_self, ?_⟩)
  rw [ReadableLine, parsed]
  rintro ⟨readable, -⟩
  obtain ⟨choice, rest, choices, -⟩ := readable rfl
  cases choices

/-- Cut after the beginning of an answer, it is reported as complete, and stored. -/
theorem beginning_is_stored :
    let h := knowing beginning (.dict beginningValue)
    let r := relay .ascii {} smallDecision
      (VLLMProvider.generateStream {} .ascii h "hi" (sending beginning))
    VLLMProvider.Answered {} .ascii h "hi" (sending beginning) 0 ∧
      (∀ line ∈ ["data: " ++ beginning, ""], ¬Signals h line) ∧
      r.stored = some ("The capital of", ⟨1, 4⟩) ∧ r.ended = true := by
  intro h r
  have parsed : parseSseLine h ("data: " ++ beginning) = .ok (.frame beginningValue) := by rfl
  refine ⟨⟨fun j lt => absurd lt (Nat.not_lt_zero j), by decide, Nat.zero_le _,
    .inr (by decide +kernel)⟩, ?_, by decide +kernel⟩
  rw [List.forall_mem_cons, List.forall_mem_singleton]
  refine ⟨?_, not_signals_skip (by rfl)⟩
  rintro (done | ⟨data, choice, rest, frame, choices, reason⟩)
  · cases parsed.symm.trans done
  · cases parsed.symm.trans frame
    cases choices
    cases reason

end OneFrame

end LLMInference
