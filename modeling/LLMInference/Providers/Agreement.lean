import LLMInference.Providers.Upstream

/-!
The usage of one answer, buffered and streamed (`app/providers/vllm.py`).

A server need not report usage. `generate` then counts the tokens of the text with `count_tokens`;
`generate_stream` adds up the characters of the pieces and divides.

* `report_of_whole`, `report_of_split`: what the two report.
* `usage_agrees_iff`: they report the same exactly when the tokenizer, if it answers, counts the
  text as its length does.
-/

namespace LLMInference

/-- The text and the usage of a completion, if it is one. -/
def VLLMAnswer.report (r : VLLMAnswer) : Option (String × ReportedUsage) :=
  match r.outcome with
  | .ok { text := .str text, usage, .. } => some (text, usage)
  | _ => none

/-- The text of all chunks of a stream that returns, and the usage of the last. -/
def VLLMStream.report (g : VLLMStream) : Option (String × ReportedUsage) :=
  match g.failure, PyValue.join (g.chunks.map (·.text)), g.chunks.getLast?.bind (·.usage) with
  | none, .ok text, some usage => some (text, usage)
  | _, _, _ => none

/-- The tokens a length comes to, when there is one. -/
def lengthTokens (length : ℕ) (charsPerToken : ℚ) : ℤ :=
  if length = 0 then 0 else max 1 (Decimal.roundHalfEven (length / charsPerToken))

/-- The tokenizer, where it answers, counts the text as its length does. -/
def CountedByLength (ts : TextSupport) (text : String) (charsPerToken : ℚ) : Prop :=
  text = "" ∨
    ∀ n, ts.encode.bind (· text) = some n → (n : ℤ) = lengthTokens text.length charsPerToken

/-- One answer twice, without usage: in the body of a response, and split into frames. -/
structure SameAnswer (h : PyHost) (text : String) (body : PyDict) (lines : List String) : Prop where
  whole : ∃ (choice : PyDict) (rest : List PyValue),
    body.get "choices" .none = .list (.dict choice :: rest) ∧
      choice.get "text" (.str "") = .str text
  unreported : usageFrom h body = .ok none
  readable : ∀ line ∈ beforeMark h lines, ReadableLine h line
  split : ∃ pieces : List String, textsOf h lines = pieces.map .str ∧ String.join pieces = text
  silent : ∀ data ∈ framesOf h lines, ¬ReportsUsage data

section Counts

variable {ts : TextSupport} {h : PyHost} {text : String} {charsPerToken : ℚ} {data : PyDict}

theorem tokensOf_eq (positive : 0 < charsPerToken) :
    tokensOf ts text charsPerToken = .ok (countTokens ts text charsPerToken) := by
  rw [tokensOf, if_neg]
  rintro ⟨-, zero⟩
  exact positive.ne' zero

theorem countTokens_eq_iff :
    (countTokens ts text charsPerToken : ℤ) = lengthTokens text.length charsPerToken ↔
      CountedByLength ts text charsPerToken := by
  by_cases empty : text = ""
  · simp [countTokens, lengthTokens, CountedByLength, empty]
  · have some' : text.length ≠ 0 := by simpa [String.length_eq_zero_iff] using empty
    have heuristic : (((max 1 (Decimal.roundHalfEven (text.length / charsPerToken))).toNat : ℕ) : ℤ)
        = lengthTokens text.length charsPerToken := by
      rw [lengthTokens, if_neg some']
      exact Int.toNat_of_nonneg (by omega)
    rw [CountedByLength, countTokens, if_neg empty]
    cases ts.encode with
    | none => simp [empty, heuristic]
    | some encode => cases counted : encode text <;> simp [empty, heuristic, counted]

/-- The characters of the pieces are those of the text. -/
theorem textLength_sum (pieces : List String) :
    ((pieces.map PyValue.str).map textLength).sum = (String.join pieces).length := by
  induction pieces with
  | nil => rfl
  | cons piece rest ih =>
      rw [List.map_cons, List.map_cons, List.sum_cons, ih, String.join_cons, String.length_append]
      rfl

end Counts

namespace VLLMProvider

section Reports

variable {v : VLLMProvider} {ts : TextSupport} {h : PyHost} {model : ModelSpec}
  {prompt text : String} {body : PyDict} {lines : List String}

theorem estimate_eq (positive : 0 < v.charsPerToken) (length : ℕ) :
    v.estimate ts prompt length = .ok
      { inputTokens := countTokens ts prompt v.charsPerToken
        outputTokens := lengthTokens length v.charsPerToken } := by
  rw [estimate, tokensOf_eq positive, lengthTokens]
  by_cases none : length = 0
  · simp [none, bind, Except.bind, pure, Except.pure]
  · simp [none, positive.ne', bind, Except.bind, pure, Except.pure]

/-- What a stream reports that has yielded the pieces, and a last chunk with the usage. -/
theorem report_of_pieces (pieces : List String) (reason : PyValue) (usage : ReportedUsage)
    (requests : ℕ) :
    VLLMStream.report
        { chunks := (pieces.map PyValue.str).map textChunk ++
            [{ finishReason := reason, usage := some usage }]
          failure := none, requests } = some (String.join pieces, usage) := by
  have texts : ((pieces.map PyValue.str).map textChunk ++
      [({ finishReason := reason, usage := some usage } : VLLMChunk)]).map VLLMChunk.text =
        (pieces ++ [""]).map PyValue.str := by
    simp [textChunk, Function.comp_def]
  have joined : PyValue.join ((pieces ++ [""]).map PyValue.str) = .ok (String.join pieces) := by
    rw [PyValue.join_map_str, String.join_append]
    simp
  rw [VLLMStream.report, texts, joined, List.getLast?_concat]
  rfl

/-- Buffered, the tokens of the text are counted. -/
theorem report_of_whole {upstream : ℕ → HttpReply} {raw : String}
    (same : SameAnswer h text body lines) (positive : 0 < v.charsPerToken)
    (attempted : 0 < v.maxRetries)
    (buffered : upstream 0 = .response 200 raw (.ok (.dict body))) :
    (v.generate ts h model prompt upstream).report = some (text,
      { inputTokens := countTokens ts prompt v.charsPerToken
        outputTokens := countTokens ts text v.charsPerToken }) := by
  obtain ⟨choice, rest, choices, given⟩ := same.whole
  have usage : v.completionUsage ts h prompt body (.str text) = .ok
      { inputTokens := countTokens ts prompt v.charsPerToken
        outputTokens := countTokens ts text v.charsPerToken } := by
    simp [completionUsage, same.unreported, tokensOfValue, tokensOf_eq positive, bind, Except.bind,
      pure, Except.pure]
  have decides : v.Decides upstream 0 := by
    refine ⟨fun j lt => absurd lt (Nat.not_lt_zero j), attempted, Nat.zero_le _, ?_⟩
    rw [buffered, HttpReply.Retried]
    decide
  have answer : v.answerTo ts h model prompt (upstream 0) =
      (v.parseCompletion ts h model prompt (.dict body)).mapError escaped := by
    rw [buffered]
    rfl
  rw [generate_of_decides decides, answer, parseCompletion_text choices given, usage]
  rfl

/-- Streamed, the length of the text is divided. -/
theorem report_of_split {upstream : ℕ → Attempt} {raw : Except PyError (List UInt8)}
    (same : SameAnswer h text body lines) (positive : 0 < v.charsPerToken)
    (attempted : 0 < v.maxRetries) (streamed : upstream 0 = .response 200 raw lines none) :
    (v.generateStream ts h prompt upstream).report = some (text,
      { inputTokens := countTokens ts prompt v.charsPerToken
        outputTokens := lengthTokens text.length v.charsPerToken }) := by
  obtain ⟨pieces, texts, joined⟩ := same.split
  have silent : lastUsage h lines = none := (lastUsage_eq_none_iff same.readable).mpr same.silent
  have usage : v.usageOfLines ts h prompt lines = .ok
      { inputTokens := countTokens ts prompt v.charsPerToken
        outputTokens := lengthTokens text.length v.charsPerToken } := by
    rw [usageOfLines, silent, texts, textLength_sum, joined]
    exact estimate_eq positive _
  obtain ⟨left, attempts⟩ : ∃ left, v.maxRetries.toNat = left + 1 :=
    ⟨v.maxRetries.toNat - 1, by omega⟩
  rw [generateStream, attempts, streamFrom, streamed, attemptStream_readable same.readable, usage,
    texts, ← joined]
  exact report_of_pieces pieces _ _ _

/-- The two endpoints report one answer alike, text and tokens, if and only if there is an attempt
to make and the tokenizer, where it answers, counts the text as its length does. -/
theorem usage_agrees_iff {whole : ℕ → HttpReply} {split : ℕ → Attempt} {raw : String}
    {rawBody : Except PyError (List UInt8)} (same : SameAnswer h text body lines)
    (positive : 0 < v.charsPerToken) (buffered : whole 0 = .response 200 raw (.ok (.dict body)))
    (streamed : split 0 = .response 200 rawBody lines none) :
    (∃ r, (v.generate ts h model prompt whole).report = some r ∧
        (v.generateStream ts h prompt split).report = some r) ↔
      0 < v.maxRetries ∧ CountedByLength ts text v.charsPerToken := by
  by_cases attempted : 0 < v.maxRetries
  · rw [report_of_whole same positive attempted buffered,
      report_of_split same positive attempted streamed, and_iff_right attempted,
      ← countTokens_eq_iff]
    constructor
    · rintro ⟨r, here, there⟩
      rw [← here] at there
      simp only [Option.some.injEq, Prod.mk.injEq, ReportedUsage.mk.injEq, true_and] at there
      exact there.symm
    · intro counts
      rw [counts]
      exact ⟨_, rfl, rfl⟩
  · refine iff_of_false ?_ fun both => attempted both.1
    rintro ⟨r, here, -⟩
    have none' : v.maxRetries.toNat = 0 := by omega
    rw [generate, none'] at here
    cases here

end Reports

section HelloWorld

/-- Two frames of a text, and the body that carries it whole. -/
def helloFrame : String := "\x7b\"choices\": [\x7b\"text\": \"Hello,\"\x7d]\x7d"

def worldFrame : String := "\x7b\"choices\": [\x7b\"text\": \" world!\"\x7d]\x7d"

def textOnly (text : String) : PyDict := [("choices", .list [.dict [("text", .str text)]])]

def helloHost : PyHost :=
  reading [(helloFrame, .dict (textOnly "Hello,")), (worldFrame, .dict (textOnly " world!"))]

def helloLines : List String := ["data: " ++ helloFrame, "data: " ++ worldFrame, "data: [DONE]"]

theorem parse_hello : parseSseLine helloHost ("data: " ++ helloFrame) =
    .ok (.frame (textOnly "Hello,")) := by
  rfl

theorem parse_world : parseSseLine helloHost ("data: " ++ worldFrame) =
    .ok (.frame (textOnly " world!")) := by
  rfl

theorem parse_mark : parseSseLine helloHost "data: [DONE]" = .ok .done := by
  rfl

attribute [local irreducible] parseSseLine

theorem readable_textOnly {h : PyHost} {line text : String}
    (parsed : parseSseLine h line = .ok (.frame (textOnly text))) : ReadableLine h line := by
  rw [ReadableLine, parsed]
  refine ⟨fun _ => ⟨_, [], rfl, fun _ => .inl ⟨text, rfl⟩⟩, fun truth => ?_⟩
  cases truth

theorem sameAnswer_hello :
    SameAnswer helloHost "Hello, world!" (textOnly "Hello, world!") helloLines := by
  have frames : framesOf helloHost helloLines = [textOnly "Hello,", textOnly " world!"] := by
    simp only [helloLines, framesOf, parse_hello, parse_world, parse_mark]
  have before : beforeMark helloHost helloLines =
      ["data: " ++ helloFrame, "data: " ++ worldFrame] := by
    simp only [helloLines, beforeMark, List.takeWhile_cons, isMark, parse_hello,
      parse_world, parse_mark, Bool.not_false, Bool.not_true, Bool.false_eq_true, if_true,
      if_false]
  refine ⟨⟨_, [], rfl, rfl⟩, rfl, ?_, ⟨["Hello,", " world!"], ?_, rfl⟩, ?_⟩
  · rw [before, List.forall_mem_cons, List.forall_mem_singleton]
    exact ⟨readable_textOnly parse_hello, readable_textOnly parse_world⟩
  · rw [textsOf, frames]
    rfl
  · rw [frames, List.forall_mem_cons, List.forall_mem_singleton]
    constructor <;>
    · rintro ⟨counts, usage, -⟩
      cases usage

/-- Without a tokenizer both endpoints report three tokens. -/
theorem usage_agrees_iff_untokenized :
    ∃ r, (VLLMProvider.generate {} .ascii helloHost
          { name := "small", tier := .simple, inputPricePer1k := 1 / 4000,
            outputPricePer1k := 1 / 800, maxContextTokens := 16000 } "hi"
          (fun _ => .response 200 "" (.ok (.dict (textOnly "Hello, world!"))))).report = some r ∧
      (VLLMProvider.generateStream {} .ascii helloHost "hi"
        (serving (.ok []) helloLines)).report = some r := by
  have untokenized : CountedByLength .ascii "Hello, world!" 4 := by
    refine .inr fun n counted => ?_
    cases counted
  exact (usage_agrees_iff sameAnswer_hello (by decide) rfl rfl).mpr ⟨by decide, untokenized⟩

/-- A tokenizer that counts four tokens where the length comes to three. -/
def fourTokens : TextSupport :=
  { TextSupport.ascii with
    encode := some fun text => some (if text = "Hello, world!" then 4 else 1) }

/-- With it, the endpoints report one answer differently. -/
theorem tokenizer_tells_apart :
    SameAnswer helloHost "Hello, world!" (textOnly "Hello, world!") helloLines ∧
      ¬∃ r, (VLLMProvider.generate {} fourTokens helloHost
            { name := "small", tier := .simple, inputPricePer1k := 1 / 4000,
              outputPricePer1k := 1 / 800, maxContextTokens := 16000 } "hi"
            (fun _ => .response 200 "" (.ok (.dict (textOnly "Hello, world!"))))).report = some r ∧
        (VLLMProvider.generateStream {} fourTokens helloHost "hi"
          (serving (.ok []) helloLines)).report = some r := by
  refine ⟨sameAnswer_hello, ?_⟩
  rintro ⟨r, here, there⟩
  rw [report_of_whole sameAnswer_hello (by decide) (by decide) rfl] at here
  rw [report_of_split sameAnswer_hello (by decide) (by decide) rfl, ← here] at there
  simp only [Option.some.injEq, Prod.mk.injEq, ReportedUsage.mk.injEq, true_and] at there
  revert there
  decide +kernel

end HelloWorld

end VLLMProvider

end LLMInference
