import LLMInference.Providers.Retries

/-!
Malformed frames in a stream (`app/providers/vllm.py`, `_parse_sse_line`).

The module promises that malformed frames are skipped. `_parse_sse_line` skips the lines that are
no JSON object; an object goes into the loop, whatever its fields are.

* `WellFormed` lines are completion frames and the end mark; all other lines are inserted.
* `skips_malformed_iff`: the inserted lines make no difference exactly when the stream is
  `Undisturbed`: the loop reads them all, none has a text, and the last reason and the usage
  are those of the well-formed lines.
-/

namespace LLMInference

/-! ### What is well formed -/

/-- The type of a text. -/
def isText : PyValue → Bool
  | .str _ => true
  | _ => false

/-- The type of a finish reason. -/
def isReason : PyValue → Bool
  | .none => true
  | .str _ => true
  | _ => false

/-- The type of a token count. -/
def isCount : PyValue → Bool
  | .none => true
  | .int _ => true
  | _ => false

/-- A choice: an object whose text and finish reason, where present, have their types. -/
def wellFormedChoice : PyValue → Bool
  | .dict fields =>
      (fields.lookup "text").all isText &&
        (fields.lookup "finish_reason").all isReason
  | _ => false

/-- The choices: a list of them. -/
def wellFormedChoices : PyValue → Bool
  | .list choices => choices.all wellFormedChoice
  | _ => false

/-- The usage: an object of token counts, or null. -/
def wellFormedUsage : PyValue → Bool
  | .none => true
  | .dict counts =>
      (counts.lookup "prompt_tokens").all isCount &&
        (counts.lookup "completion_tokens").all isCount
  | _ => false

/-- A completion frame: it has choices or usage, each of its type. -/
def wellFormedFrame (data : PyDict) : Bool :=
  ((data.lookup "choices").isSome || (data.lookup "usage").isSome) &&
    (data.lookup "choices").all wellFormedChoices && (data.lookup "usage").all wellFormedUsage

/-- A line of a completion: one of its frames, or the end mark. -/
def wellFormedLine (h : PyHost) (line : String) : Bool :=
  match parseSseLine h line with
  | .ok .done => true
  | .ok (.frame data) => wellFormedFrame data
  | _ => false

section WellFormed

-- a line stays what it parses to
attribute [local irreducible] parseSseLine

variable {h : PyHost} {data : PyDict} {line : String} {lines : List String}

theorem PyDict.get_of_lookup {key : String} {x default : PyValue}
    (present : data.lookup key = some x) : data.get key default = x := by
  rw [PyDict.get, present]
  rfl

theorem PyDict.lookup_of_truthy {key : String} (truth : (data.get key .none).truthy = true) :
    data.lookup key = some (data.get key .none) := by
  unfold PyDict.get at truth ⊢
  cases looked : data.lookup key with
  | none =>
      rw [looked] at truth
      cases truth
  | some x => rfl

theorem sized_of_isText {x : PyValue} (text : isText x = true) : x.Sized := by
  cases x with
  | str s => exact .inl ⟨s, rfl⟩
  | _ => cases text

theorem integral_of_isCount {x : PyValue} (count : isCount x = true) (truth : x.truthy = true) :
    x.Integral h := by
  cases x with
  | int n => trivial
  | none => cases truth
  | _ => cases count

theorem readableChoice_of_wellFormed (wellFormed : wellFormedFrame data = true) :
    ReadableChoice data := by
  simp only [wellFormedFrame, Bool.and_eq_true] at wellFormed
  obtain ⟨⟨-, typed⟩, -⟩ := wellFormed
  intro truth
  rw [PyDict.lookup_of_truthy truth, Option.all_some] at typed
  generalize data.get "choices" .none = choices at truth typed
  cases choices with
  | list items =>
      cases items with
      | nil => cases truth
      | cons choice rest =>
          simp only [wellFormedChoices, List.all_cons, Bool.and_eq_true] at typed
          obtain ⟨typed, -⟩ := typed
          cases choice with
          | dict fields =>
              simp only [wellFormedChoice, Bool.and_eq_true] at typed
              refine ⟨fields, rest, rfl, fun _ => ?_⟩
              cases text : fields.lookup "text" with
              | none => exact .inl ⟨"", by rw [PyDict.get, text, Option.getD_none]⟩
              | some x =>
                  rw [text, Option.all_some] at typed
                  rw [PyDict.get_of_lookup text]
                  exact sized_of_isText typed.1
          | _ => cases typed
  | _ => cases typed

theorem readableUsage_of_wellFormed (wellFormed : wellFormedFrame data = true) :
    ReadableUsage h data := by
  simp only [wellFormedFrame, Bool.and_eq_true] at wellFormed
  obtain ⟨-, typed⟩ := wellFormed
  have count : ∀ (c : PyDict) (key : String), (c.lookup key).all isCount = true →
      (c.get key .none).truthy = true → (c.get key .none).Integral h := by
    intro c key typed truth
    rw [PyDict.lookup_of_truthy truth, Option.all_some] at typed
    exact integral_of_isCount typed truth
  intro truth
  rw [PyDict.lookup_of_truthy truth, Option.all_some] at typed
  generalize data.get "usage" .none = usage at truth typed
  cases usage with
  | dict c =>
      simp only [wellFormedUsage, Bool.and_eq_true] at typed
      exact ⟨c, rfl, count c _ typed.1, count c _ typed.2⟩
  | none => cases truth
  | _ => cases typed

/-- The loop reads every line of a completion. -/
theorem readableLine_of_wellFormed (wellFormed : wellFormedLine h line = true) :
    ReadableLine h line := by
  unfold wellFormedLine at wellFormed
  cases parsed : parseSseLine h line with
  | error e =>
      rw [parsed] at wellFormed
      cases wellFormed
  | ok sse =>
      rw [parsed] at wellFormed
      cases sse with
      | skip => cases wellFormed
      | done => simp [ReadableLine, parsed]
      | frame data =>
          rw [ReadableLine, parsed]
          exact ⟨readableChoice_of_wellFormed wellFormed, readableUsage_of_wellFormed wellFormed⟩

/-- The lines before the mark, without the inserted ones. -/
theorem beforeMark_filter : beforeMark h (lines.filter (wellFormedLine h)) =
    (beforeMark h lines).filter (wellFormedLine h) := by
  induction lines with
  | nil => rfl
  | cons line rest ih =>
      unfold beforeMark at ih ⊢
      by_cases mark : isMark h line = true
      · have wellFormed : wellFormedLine h line = true := by
          rw [wellFormedLine, isMark_iff.mp mark]
        simp [wellFormed, mark]
      · rw [List.takeWhile_cons_of_pos (by simpa using mark)]
        by_cases wellFormed : wellFormedLine h line = true
        · rw [List.filter_cons_of_pos wellFormed, List.filter_cons_of_pos wellFormed,
            List.takeWhile_cons_of_pos (by simpa using mark), ih]
        · rw [List.filter_cons_of_neg wellFormed, List.filter_cons_of_neg wellFormed, ih]

/-- The frames, without the inserted ones. -/
theorem framesOf_filter (readable : ∀ line ∈ beforeMark h lines, ReadableLine h line) :
    framesOf h (lines.filter (wellFormedLine h)) = (framesOf h lines).filter wellFormedFrame := by
  induction lines with
  | nil => rfl
  | cons line rest ih =>
      by_cases mark : isMark h line = true
      · have parsed := isMark_iff.mp mark
        have wellFormed : wellFormedLine h line = true := by rw [wellFormedLine, parsed]
        simp [List.filter_cons_of_pos wellFormed, framesOf, parsed]
      · simp only [beforeMark, List.takeWhile_cons, mark, Bool.not_false, if_true,
          List.forall_mem_cons] at readable
        obtain ⟨here, after⟩ := readable
        rw [isMark_iff] at mark
        cases parsed : parseSseLine h line with
        | error e => simp [ReadableLine, parsed] at here
        | ok sse =>
            cases sse with
            | skip => simp [wellFormedLine, framesOf, parsed, ih after]
            | done => exact absurd parsed mark
            | frame data =>
                have same : wellFormedLine h line = wellFormedFrame data := by
                  rw [wellFormedLine, parsed]
                simp only [List.filter_cons, framesOf, parsed, same]
                split
                · simp [framesOf, parsed, ih after]
                · exact ih after

end WellFormed

/-- What is kept maps to what all maps to exactly when the rest maps to nothing. -/
theorem filterMap_filter_eq_iff {α β : Type} {p : α → Bool} {f : α → Option β} {xs : List α} :
    xs.filterMap f = (xs.filter p).filterMap f ↔ ∀ x ∈ xs, p x = false → f x = none := by
  induction xs with
  | nil => simp
  | cons x rest ih =>
      rw [List.forall_mem_cons]
      cases kept : p x with
      | true =>
          rw [List.filter_cons_of_pos kept, List.filterMap_cons, List.filterMap_cons]
          cases f x <;> simp [ih]
      | false =>
          rw [List.filter_cons_of_neg (by simp [kept]), List.filterMap_cons]
          cases image : f x with
          | none => simp [ih]
          | some y =>
              refine iff_of_false (fun same => ?_) (by simp)
              have fewer : ((rest.filter p).filterMap f).length ≤ (rest.filterMap f).length :=
                (List.filter_sublist.filterMap f).length_le
              rw [← same, List.length_cons] at fewer
              omega

/-! ### The stream -/

/-- A server that answers every request with the lines, and closes. -/
def serving (body : Except PyError (List UInt8)) (lines : List String) : ℕ → Attempt :=
  fun _ => .response 200 body lines none

namespace VLLMProvider

/-- The stream is the one of the well-formed lines, and does not raise. -/
def SkipsMalformed (v : VLLMProvider) (ts : TextSupport) (h : PyHost) (prompt : String)
    (body : Except PyError (List UInt8)) (lines : List String) : Prop :=
  let g := v.generateStream ts h prompt (serving body lines)
  let kept := v.generateStream ts h prompt (serving body (lines.filter (wellFormedLine h)))
  g.failure = none ∧ g.chunks = kept.chunks

/-- The inserted lines up to the end mark leave the stream alone. -/
structure Undisturbed (v : VLLMProvider) (ts : TextSupport) (h : PyHost) (prompt : String)
    (lines : List String) : Prop where
  attempted : 0 < v.maxRetries
  readable : ∀ line ∈ beforeMark h lines, wellFormedLine h line = false → ReadableLine h line
  textless : ∀ data ∈ framesOf h lines, wellFormedFrame data = false → frameText data = none
  reason : lastReason h lines = lastReason h (lines.filter (wellFormedLine h))
  usage : ∃ u, v.usageOfLines ts h prompt lines = .ok u ∧
    v.usageOfLines ts h prompt (lines.filter (wellFormedLine h)) = .ok u

section Serving

attribute [local irreducible] parseSseLine

variable {v : VLLMProvider} {ts : TextSupport} {h : PyHost} {prompt : String} {a : Attempt}
  {body : Except PyError (List UInt8)} {lines : List String}

/-- When every attempt meets the same, the stream returns if and only if there is one that
finishes. -/
theorem streamFrom_constant {left attempt : ℕ} :
    (v.streamFrom ts h prompt (fun _ => a) left attempt).failure = none ↔
      0 < left ∧ ∃ pieces final, v.attemptStream ts h prompt a = .finished pieces final := by
  induction left generalizing attempt with
  | zero => simp [streamFrom]
  | succ left ih =>
      cases how : v.attemptStream ts h prompt a with
      | finished pieces final => simp [streamFrom, how]
      | failed pieces f => simp [streamFrom, how]
      | again f =>
          rw [streamFrom_again how]
          split_ifs
          · simp
          · simp
          · simp [ih, how]

theorem serving_returns_iff :
    (v.generateStream ts h prompt (serving body lines)).failure = none ↔
      0 < v.maxRetries ∧ (∀ line ∈ beforeMark h lines, ReadableLine h line) ∧
        ∃ u, v.usageOfLines ts h prompt lines = .ok u := by
  unfold generateStream serving
  rw [streamFrom_constant, attemptStream_finishes_iff]
  simp

/-- The chunks of lines that are read, when there is usage. -/
theorem chunks_of_serving (body : Except PyError (List UInt8)) {u : ReportedUsage}
    (attempted : 0 < v.maxRetries) (readable : ∀ line ∈ beforeMark h lines, ReadableLine h line)
    (usage : v.usageOfLines ts h prompt lines = .ok u) :
    (v.generateStream ts h prompt (serving body lines)).chunks =
      (textsOf h lines).map textChunk ++
        [{ finishReason := lastReason h lines, usage := some u }] := by
  obtain ⟨left, attempts⟩ : ∃ left, v.maxRetries.toNat = left + 1 :=
    ⟨v.maxRetries.toNat - 1, by omega⟩
  unfold generateStream serving
  rw [attempts, streamFrom, attemptStream_readable readable, usage]

/-- A stream that raises has not yielded usage. -/
theorem returned_of_usage {upstream : ℕ → Attempt} {c : VLLMChunk}
    (mem : c ∈ (v.generateStream ts h prompt upstream).chunks) (usage : c.usage.isSome = true) :
    (v.generateStream ts h prompt upstream).failure = none := by
  obtain ⟨-, -, -, returned | ⟨f, -, silent⟩⟩ :
      StreamSpec h upstream 0 v.maxRetries.toNat (v.generateStream ts h prompt upstream) :=
    streamSpec_streamFrom v.maxRetries.toNat 0
  · exact returned.1
  · rw [silent c mem] at usage
    cases usage

theorem map_textChunk_append_inj {pieces pieces' : List PyValue} {final final' : VLLMChunk} :
    pieces.map textChunk ++ [final] = pieces'.map textChunk ++ [final'] ↔
      pieces = pieces' ∧ final = final' := by
  constructor
  · intro same
    obtain ⟨texts, last⟩ := List.append_inj' same rfl
    refine ⟨?_, List.singleton_inj.mp last⟩
    rw [← texts_map_textChunk pieces, texts, texts_map_textChunk]
  · rintro ⟨rfl, rfl⟩
    rfl

/-- The well-formed lines are read. -/
theorem readable_filter :
    ∀ line ∈ beforeMark h (lines.filter (wellFormedLine h)), ReadableLine h line := by
  intro line mem
  rw [beforeMark_filter, List.mem_filter] at mem
  exact readableLine_of_wellFormed mem.2

/-- All lines are read when the inserted ones are. -/
theorem readable_iff : (∀ line ∈ beforeMark h lines, ReadableLine h line) ↔
    ∀ line ∈ beforeMark h lines, wellFormedLine h line = false → ReadableLine h line := by
  constructor
  · exact fun all line mem _ => all line mem
  · intro inserted line mem
    cases wellFormed : wellFormedLine h line with
    | true => exact readableLine_of_wellFormed wellFormed
    | false => exact inserted line mem wellFormed

/-- The texts are those of the well-formed lines when the inserted frames have none. -/
theorem textsOf_filter_iff (readable : ∀ line ∈ beforeMark h lines, ReadableLine h line) :
    textsOf h lines = textsOf h (lines.filter (wellFormedLine h)) ↔
      ∀ data ∈ framesOf h lines, wellFormedFrame data = false → frameText data = none := by
  rw [textsOf, textsOf, framesOf_filter readable, filterMap_filter_eq_iff]

/-- Malformed lines make no difference to a stream if and only if they leave it undisturbed: each
one can be read, none has a text, and the last reason and the usage are those of the well-formed
lines. -/
theorem skips_malformed_iff (v : VLLMProvider) (ts : TextSupport) (h : PyHost) (prompt : String)
    (body : Except PyError (List UInt8)) (lines : List String) :
    v.SkipsMalformed ts h prompt body lines ↔ v.Undisturbed ts h prompt lines := by
  constructor
  · rintro ⟨returned, same⟩
    obtain ⟨attempted, readable, u, usage⟩ := serving_returns_iff.mp returned
    have chunks := chunks_of_serving body attempted readable usage
    -- the last chunk of the one stream carries usage, so the other has returned as well
    have last : ({ finishReason := lastReason h lines, usage := some u } : VLLMChunk) ∈
        (v.generateStream ts h prompt (serving body (lines.filter (wellFormedLine h)))).chunks := by
      rw [← same, chunks]
      exact List.mem_append_right _ List.mem_cons_self
    obtain ⟨-, readable', u', usage'⟩ := serving_returns_iff.mp (returned_of_usage last rfl)
    rw [chunks, chunks_of_serving body attempted readable' usage', map_textChunk_append_inj] at same
    obtain ⟨texts, final⟩ := same
    simp only [VLLMChunk.mk.injEq, Option.some.injEq, true_and] at final
    obtain ⟨reason, rfl⟩ := final
    exact ⟨attempted, readable_iff.mp readable, (textsOf_filter_iff readable).mp texts, reason,
      u, usage, usage'⟩
  · rintro ⟨attempted, inserted, textless, reason, u, usage, usage'⟩
    have readable := readable_iff.mpr inserted
    refine ⟨serving_returns_iff.mpr ⟨attempted, readable, u, usage⟩, ?_⟩
    rw [chunks_of_serving body attempted readable usage,
      chunks_of_serving body attempted readable_filter usage',
      (textsOf_filter_iff readable).mpr textless, reason]

/-- A line that cannot be read brings the stream down. -/
theorem not_skips_of_unreadable {line : String} (before : line ∈ beforeMark h lines)
    (unreadable : ¬ReadableLine h line) : ¬v.SkipsMalformed ts h prompt body lines := by
  rintro ⟨returned, -⟩
  obtain ⟨-, readable, -⟩ := serving_returns_iff.mp returned
  exact unreadable (readable line before)

end Serving

/-- A decoder that knows some documents. -/
def reading (documents : List (String × PyValue)) : PyHost where
  loads text :=
    match documents.lookup text with
    | some value => .ok value
    | none => .error ⟨"JSONDecodeError", "Expecting value: line 1 column 1 (char 0)"⟩
  intOf := String.toInt?
  repr text := "'" ++ text ++ "'"

/-- A frame with a text, and one whose choice is null. -/
def parisFrame : String := "\x7b\"choices\": [\x7b\"text\": \"Paris\"\x7d]\x7d"

def nullFrame : String := "\x7b\"choices\": [null]\x7d"

def parisValue : PyDict := [("choices", .list [.dict [("text", .str "Paris")]])]

def nullValue : PyDict := [("choices", .list [.none])]

/-- A null choice after the text of a complete answer brings its stream down. -/
theorem null_choice_raises :
    let h := reading [(parisFrame, .dict parisValue), (nullFrame, .dict nullValue)]
    let lines := ["data: " ++ parisFrame, "data: " ++ nullFrame, "data: [DONE]"]
    lines.filter (wellFormedLine h) = ["data: " ++ parisFrame, "data: [DONE]"] ∧
      (VLLMProvider.generateStream {} .ascii h "hi"
        (serving (.ok []) (lines.filter (wellFormedLine h)))).failure = none ∧
      ¬VLLMProvider.SkipsMalformed {} .ascii h "hi" (.ok []) lines := by
  intro h lines
  have paris : parseSseLine h ("data: " ++ parisFrame) = .ok (.frame parisValue) := by rfl
  have null : parseSseLine h ("data: " ++ nullFrame) = .ok (.frame nullValue) := by rfl
  have mark : parseSseLine h "data: [DONE]" = .ok .done := by rfl
  have wellFormed : wellFormedLine h ("data: " ++ parisFrame) = true := by
    rw [wellFormedLine, paris]
    rfl
  have malformed : wellFormedLine h ("data: " ++ nullFrame) = false := by
    rw [wellFormedLine, null]
    rfl
  have marked : wellFormedLine h "data: [DONE]" = true := by rw [wellFormedLine, mark]
  have kept : lines.filter (wellFormedLine h) = ["data: " ++ parisFrame, "data: [DONE]"] := by
    simp [lines, wellFormed, malformed, marked]
  refine ⟨kept, ?_, ?_⟩
  · have frames : framesOf h (lines.filter (wellFormedLine h)) = [parisValue] := by
      rw [kept]
      simp only [framesOf, paris, mark]
    have usage : VLLMProvider.usageOfLines {} .ascii h "hi" (lines.filter (wellFormedLine h)) =
        .ok ⟨1, 1⟩ := by
      rw [usageOfLines, lastUsage, textsOf, frames]
      decide +kernel
    exact serving_returns_iff.mpr ⟨by decide, readable_filter, _, usage⟩
  · have before : "data: " ++ nullFrame ∈ beforeMark h lines := by
      simp only [lines, beforeMark, List.takeWhile_cons, isMark, paris, null, Bool.not_false,
        if_true, List.mem_cons, true_or, or_true]
    refine not_skips_of_unreadable before ?_
    rw [ReadableLine, null]
    rintro ⟨readable, -⟩
    obtain ⟨choice, rest, choices, -⟩ := readable rfl
    cases choices

end VLLMProvider

end LLMInference
