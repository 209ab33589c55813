import Mathlib.Data.List.TakeWhile
import LLMInference.Providers.Vllm

/-!
What the line loop of the vLLM provider reads, and what it comes to.

A frame may be any JSON object. `ReadableChoice` and `ReadableUsage` say which objects the loop
gets through without an exception (`frameStep_ok_iff`). A frame may carry a text, a finish reason
and a usage, and the loop absorbs the three one frame after the other.

* `readLines_readable`: when it can read every line up to the end mark, the loop has absorbed the
  `framesOf` the response.
* `readLines_raises_iff`: otherwise it raises.
-/

namespace LLMInference

/-- The first choice, if there are choices, is an object, and its text has a length. -/
def ReadableChoice (data : PyDict) : Prop :=
  let choices := data.get "choices" .none
  choices.truthy = true → ∃ (choice : PyDict) (rest : List PyValue),
    choices = .list (.dict choice :: rest) ∧
      ((choice.get "text" (.str "")).truthy = true → (choice.get "text" (.str "")).Sized)

/-- The usage, if there is one, is an object whose token counts, if there are any, stand for
integers. -/
def ReadableUsage (h : PyHost) (data : PyDict) : Prop :=
  let usage := data.get "usage" .none
  let counts (c : PyDict) (key : String) :=
    (c.get key .none).truthy = true → (c.get key .none).Integral h
  usage.truthy = true → ∃ c : PyDict, usage = .dict c ∧
    counts c "prompt_tokens" ∧ counts c "completion_tokens"

/-- The text a frame carries, if it carries one. -/
def frameText (data : PyDict) : Option PyValue :=
  match data.get "choices" .none with
  | .list (.dict choice :: _) => some (PyDict.get choice "text" (.str "")) |>.filter PyValue.truthy
  | _ => none

/-- The frame reports usage. -/
def ReportsUsage (data : PyDict) : Prop :=
  ∃ c : PyDict, data.get "usage" .none = .dict c ∧
    ¬(c.get "prompt_tokens" .none = .none ∧ c.get "completion_tokens" .none = .none)

/-- The line is a frame the loop can read, or none at all. -/
def ReadableLine (h : PyHost) (line : String) : Prop :=
  match parseSseLine h line with
  | .error _ => False
  | .ok (.frame data) => ReadableChoice data ∧ ReadableUsage h data
  | .ok _ => True

section Reading

variable {h : PyHost} {l l' : FrameLoop} {data : PyDict} {line : String} {lines : List String}

theorem takeChoice_ok_iff {choice : PyValue} :
    (∃ l', takeChoice l choice = .ok l') ↔ ∃ fields : PyDict, choice = .dict fields ∧
      ((fields.get "text" (.str "")).truthy = true → (fields.get "text" (.str "")).Sized) := by
  cases choice with
  | dict fields =>
      simp only [takeChoice, PyValue.get, PyValue.dict.injEq, exists_eq_left', bind, Except.bind,
        PyValue.truthy_orElse (y := .str "") rfl]
      cases given : (PyDict.get fields "text" (.str "")).truthy with
      | false => simp [pure, Except.pure]
      | true =>
          simp only [PyValue.orElse_of_truthy given, if_true, forall_const, ← PyValue.len_ok_iff]
          cases (PyDict.get fields "text" (.str "")).len <;> simp [pure, Except.pure]
  | _ => simp [takeChoice, PyValue.get, bind, Except.bind]

theorem choiceStep_ok_iff : (∃ l', choiceStep l data = .ok l') ↔ ReadableChoice data := by
  simp only [choiceStep, ReadableChoice, PyValue.truthy_orElse (y := .list []) rfl]
  cases given : (data.get "choices" .none).truthy with
  | false => simp
  | true =>
      simp only [PyValue.orElse_of_truthy given, if_true, forall_const, exists_bind_ok_iff,
        takeChoice_ok_iff]
      constructor
      · rintro ⟨choice, here, fields, rfl, sized⟩
        obtain ⟨rest, choices⟩ := PyValue.first_eq_dict_iff.mp here
        exact ⟨fields, rest, choices, sized⟩
      · rintro ⟨fields, rest, choices, sized⟩
        exact ⟨_, PyValue.first_eq_dict_iff.mpr ⟨rest, choices⟩, fields, rfl, sized⟩

theorem usageOf_ok_iff {p c : PyValue} : (∃ u, usageOf h p c = .ok u) ↔
    (p.truthy = true → p.Integral h) ∧ (c.truthy = true → c.Integral h) := by
  rw [← PyValue.toInt_orElse_ok_iff (m := 0), ← PyValue.toInt_orElse_ok_iff (m := 0)]
  unfold usageOf
  split
  · rename_i absent
    cases p <;> cases c <;> simp [PyValue.isNone] at absent
    simp [PyValue.orElse, PyValue.truthy, PyValue.toInt]
  · simp only [exists_bind_ok_iff]
    constructor
    · rintro ⟨i, input, o, output, -⟩
      exact ⟨⟨i, input⟩, o, output⟩
    · rintro ⟨⟨i, input⟩, o, output⟩
      exact ⟨i, input, o, output, _, rfl⟩

theorem usageFrom_ok_iff : (∃ u, usageFrom h data = .ok u) ↔ ReadableUsage h data := by
  simp only [usageFrom, ReadableUsage]
  cases given : (data.get "usage" .none).truthy with
  | false => simp
  | true =>
      simp only [if_true, forall_const, exists_bind_ok_iff, PyValue.get_eq_ok_iff, usageOf_ok_iff]
      constructor
      · rintro ⟨p, ⟨counts, usage, rfl⟩, c, ⟨counts', usage', rfl⟩, integral⟩
        cases usage.symm.trans usage'
        exact ⟨counts, usage, integral⟩
      · rintro ⟨counts, usage, integral⟩
        exact ⟨_, ⟨counts, usage, rfl⟩, _, ⟨counts, usage, rfl⟩, integral⟩

/-- A frame is read if and only if both of its parts can be. -/
theorem frameStep_ok_iff :
    (frameStep h l data).2 = none ↔ ReadableChoice data ∧ ReadableUsage h data := by
  rw [← choiceStep_ok_iff (l := { l with started := true }), ← usageFrom_ok_iff (h := h)]
  cases chosen : choiceStep { l with started := true } data with
  | error e => simp [frameStep, chosen]
  | ok l' => cases used : usageFrom h data <;> simp [frameStep, chosen, used]

/-- A frame's usage is there when the frame reports some. -/
theorem usageFrom_spec {u : Option ReportedUsage} (used : usageFrom h data = .ok u) :
    u = none ↔ ¬ReportsUsage data := by
  simp only [usageFrom] at used
  cases given : (data.get "usage" .none).truthy with
  | false =>
      simp only [given, Bool.false_eq_true, if_false] at used
      cases used
      refine iff_of_true rfl ?_
      rintro ⟨c, usage, some'⟩
      rw [usage] at given
      have empty : c = [] := by simpa [PyValue.truthy] using given
      exact some' (empty ▸ ⟨rfl, rfl⟩)
  | true =>
      simp only [given, if_true, bind_eq_ok_iff, PyValue.get_eq_ok_iff] at used
      obtain ⟨p, ⟨counts, usage, rfl⟩, c, ⟨counts', usage', rfl⟩, used⟩ := used
      cases usage.symm.trans usage'
      unfold usageOf at used
      split at used
      · rename_i absent
        cases used
        refine iff_of_true rfl ?_
        rintro ⟨c, here, some'⟩
        cases usage.symm.trans here
        rw [Bool.and_eq_true, PyValue.isNone_iff, PyValue.isNone_iff] at absent
        exact some' absent
      · rename_i present
        simp only [bind_eq_ok_iff] at used
        obtain ⟨i, -, o, -, used⟩ := used
        cases used
        refine iff_of_false (Option.some_ne_none _) (not_not_intro ⟨counts, usage, ?_⟩)
        rwa [Bool.and_eq_true, PyValue.isNone_iff, PyValue.isNone_iff] at present

end Reading

/-- The finish reason a frame gives, if it gives one. -/
def frameReason (data : PyDict) : Option PyValue :=
  match data.get "choices" .none with
  | .list (.dict choice :: _) =>
      some (PyDict.get choice "finish_reason" .none) |>.filter PyValue.truthy
  | _ => none

/-- The usage a frame reports, if it reports one. -/
def frameUsage (h : PyHost) (data : PyDict) : Option ReportedUsage :=
  match usageFrom h data with
  | .ok usage => usage
  | .error _ => none

/-- What a text adds to the count of characters. -/
def textLength (text : PyValue) : ℕ :=
  match text.len with
  | .ok n => n
  | .error _ => 0

/-- The loop after a frame that it can read. -/
def FrameLoop.absorb (h : PyHost) (l : FrameLoop) (data : PyDict) : FrameLoop where
  started := true
  finalUsage := (frameUsage h data).or l.finalUsage
  finishReason := (frameReason data).getD l.finishReason
  accumulated := l.accumulated + ((frameText data).toList.map textLength).sum
  pieces := l.pieces ++ (frameText data).toList

/-! ### One frame -/

section Frame

variable {h : PyHost} {l : FrameLoop} {data : PyDict}

/-- A frame without choices carries no text and no reason. -/
theorem frame_silent (falsity : (data.get "choices" .none).truthy = false) :
    frameText data = none ∧ frameReason data = none := by
  have other : ∀ choice rest, data.get "choices" .none ≠ .list (.dict choice :: rest) := by
    intro choice rest choices
    rw [choices] at falsity
    cases falsity
  constructor
  · unfold frameText
    split
    · rename_i choices
      exact absurd choices (other _ _)
    · rfl
  · unfold frameReason
    split
    · rename_i choices
      exact absurd choices (other _ _)
    · rfl

theorem choiceStep_readable (readable : ReadableChoice data) : choiceStep l data = .ok { l with
    finishReason := (frameReason data).getD l.finishReason
    accumulated := l.accumulated + ((frameText data).toList.map textLength).sum
    pieces := l.pieces ++ (frameText data).toList } := by
  cases given : (data.get "choices" .none).truthy with
  | false =>
      obtain ⟨text, reason⟩ := frame_silent given
      simp [choiceStep, PyValue.orElse_of_falsy given, PyValue.truthy, text, reason]
  | true =>
      obtain ⟨choice, rest, choices, sized⟩ := readable given
      have reason : frameReason data =
          Option.filter PyValue.truthy (some (choice.get "finish_reason" .none)) := by
        rw [frameReason, choices]
      have text : frameText data =
          Option.filter PyValue.truthy (some (choice.get "text" (.str ""))) := by
        rw [frameText, choices]
      have later : ((choice.get "finish_reason" .none).orElse l.finishReason) =
          (frameReason data).getD l.finishReason := by
        rw [reason, Option.filter_some]
        cases truth : (PyDict.get choice "finish_reason" .none).truthy with
        | true => exact PyValue.orElse_of_truthy truth
        | false => exact PyValue.orElse_of_falsy truth
      simp only [choiceStep, PyValue.orElse_of_truthy given, given, if_true]
      simp only [choices, PyValue.first, takeChoice, PyValue.get, bind, Except.bind, later,
        PyValue.truthy_orElse (y := .str "") rfl]
      rw [text, Option.filter_some]
      cases truth : (PyDict.get choice "text" (.str "")).truthy with
      | false => simp [pure, Except.pure]
      | true =>
          obtain ⟨n, len⟩ := PyValue.len_ok_iff.mpr (sized truth)
          simp [PyValue.orElse_of_truthy truth, len, textLength, pure, Except.pure]

theorem usageFrom_readable (readable : ReadableUsage h data) :
    usageFrom h data = .ok (frameUsage h data) := by
  obtain ⟨u, used⟩ := usageFrom_ok_iff.mpr readable
  rw [frameUsage, used]

/-- A frame that can be read is absorbed. -/
theorem frameStep_readable (choice : ReadableChoice data) (usage : ReadableUsage h data) :
    frameStep h l data = (l.absorb h data, none) := by
  simp only [frameStep, choiceStep_readable choice, usageFrom_readable usage]
  rfl

theorem frameUsage_eq_none_iff (readable : ReadableUsage h data) :
    frameUsage h data = none ↔ ¬ReportsUsage data :=
  usageFrom_spec (usageFrom_readable readable)

/-- A text that the loop can read counts at least one character. -/
theorem textLength_pos {text : PyValue} (readable : ReadableChoice data)
    (carried : frameText data = some text) : 0 < textLength text := by
  unfold frameText at carried
  split at carried
  · rename_i choice rest choices
    obtain ⟨given, truth⟩ := Option.filter_eq_some_iff.mp carried
    cases given
    have some' : (data.get "choices" .none).truthy = true := by
      rw [choices]
      rfl
    obtain ⟨choice', rest', choices', sized⟩ := readable some'
    cases choices.symm.trans choices'
    obtain ⟨n, len⟩ := PyValue.len_ok_iff.mpr (sized truth)
    rw [textLength, len]
    exact PyValue.len_pos truth len
  · cases carried

end Frame

/-! ### The lines up to the end mark -/

/-- The frames among the lines, up to the line that ends the loop. -/
def framesOf (h : PyHost) : List String → List PyDict
  | [] => []
  | line :: rest =>
      match parseSseLine h line with
      | .ok (.frame data) => data :: framesOf h rest
      | .ok .skip => framesOf h rest
      | _ => []

/-- The line ends the loop. -/
def isMark (h : PyHost) (line : String) : Bool :=
  match parseSseLine h line with
  | .ok .done => true
  | _ => false

/-- The lines before the end mark. -/
def beforeMark (h : PyHost) (lines : List String) : List String :=
  lines.takeWhile fun line => !isMark h line

/-- The texts of a response, in order. -/
def textsOf (h : PyHost) (lines : List String) : List PyValue :=
  (framesOf h lines).filterMap frameText

/-- The last finish reason of a response. -/
def lastReason (h : PyHost) (lines : List String) : PyValue :=
  ((framesOf h lines).filterMap frameReason).getLast?.getD (.str "stop")

/-- The last usage of a response. -/
def lastUsage (h : PyHost) (lines : List String) : Option ReportedUsage :=
  ((framesOf h lines).filterMap (frameUsage h)).getLast?

section Lines

attribute [local irreducible] parseSseLine

variable {h : PyHost} {l : FrameLoop} {line : String} {lines : List String}

theorem isMark_iff : isMark h line = true ↔ parseSseLine h line = .ok .done := by
  unfold isMark
  split
  · rename_i parsed
    simp [parsed]
  · rename_i other
    exact iff_of_false Bool.false_ne_true other

/-- The loop runs through the lines before the mark, and stops. -/
theorem readLines_readable (readable : ∀ line ∈ beforeMark h lines, ReadableLine h line) :
    (readLines h l lines).1 = (framesOf h lines).foldl (FrameLoop.absorb h) l ∧
      ∀ e, (readLines h l lines).2 ≠ .raised e := by
  induction lines generalizing l with
  | nil => simp [readLines, framesOf]
  | cons line rest ih =>
      by_cases mark : isMark h line = true
      · have parsed := isMark_iff.mp mark
        simp [readLines, framesOf, parsed]
      · simp only [beforeMark, List.takeWhile_cons, mark, Bool.not_false, if_true,
          List.forall_mem_cons] at readable
        obtain ⟨here, after⟩ := readable
        rw [isMark_iff] at mark
        cases parsed : parseSseLine h line with
        | error e => simp [ReadableLine, parsed] at here
        | ok sse =>
            cases sse with
            | skip => simpa [readLines, framesOf, parsed] using ih after
            | done => exact absurd parsed mark
            | frame data =>
                rw [ReadableLine, parsed] at here
                obtain ⟨choice, usage⟩ := here
                simpa [readLines, framesOf, parsed, frameStep_readable choice usage]
                  using ih after

/-- The loop goes through if and only if it can read every line before the mark. -/
theorem readLines_raises_iff : (∃ e, (readLines h l lines).2 = .raised e) ↔
    ∃ line ∈ beforeMark h lines, ¬ReadableLine h line := by
  constructor
  · rintro ⟨e, raised⟩
    by_contra all
    push Not at all
    exact (readLines_readable all).2 e raised
  · rintro ⟨line, mem, unreadable⟩
    induction lines generalizing l with
    | nil => cases mem
    | cons first rest ih =>
        by_cases mark : isMark h first = true
        · simp [beforeMark, mark] at mem
        · simp only [beforeMark, List.takeWhile_cons, mark, Bool.not_false, if_true,
            List.mem_cons] at mem
          rw [isMark_iff] at mark
          cases parsed : parseSseLine h first with
          | error e => simp [readLines, parsed]
          | ok sse =>
              cases sse with
              | skip =>
                  rcases mem with rfl | later
                  · simp [ReadableLine, parsed] at unreadable
                  · simpa [readLines, parsed] using ih later
              | done => exact absurd parsed mark
              | frame data =>
                  simp only [readLines, parsed]
                  rcases step : frameStep h l data with ⟨l', _ | e⟩
                  · have read : (frameStep h l data).2 = none := by rw [step]
                    rcases mem with rfl | later
                    · rw [ReadableLine, parsed] at unreadable
                      exact absurd (frameStep_ok_iff.mp read) unreadable
                    · exact ih later
                  · exact ⟨e, rfl⟩

theorem beforeMark_eq_self (unmarked : ∀ line ∈ lines, parseSseLine h line ≠ .ok .done) :
    beforeMark h lines = lines := by
  rw [beforeMark, List.takeWhile_eq_self_iff]
  intro line mem
  rw [Bool.not_eq_true', ← Bool.not_eq_true, isMark_iff]
  exact unmarked line mem

/-- The frames of lines that can be read can be read. -/
theorem framesOf_readable (readable : ∀ line ∈ beforeMark h lines, ReadableLine h line) :
    ∀ data ∈ framesOf h lines, ReadableChoice data ∧ ReadableUsage h data := by
  induction lines with
  | nil => simp [framesOf]
  | cons line rest ih =>
      by_cases mark : isMark h line = true
      · simp [framesOf, isMark_iff.mp mark]
      · simp only [beforeMark, List.takeWhile_cons, mark, Bool.not_false, if_true,
          List.forall_mem_cons] at readable
        obtain ⟨here, after⟩ := readable
        cases parsed : parseSseLine h line with
        | error e => simp [framesOf, parsed]
        | ok sse =>
            cases sse with
            | skip => simpa only [framesOf, parsed] using ih after
            | done => simp [framesOf, parsed]
            | frame data =>
                rw [ReadableLine, parsed] at here
                simp only [framesOf, parsed, List.forall_mem_cons]
                exact ⟨here, ih after⟩

/-- There is no usage when no frame reports any. -/
theorem lastUsage_eq_none_iff (readable : ∀ line ∈ beforeMark h lines, ReadableLine h line) :
    lastUsage h lines = none ↔ ∀ data ∈ framesOf h lines, ¬ReportsUsage data := by
  rw [lastUsage, List.getLast?_eq_none_iff, List.filterMap_eq_nil_iff]
  refine forall₂_congr fun data mem => ?_
  exact frameUsage_eq_none_iff (framesOf_readable readable data mem).2

/-- No characters are counted when no frame carries a text. -/
theorem textsOf_silent_iff (readable : ∀ line ∈ beforeMark h lines, ReadableLine h line) :
    ((textsOf h lines).map textLength).sum = 0 ↔
      ∀ data ∈ framesOf h lines, frameText data = none := by
  rw [List.sum_eq_zero_iff, textsOf, ← List.filterMap_eq_nil_iff]
  constructor
  · intro zero
    by_contra some'
    obtain ⟨text, mem⟩ := List.exists_mem_of_ne_nil _ some'
    obtain ⟨data, frame, carried⟩ := List.mem_filterMap.mp mem
    have positive := textLength_pos (framesOf_readable readable data frame).1 carried
    exact positive.ne' (zero _ (List.mem_map_of_mem mem))
  · intro silent
    simp [silent]

end Lines

/-! ### The frames together -/

section Fold

variable {h : PyHost} (frames : List PyDict) (l : FrameLoop)

theorem absorb_pieces : (frames.foldl (FrameLoop.absorb h) l).pieces =
    l.pieces ++ frames.filterMap frameText := by
  induction frames generalizing l with
  | nil => simp
  | cons data rest ih =>
      rw [List.foldl_cons, ih, List.filterMap_cons]
      cases text : frameText data <;> simp [FrameLoop.absorb, text]

theorem absorb_accumulated : (frames.foldl (FrameLoop.absorb h) l).accumulated =
    l.accumulated + ((frames.filterMap frameText).map textLength).sum := by
  induction frames generalizing l with
  | nil => simp
  | cons data rest ih =>
      rw [List.foldl_cons, ih, List.filterMap_cons]
      cases text : frameText data <;> simp [FrameLoop.absorb, text, Nat.add_assoc]

theorem absorb_finishReason : (frames.foldl (FrameLoop.absorb h) l).finishReason =
    (frames.filterMap frameReason).getLast?.getD l.finishReason := by
  induction frames generalizing l with
  | nil => simp
  | cons data rest ih =>
      rw [List.foldl_cons, ih, List.filterMap_cons]
      cases reason : frameReason data <;> simp [FrameLoop.absorb, reason, List.getLast?_cons]

theorem absorb_finalUsage : (frames.foldl (FrameLoop.absorb h) l).finalUsage =
    (frames.filterMap (frameUsage h)).getLast?.or l.finalUsage := by
  induction frames generalizing l with
  | nil => simp
  | cons data rest ih =>
      rw [List.foldl_cons, ih, List.filterMap_cons]
      cases usage : frameUsage h data with
      | none => simp only [FrameLoop.absorb, usage, Option.none_or]
      | some u =>
          simp only [FrameLoop.absorb, usage, Option.some_or, List.getLast?_cons]
          cases (rest.filterMap (frameUsage h)).getLast? <;> rfl

theorem truthy_of_frameReason {data : PyDict} {reason : PyValue}
    (given : frameReason data = some reason) : reason.truthy = true := by
  unfold frameReason at given
  split at given
  · exact (Option.filter_eq_some_iff.mp given).2
  · cases given

end Fold

end LLMInference
