import LLMInference.Lib.Json.Printable
import LLMInference.Providers.Vllm
import LLMInference.Service.Grammar

/-!
The body of a streamed response (`app/main.py`, `_sse` and the `body` of `infer_stream`): one frame
for each event, and a last frame that marks the end.

* `StreamEvent.payload_injective`: the payload of an event has all of it.
* `readBody_body`: a reader that takes the body line by line, as the repository's own client of
  such streams does (`parseSseLine`), gets the payload of every event, in order, then the end, and
  nothing else.
-/

namespace LLMInference

namespace StreamEvent

/-- `event.type`. -/
def type : StreamEvent → String
  | start .. => "start"
  | delta _ => "delta"
  | «end» .. => "end"
  | error .. => "error"

/-- `event.text`. -/
def text : StreamEvent → String
  | delta text => text
  | _ => ""

/-- `event.data`. -/
def data : StreamEvent → PyDict
  | start model complexity downgraded cached routingNotes projectedCostUsd =>
      [("model", .str model), ("complexity", .str complexity), ("downgraded", .bool downgraded),
        ("cached", .bool cached), ("routing_notes", .list (routingNotes.map .str)),
        ("projected_cost_usd", .float (.finite projectedCostUsd))]
  | delta _ => []
  | «end» model inputTokens outputTokens costUsd downgraded cached =>
      [("model", .str model), ("input_tokens", .int inputTokens),
        ("output_tokens", .int outputTokens), ("cost_usd", .float (.finite costUsd)),
        ("downgraded", .bool downgraded), ("cached", .bool cached)]
  | error name detail => [("error", .str name), ("detail", .str detail)]

/-- The `payload` of `_sse`. -/
def payload (e : StreamEvent) : PyDict :=
  let payload : PyDict := [("type", .str e.type)]
  let payload := if e.text = "" then payload else payload.set "text" (.str e.text)
  if e.data.isEmpty then payload else payload.update e.data

/-- The costs an event tells. -/
def costs : StreamEvent → List ℚ
  | start _ _ _ _ _ projectedCostUsd => [projectedCostUsd]
  | «end» _ _ _ costUsd _ _ => [costUsd]
  | _ => []

end StreamEvent

/-- `_sse`. -/
def sse (f : Json.Floats) (e : StreamEvent) : String :=
  "data: " ++ Json.dumps f {} (.dict e.payload) ++ "\n\n"

/-- What `body` yields, for these events. -/
def body (f : Json.Floats) (events : List StreamEvent) : String :=
  String.join (events.map (sse f)) ++ "data: [DONE]\n\n"

/-- The lines of a text, between the characters that break lines. -/
def linesOf (breaks : Char → Bool) : List Char → List (List Char)
  | [] => [[]]
  | c :: cs =>
      if breaks c then [] :: linesOf breaks cs
      else
        match linesOf breaks cs with
        | [] => [[c]]
        | line :: lines => (c :: line) :: lines

/-- What a client makes of a body, the lines it skips left out. -/
def readBody (h : PyHost) (breaks : Char → Bool) (text : String) : List (Except PyError SseLine) :=
  (linesOf breaks text.toList).filterMap fun line =>
    match parseSseLine h (String.ofList line) with
    | .ok .skip => none
    | parsed => some parsed

/-! ### Payloads -/

namespace StreamEvent

/-- The members of a payload, one after the other. -/
def members (e : StreamEvent) : PyDict :=
  ("type", .str e.type) :: (if e.text = "" then [] else [("text", .str e.text)]) ++ e.data

theorem payload_eq (e : StreamEvent) : e.payload = e.members := by
  cases e with
  | delta text =>
      by_cases empty : text = ""
      · simp [payload, members, StreamEvent.text, empty, data]
      · simp [payload, members, StreamEvent.text, empty, data, PyDict.set]
  | _ => simp [payload, members, text, data, type, PyDict.update, PyDict.set]

theorem nodup_members (e : StreamEvent) : (e.members.map Prod.fst).Nodup := by
  cases e with
  | delta text => by_cases empty : text = "" <;> simp [members, StreamEvent.text, empty, data]
  | _ => simp [members, text, data]

theorem document_payload {f : Json.Floats} (e : StreamEvent)
    (costs : ∀ x ∈ e.costs, f.Faithful x) : Json.Document f {} (.dict e.payload) := by
  rw [payload_eq]
  refine .dict e.nodup_members (fun sorts => by cases sorts) ?_
  have notes : ∀ notes : List String, Json.Document f {} (.list (notes.map .str)) := by
    intro notes
    refine .list fun x mem => ?_
    obtain ⟨note, -, rfl⟩ := List.mem_map.mp mem
    exact .str note
  cases e with
  | start model complexity downgraded cached routingNotes cost =>
      simp only [members, text, data, if_true, List.nil_append, List.cons_append,
        List.forall_mem_cons, List.not_mem_nil, false_implies, implies_true, and_true]
      have written := costs cost (by simp [StreamEvent.costs])
      exact ⟨.str _, .str _, .str _, .bool _, .bool _, notes _, .finite written⟩
  | delta text =>
      by_cases empty : text = ""
      · simp only [members, StreamEvent.text, empty, data, if_true, List.append_nil,
          List.forall_mem_singleton]
        exact .str _
      · simp only [members, StreamEvent.text, empty, data, if_false, List.append_nil,
          List.forall_mem_cons, List.not_mem_nil, false_implies, implies_true, and_true]
        exact ⟨.str _, .str _⟩
  | «end» model inputTokens outputTokens cost =>
      simp only [members, text, data, if_true, List.nil_append, List.cons_append,
        List.forall_mem_cons, List.not_mem_nil, false_implies, implies_true, and_true]
      have written := costs cost (by simp [StreamEvent.costs])
      exact ⟨.str _, .str _, .int _, .int _, .finite written, .bool _, .bool _⟩
  | error name detail =>
      simp only [members, text, data, if_true, List.nil_append, List.cons_append,
        List.forall_mem_cons, List.not_mem_nil, false_implies, implies_true, and_true]
      exact ⟨.str _, .str _, .str _⟩

theorem type_of_members {e e' : StreamEvent} (same : e.members = e'.members) :
    e.type = e'.type := by
  have heads := congrArg (fun d : PyDict => d.lookup "type") same
  simpa [members] using heads

/-- A payload tells which event it is of. -/
theorem payload_injective {e e' : StreamEvent} (same : e.payload = e'.payload) : e = e' := by
  rw [payload_eq, payload_eq] at same
  have types := type_of_members same
  have notes : Function.Injective (List.map PyValue.str) :=
    List.map_injective_iff.mpr fun _ _ same => PyValue.str.inj same
  cases e with
  | start =>
      cases e' with
      | start =>
          simp only [members, text, data, if_true, List.nil_append, List.cons_append,
            List.cons.injEq, Prod.mk.injEq, PyValue.str.injEq, PyValue.bool.injEq,
            PyValue.list.injEq, notes.eq_iff, PyValue.float.injEq, PyFloat.finite.injEq, true_and,
            and_true] at same
          simp only [same]
      | _ => exact absurd types (by simp [type])
  | delta text =>
      cases e' with
      | delta text' =>
          by_cases empty : text = "" <;> by_cases empty' : text' = "" <;>
            simp_all [members, StreamEvent.text, data]
      | _ => exact absurd types (by simp [type])
  | «end» =>
      cases e' with
      | «end» =>
          simp only [members, text, data, if_true, List.nil_append, List.cons_append,
            List.cons.injEq, Prod.mk.injEq, PyValue.str.injEq, PyValue.bool.injEq,
            PyValue.int.injEq, Nat.cast_inj, PyValue.float.injEq, PyFloat.finite.injEq, true_and,
            and_true] at same
          simp only [same]
      | _ => exact absurd types (by simp [type])
  | error =>
      cases e' with
      | error =>
          simp only [members, text, data, if_true, List.nil_append, List.cons_append,
            List.cons.injEq, Prod.mk.injEq, PyValue.str.injEq, true_and, and_true] at same
          simp only [same]
      | _ => exact absurd types (by simp [type])

end StreamEvent

/-! ### Lines -/

section Lines

variable {breaks : Char → Bool} {line rest : List Char}

theorem linesOf_line (newline : breaks '\n' = true) (unbroken : ∀ c ∈ line, breaks c = false) :
    linesOf breaks (line ++ '\n' :: rest) = line :: linesOf breaks rest := by
  induction line with
  | nil => simp [linesOf, newline]
  | cons c line ih =>
      have here := unbroken c List.mem_cons_self
      rw [List.cons_append, linesOf, here, ih fun e mem => unbroken e (List.mem_cons_of_mem _ mem)]
      rfl

end Lines

/-- A text that begins and ends with something solid is left as it is. -/
theorem strip_solid {first last : Char} {middle : List Char} (starts : isSpace first = false)
    (ends : isSpace last = false) :
    strip (String.ofList (first :: middle ++ [last])) =
      String.ofList (first :: middle ++ [last]) := by
  rw [strip, String.toList_ofList]
  simp [starts, ends]

theorem strip_blank {first last : Char} {middle : List Char} (starts : isSpace first = false)
    (ends : isSpace last = false) :
    strip (String.ofList (' ' :: first :: middle ++ [last])) =
      String.ofList (first :: middle ++ [last]) := by
  have blank : isSpace ' ' = true := by decide
  rw [strip, String.toList_ofList]
  simp [blank, starts, ends]

/-! ### What is read -/

/-- The one character every client breaks lines at. -/
def isNewline (c : Char) : Bool := c == '\n'

theorem isNewline_newline : isNewline '\n' = true := rfl

theorem isNewline_of_printable {c : Char} (printable : Json.Printable c) : isNewline c = false := by
  rw [isNewline, beq_eq_false_iff_ne]
  rintro rfl
  exact absurd printable (by decide)

/-- An interpreter without modules. -/
def plainHost : PyHost where
  loads := fun _ => .error ⟨"ImportError", ""⟩
  intOf := fun _ => none
  repr := id

section Reading

variable {f : Json.Floats} {h : PyHost} {breaks : Char → Bool}

/-- The field name of a line with data, and the blank after it. -/
def dataField : List Char := ['d', 'a', 't', 'a', ':', ' ']

/-- A line with data, whose data is solid at both ends and not the mark of the end. -/
theorem parseSseLine_data {first last : Char} {middle : List Char} (starts : isSpace first = false)
    (ends : isSpace last = false) :
    parseSseLine h (String.ofList (dataField ++ (first :: middle ++ [last]))) =
      if String.ofList (first :: middle ++ [last]) = "[DONE]" then .ok .done
      else
        match h.loads (String.ofList (first :: middle ++ [last])) with
        | .ok (.dict data) => .ok (.frame data)
        | .ok _ => .ok .skip
        | .error e => if e.typeName = "JSONDecodeError" then .ok .skip else .error e := by
  have whole : dataField ++ (first :: middle ++ [last]) =
      'd' :: (['a', 't', 'a', ':', ' '] ++ first :: middle) ++ [last] := by simp [dataField]
  have stripped : strip (String.ofList (dataField ++ (first :: middle ++ [last]))) =
      String.ofList (dataField ++ (first :: middle ++ [last])) := by
    rw [whole]
    exact strip_solid (by decide) ends
  have payload : strip (String.ofList
      ((String.ofList (dataField ++ (first :: middle ++ [last]))).toList.drop 5)) =
        String.ofList (first :: middle ++ [last]) := by
    rw [String.toList_ofList]
    exact strip_blank starts ends
  have read : ¬ (String.ofList (dataField ++ (first :: middle ++ [last])) = "" ∨
      ":".toList <+: (String.ofList (dataField ++ (first :: middle ++ [last]))).toList ∨
        ¬ "data:".toList <+:
          (String.ofList (dataField ++ (first :: middle ++ [last]))).toList) := by
    rw [String.toList_ofList, ← String.toList_inj, String.toList_ofList]
    simp [dataField]
  rw [parseSseLine]
  simp only [stripped, payload]
  exact if_neg read

/-- The line of an event. -/
def frameOf (f : Json.Floats) (e : StreamEvent) : List Char :=
  dataField ++ Json.text f {} (.dict e.payload)

/-- The client reads the line of an event as its payload. -/
theorem parseSseLine_frame (h : PyHost) (explain : String → String) {e : StreamEvent}
    (costs : ∀ x ∈ e.costs, f.Faithful x) :
    parseSseLine (h.withJson f explain) (String.ofList (frameOf f e)) = .ok (.frame e.payload) := by
  obtain ⟨inside, whole⟩ : ∃ inside, Json.text f {} (.dict e.payload) =
      '\x7b' :: inside ++ ['\x7d'] := ⟨_, rfl⟩
  have read : (h.withJson f explain).loads (String.ofList ('\x7b' :: inside ++ ['\x7d'])) =
      .ok (.dict e.payload) := by
    rw [← whole]
    exact PyHost.withJson_loads (e.document_payload costs) h explain
  have data : String.ofList ('\x7b' :: inside ++ ['\x7d']) ≠ "[DONE]" := by
    rw [ne_eq, ← String.toList_inj, String.toList_ofList]
    simp
  rw [frameOf, whole, parseSseLine_data (by decide) (by decide), if_neg data, read]

theorem parseSseLine_done :
    parseSseLine h (String.ofList (dataField ++ "[DONE]".toList)) = .ok .done := by
  have done : "[DONE]".toList = '[' :: ['D', 'O', 'N', 'E'] ++ [']'] := rfl
  rw [done]
  exact parseSseLine_data (by decide) (by decide)

theorem parseSseLine_empty : parseSseLine h (String.ofList []) = .ok .skip := by
  simp [parseSseLine, strip]

/-- What breaks lines is not in the line of an event. -/
theorem frameOf_unbroken {e : StreamEvent} (costs : ∀ x ∈ e.costs, f.Faithful x)
    (printable : ∀ c, Json.Printable c → breaks c = false) :
    ∀ c ∈ frameOf f e, breaks c = false := by
  intro c mem
  rcases List.mem_append.mp mem with field | text
  · have all : ∀ c ∈ dataField, Json.Printable c := Json.printable_of_all rfl
    exact printable c (all c field)
  · exact printable c (Json.text_printable rfl (e.document_payload costs) c text)

theorem toList_body_cons (e : StreamEvent) (events : List StreamEvent) :
    (body f (e :: events)).toList =
      frameOf f e ++ '\n' :: ([] ++ '\n' :: (body f events).toList) := by
  simp [body, sse, frameOf, dataField, Json.dumps, String.join_cons]

/-- What a client reads of the body of a stream: the payloads of the events, in order, and the
end. -/
theorem readBody_body (h : PyHost) (explain : String → String) {events : List StreamEvent}
    (costs : ∀ e ∈ events, ∀ x ∈ e.costs, f.Faithful x) (newline : breaks '\n' = true)
    (printable : ∀ c, Json.Printable c → breaks c = false) :
    readBody (h.withJson f explain) breaks (body f events) =
      events.map (fun e => .ok (.frame e.payload)) ++ [.ok .done] := by
  have empty : ∀ c ∈ ([] : List Char), breaks c = false := List.forall_mem_nil _
  induction events with
  | nil =>
      have done : (body f []).toList =
          (dataField ++ "[DONE]".toList) ++ '\n' :: ([] ++ '\n' :: []) := by
        simp [body, dataField]
      have unbroken : ∀ c ∈ dataField ++ "[DONE]".toList, breaks c = false := by
        have all : ∀ c ∈ dataField ++ "[DONE]".toList, Json.Printable c :=
          Json.printable_of_all rfl
        exact fun c mem => printable c (all c mem)
      rw [readBody, done, linesOf_line newline unbroken, linesOf_line newline empty, linesOf]
      simp only [List.filterMap_cons, parseSseLine_done, parseSseLine_empty, List.filterMap_nil,
        List.map_nil, List.nil_append]
  | cons e events ih =>
      have frame := parseSseLine_frame h explain (costs e List.mem_cons_self)
      have unbroken := frameOf_unbroken (costs e List.mem_cons_self) printable
      have later := ih fun e mem => costs e (List.mem_cons_of_mem _ mem)
      rw [readBody, toList_body_cons, linesOf_line newline unbroken, linesOf_line newline empty]
      simp only [List.filterMap_cons, frame, parseSseLine_empty, List.map_cons, List.cons_append]
      rw [← later, readBody]

/-- Nothing is lost on the wire: streams of the same body are the same. -/
theorem body_injOn (f : Json.Floats) :
    Set.InjOn (body f) {events | ∀ e ∈ events, ∀ x ∈ e.costs, f.Faithful x} := by
  intro events costs events' costs' same
  have readAs : ∀ {events : List StreamEvent}, (∀ e ∈ events, ∀ x ∈ e.costs, f.Faithful x) →
      readBody (plainHost.withJson f fun _ => "") isNewline (body f events) =
        events.map (fun e => .ok (.frame e.payload)) ++ [.ok .done] := fun costs =>
    readBody_body plainHost (fun _ => "") costs isNewline_newline fun _ => isNewline_of_printable
  have read := readAs costs
  rw [same, readAs costs', List.append_cancel_right_eq] at read
  have frames : Function.Injective fun e : StreamEvent =>
      (.ok (.frame e.payload) : Except PyError SseLine) := by
    intro e e' same
    exact StreamEvent.payload_injective (SseLine.frame.inj (Except.ok.inj same))
  exact (List.map_injective_iff.mpr frames read).symm

end Reading

/-- Floats in five decimals. -/
def fiveDecimals : Json.Floats where
  repr := fun x => String.ofList (Decimal.formatFixed 5 x)
  read := fun text => .finite ((Decimal.parseFixed text.toList).getD 0)

theorem faithful_projected : fiveDecimals.Faithful (3 / 6250) := by
  refine ⟨⟨(['0'], ['.', '0', '0', '0', '4', '8'], []), ?_, by decide⟩, ?_⟩ <;> decide +kernel

/-- A text told in one piece and the same text told in two differ on the wire. -/
theorem body_injOn_pieces :
    let start : StreamEvent := .start "small" "SIMPLE" false false [] (3 / 6250)
    body fiveDecimals [start, .delta "yo"] ≠
      body fiveDecimals [start, .delta "y", .delta "o"] := by
  intro start same
  have told : ∀ x ∈ start.costs, fiveDecimals.Faithful x := by
    simp only [start, StreamEvent.costs, List.mem_singleton, forall_eq]
    exact faithful_projected
  have untold : ∀ text, ∀ x ∈ (StreamEvent.delta text).costs, fiveDecimals.Faithful x :=
    fun _ => List.forall_mem_nil _
  have whole : ∀ e ∈ [start, .delta "yo"], ∀ x ∈ e.costs, fiveDecimals.Faithful x := by
    simp only [List.forall_mem_cons, List.not_mem_nil, false_implies, implies_true, and_true]
    exact ⟨told, untold _⟩
  have pieces : ∀ e ∈ [start, .delta "y", .delta "o"], ∀ x ∈ e.costs,
      fiveDecimals.Faithful x := by
    simp only [List.forall_mem_cons, List.not_mem_nil, false_implies, implies_true, and_true]
    exact ⟨told, untold _, untold _⟩
  have equal := body_injOn fiveDecimals whole pieces same
  simp at equal

end LLMInference
