import LLMInference.Http.Responses
import LLMInference.Service.Interrupted
import LLMInference.Service.Truncated

/-!
A streamed answer on its way from the model server to the client (`app/providers/vllm.py`,
`app/service.py`, `app/main.py`).

The texts of the server's frames become chunks, the chunks events, and the events frames again.

* `each_record`: a relation between a request, its record and its history that its own steps keep.
* `Transcribes.step`: the step lemma. Each text that a request is given is told, once, when it is
  given.
* `client_reads_server`: the theorem.
-/

namespace LLMInference

open Runs

/-! ### Texts -/

/-- The text an event carries, if it carries one. -/
def StreamEvent.piece (e : StreamEvent) : Option String := if e.text = "" then none else some e.text

/-- The texts a consumer was told. -/
def told (h : List Event) : List String := (emissions h).filterMap StreamEvent.piece

/-- The texts of the chunks that have one. -/
def textsIn (cs : List StreamChunk) : List String := (delivered cs).map (·.text)

theorem textsIn_append (cs cs' : List StreamChunk) :
    textsIn (cs ++ cs') = textsIn cs ++ textsIn cs' := by
  rw [textsIn, delivered, List.filter_append, List.map_append]
  rfl

theorem told_append (h evs : List Event) : told (h ++ evs) = told h ++ told evs := by
  rw [told, emissions_append, List.filterMap_append]
  rfl

theorem told_of_silent {i : ℕ} {evs : List Event} (silent : ∀ j e, .emitted j e ∉ evs) :
    told (history i evs) = [] := by
  rw [told, emissions_eq_nil silent]
  rfl

/-! ### Records -/

section Record

variable {σ : Type} {B : LedgerBackend σ} {ts : TextSupport} {s : Settings} {i : ℕ} {w : World σ}
  {r : StreamRecord}

/-- What a new request has, and its own steps keep, holds of it, its record and its history in
every run. -/
theorem each_record {ledger : σ} {Q : Task → StreamRecord → List Event → Prop}
    (reached : Reaches (recording (World.step B ts s) (World.note i)) Always
      (World.start s ledger, {}) (w, r))
    (start : ∀ request streaming, Q { request, streaming, phase := .arrived } {} [])
    (kept : ∀ (w : World σ) t r a sh ph evs,
      Reaches (World.step B ts s) Always (World.start s ledger) w → w.tasks[i]? = some t →
      taskStep B ts s i t w.shared a = some (sh, ph, evs) → Q t r (history i w.log) →
      Q { t with phase := ph } (r.note t a) (history i w.log ++ history i evs)) :
    ∀ t, w.tasks[i]? = some t → Q t r (history i w.log) := by
  have both : (w.tasks.length ≤ i → r = {}) ∧
      ∀ t, w.tasks[i]? = some t → Q t r (history i w.log) := by
    refine reached.invariant_of (I := fun p => (p.1.tasks.length ≤ i → p.2 = {}) ∧
      ∀ t, p.1.tasks[i]? = some t → Q t p.2 (history i p.1.log)) ?_ ?_
    · exact ⟨fun _ => rfl, fun t here => by cases here⟩
    · rintro ⟨w, r⟩ a ⟨w', r'⟩ before ⟨early, holds⟩ - taken
      change w.tasks.length ≤ i → r = {} at early
      change ∀ t, w.tasks[i]? = some t → Q t r (history i w.log) at holds
      obtain ⟨stepped, noted⟩ := recording_eq_some.mp taken
      change World.step B ts s w a = some w' at stepped
      have service : Reaches (World.step B ts s) Always (World.start s ledger) w :=
        before.forget fun _ _ _ => trivial
      obtain rfl : r' = w.note i a r := noted
      cases a with
      | submit request streaming =>
          cases stepped
          refine ⟨fun late => early ?_, fun t here => ?_⟩
          · simp only [List.length_append, List.length_singleton] at late
            omega
          · show Q t r (history i w.log)
            rcases Pool.get_spawn here with old | ⟨new, rfl⟩
            · exact holds t old
            · rw [history_of_new ⟨rfl, rfl⟩ service i new.ge, early new.ge]
              exact start request streaming
      | clock now mono =>
          cases stepped
          exact ⟨early, holds⟩
      | scale later =>
          cases worldTrans_of_step stepped with
          | scale _ => exact ⟨early, holds⟩
      | task j a =>
          obtain ⟨t, sh, ph, evs, here, made, rfl⟩ := task_of_step stepped
          have inside := (List.getElem?_eq_some_iff.mp here).1
          by_cases mine : j = i
          · subst mine
            have noted : w.note j (.task j a) r = r.note t a := by
              simp only [World.note, if_true, here]
            refine ⟨fun late => ?_, fun u there => ?_⟩
            · rw [List.length_set] at late
              omega
            · cases (Pool.get_set_self here _).symm.trans there
              rw [noted, history_append]
              exact kept w t r a sh ph evs service here made (holds t here)
          · have noted : w.note i (.task j a) r = r := by
              simp only [World.note, mine, if_false]
            rw [noted]
            refine ⟨fun late => early ?_, fun u there => ?_⟩
            · rwa [List.length_set] at late
            · rw [List.getElem?_set_ne mine] at there
              rw [history_append, (trans_of_taskStep made).history_eq_nil (Ne.symm mine),
                List.append_nil]
              exact holds u there
  exact both.2

end Record

/-! ### What a request is given, and what it tells -/

/-- It is told from the cache. -/
def Phase.replays : Phase → Bool
  | .replaying _ => true
  | _ => false

section Steps

variable {σ : Type} {B : LedgerBackend σ} {ts : TextSupport} {s : Settings} {i : ℕ} {t : Task}
  {w : World σ} {sh sh' : Shared σ} {ph ph' : Phase} {a : TaskAct} {evs h : List Event}
  {r : StreamRecord} {req : Request} {streaming : Bool}

/-- But for the generated stream and the cached one, nothing with a text is told. -/
theorem Trans.untold (step : Trans B ts s i req streaming sh ph a sh' ph' evs)
    (idle : ∀ st, ph ≠ .pulling st) (cold : ph.replays = false) (after : ph'.replays = false) :
    told (history i evs) = [] := by
  cases step with
  | hitStream => cases after
  | replay => cases cold
  | chunkText | chunkEmpty | exhausted | streamFault | streamOther => exact absurd rfl (idle _)
  | enterStreamed entering streamed =>
      simp [told, history, Event.request, emissions, StreamEvent.piece, startEvent,
        StreamEvent.text]
  | granted | refused | cancelReserve =>
      refine told_of_silent fun j e => ?_
      split <;> simp
  | settleRaise | finalizeStore => exact told_of_silent silent_settleEvents
  | settleCache | settleReturn | finalizeClose | cancelSettle =>
      refine told_of_silent fun j e => ?_
      simp [silent_settleEvents]
  | finishShed | cancelShed => exact told_of_silent silent_releaseEvents
  | refundRaise | refund | cancelRefund =>
      refine told_of_silent fun j e => ?_
      simp [silent_releaseEvents]
  | _ => exact told_of_silent (by simp)

/-- A stream that is told from the cache goes on so, or is over, and has no slot. -/
theorem Trans.replayed (step : Trans B ts s i req streaming sh ph a sh' ph' evs)
    (replays : ph.replays = true) :
    .admitted i ∉ evs ∧ (ph'.replays = true ∨ ph'.gone = true) := by
  cases step with
  | enterBuffered entering | enterStreamed entering => cases entering <;> cases replays
  | exit exiting => cases exiting <;> cases replays
  | replay => exact ⟨by simp, .inl rfl⟩
  | quit => exact ⟨by simp, .inr rfl⟩
  | _ => cases replays

theorem SlotStory.unadmitted (story : SlotStory i t h) (replays : t.phase.replays = true) :
    .admitted i ∉ h := by
  have outside : t.phase.holdsSlot = false ∧ t.phase.gone = false := by
    cases phase : t.phase with
    | replaying rest => exact ⟨rfl, rfl⟩
    | _ =>
        rw [phase] at replays
        cases replays
  exact List.count_eq_zero.mp (story.waits outside.1 outside.2)

/-- Once a request has been admitted, and as long as it may be, it has told what it was given. -/
def Transcribes (i : ℕ) (t : Task) (r : StreamRecord) (h : List Event) : Prop :=
  .admitted i ∈ h ∨ t.phase.replays = false ∧ t.phase.gone = false → told h = textsIn r.chunks

/-- A chunk that arrives is told, if it has a text. -/
theorem told_of_pulling {st : StreamState} (pulling : t.phase = .pulling st)
    (made : taskStep B ts s i t sh a = some (sh', ph', evs)) :
    ∃ cs, (r.note t a).chunks = r.chunks ++ cs ∧ told (history i evs) = textsIn cs := by
  have step := trans_of_taskStep made
  rw [pulling] at step
  cases step with
  | @chunkText _ c text =>
      refine ⟨[c], rfl, ?_⟩
      simp [told, emissions_emitted, StreamEvent.piece, StreamEvent.text, textsIn, delivered, text]
  | @chunkEmpty _ c text =>
      refine ⟨[c], rfl, ?_⟩
      simp [told, emissions, textsIn, delivered, text]
  | enterBuffered entering | enterStreamed entering => cases entering
  | quit quiet => cases quiet
  | exit exiting =>
      cases exiting
      exact ⟨[], (List.append_nil _).symm, rfl⟩
  | exhausted | streamFault | streamOther =>
      refine ⟨[], (List.append_nil _).symm, ?_⟩
      simp [told, history, Event.request, emissions, StreamEvent.piece, StreamEvent.text, endEvent,
        textsIn, delivered]

theorem Transcribes.step (transcribes : Transcribes i t r h) (story : SlotStory i t h)
    (made : taskStep B ts s i t sh a = some (sh', ph', evs)) :
    Transcribes i { t with phase := ph' } (r.note t a) (h ++ history i evs) := by
  have step := trans_of_taskStep made
  intro going
  cases replays : t.phase.replays with
  | true =>
      obtain ⟨unadmitted, ends⟩ := step.replayed replays
      rcases going with admitted | ⟨cold, running⟩
      · rcases List.mem_append.mp admitted with before | now
        · exact absurd before (story.unadmitted replays)
        · exact absurd (mem_history.mp now).1 unadmitted
      · rcases ends with still | gone
        · cases still.symm.trans cold
        · cases gone.symm.trans running
  | false =>
      have known := transcribes (.inr ⟨replays, step.running⟩)
      cases replays' : ph'.replays with
      | true =>
          rcases going with admitted | ⟨cold, -⟩
          · exact absurd admitted ((story.step step).unadmitted replays')
          · cases replays'.symm.trans cold
      | false =>
          by_cases pulling : ∃ st, t.phase = .pulling st
          · obtain ⟨st, pulling⟩ := pulling
            obtain ⟨cs, given, tells⟩ := told_of_pulling (r := r) pulling made
            rw [given, told_append, textsIn_append, known, tells]
          · have idle : ∀ st, t.phase ≠ .pulling st := fun st here => pulling ⟨st, here⟩
            rw [told_append, step.untold idle replays replays', List.append_nil,
              chunks_note made idle]
            exact known

theorem transcribes_of_reaches {ledger : σ}
    (reached : Reaches (recording (World.step B ts s) (World.note i)) Always
      (World.start s ledger, {}) (w, r)) (here : w.tasks[i]? = some t) :
    Transcribes i t r (history i w.log) := by
  refine each_record (Q := Transcribes i) reached ?_ ?_ t here
  · exact fun _ _ _ => rfl
  · intro w t r a sh ph evs service there made transcribes
    exact transcribes.step (slotStory_of_reaches service i t there) made

end Steps

/-! ### What the client reads -/

/-- The text of a frame of the body. -/
def SseLine.shown : Except PyError SseLine → Option PyValue
  | .ok (.frame data) => data.lookup "text"
  | _ => none

/-- The frame of an event shows the text of the event. -/
theorem shown_payload (e : StreamEvent) :
    SseLine.shown (.ok (.frame e.payload)) = e.piece.map .str := by
  rw [StreamEvent.payload_eq]
  cases e with
  | delta text =>
      by_cases empty : text = ""
      · simp [SseLine.shown, StreamEvent.members, StreamEvent.text, StreamEvent.piece, empty,
          StreamEvent.data]
      · simp [SseLine.shown, StreamEvent.members, StreamEvent.text, StreamEvent.piece, empty,
          List.lookup_cons]
  | _ =>
      simp [SseLine.shown, StreamEvent.members, StreamEvent.text, StreamEvent.piece,
        StreamEvent.data]

/-- A frame with a text has one that is not empty. -/
theorem truthy_of_frameText {data : PyDict} {text : PyValue} (given : frameText data = some text) :
    text.truthy = true := by
  unfold frameText at given
  split at given
  · exact (Option.filter_eq_some_iff.mp given).2
  · cases given

section Server

variable {v : VLLMProvider} {ts : TextSupport} {server : PyHost} {prompt : String}
  {upstream : ℕ → Attempt} {k : ℕ}

/-- The response the stream is made of gives it its chunks. -/
theorem chunks_of_answered (answered : v.Answered ts server prompt upstream k)
    {pieces : List PyValue} {final : VLLMChunk}
    (finished : v.attemptStream ts server prompt (upstream k) = .finished pieces final) :
    (v.generateStream ts server prompt upstream).chunks = pieces.map textChunk ++ [final] := by
  obtain ⟨before, within, reached, -⟩ := answered
  obtain ⟨left, attempts⟩ : ∃ left, v.maxRetries.toNat = k + left + 1 :=
    ⟨v.maxRetries.toNat - k - 1, by omega⟩
  rw [VLLMProvider.generateStream, attempts,
    VLLMProvider.streamFrom_skip k (by rwa [Nat.zero_add]) (by simpa using before), Nat.zero_add,
    VLLMProvider.streamFrom, finished]

/-- What the chunks of a whole stream carry is what the frames of its response carry. -/
theorem textsIn_generateStream {content : Except PyError (List UInt8)} {lines : List String}
    {cs : List StreamChunk} (answered : v.Answered ts server prompt upstream k)
    (response : upstream k = .response 200 content lines none)
    (returned : (v.generateStream ts server prompt upstream).failure = none)
    (carries : Carries (v.generateStream ts server prompt upstream).chunks cs) :
    (textsIn cs).map .str = textsOf server lines := by
  have finishes := (VLLMProvider.generateStream_returns_iff answered).mp returned
  rw [response] at finishes
  obtain ⟨readable, usage, settled⟩ := VLLMProvider.attemptStream_finishes_iff.mp finishes
  let final : VLLMChunk := { finishReason := lastReason server lines, usage := some usage }
  have finished : v.attemptStream ts server prompt (upstream k) =
      .finished (textsOf server lines) final := by
    rw [response, VLLMProvider.attemptStream_readable readable, settled]
  have texts : ((textsOf server lines).map textChunk ++ [final]).map VLLMChunk.text =
      cs.map fun c => PyValue.str c.text := by
    have same := congrArg (List.map Prod.fst) carries
    rw [chunks_of_answered answered finished, List.map_map, List.map_map] at same
    exact same
  have kept : ∀ text ∈ textsOf server lines, text.truthy = true := by
    intro text mem
    obtain ⟨data, -, given⟩ := List.mem_filterMap.mp mem
    exact truthy_of_frameText given
  have given : (textsIn cs).map PyValue.str =
      (cs.map fun c => PyValue.str c.text).filter PyValue.truthy := by
    rw [textsIn, delivered, List.filter_map, List.map_map]
    rfl
  rw [given, ← texts, List.map_append, List.map_map, List.filter_append]
  have whole : (textsOf server lines).map (VLLMChunk.text ∘ textChunk) = textsOf server lines :=
    List.map_id _
  rw [whole, List.filter_eq_self.mpr kept]
  exact List.append_nil _

end Server

section Client

variable {σ : Type} {B : LedgerBackend σ} {ts : TextSupport} {s : Settings} {i : ℕ} {t : Task}
  {w : World σ} {r : StreamRecord}

/-- A request that was admitted is given the chunks that the vLLM provider yields, or the first of
them, from a response that it reads to its end. Whatever else happens in the run, the client reads
the texts of the server's frames, each of them in a frame of its own and in their order, as far as
the chunks have come. -/
theorem client_reads_server (f : Json.Floats) (client : PyHost) (explain : String → String)
    {breaks : Char → Bool} (newline : breaks '\n' = true)
    (printable : ∀ c, Json.Printable c → breaks c = false) {ledger : σ}
    (reached : Reaches (recording (World.step B ts s) (World.note i)) Always
      (World.start s ledger, {}) (w, r))
    (here : w.tasks[i]? = some t) (admitted : .admitted i ∈ w.log)
    (floats : ∀ e ∈ emissions (history i w.log), ∀ c ∈ e.costs, f.Faithful c)
    {v : VLLMProvider} {server : PyHost} {prompt : String} {upstream : ℕ → Attempt} {k : ℕ}
    {content : Except PyError (List UInt8)} {lines : List String}
    (answered : v.Answered ts server prompt upstream k)
    (response : upstream k = .response 200 content lines none)
    (returned : (v.generateStream ts server prompt upstream).failure = none)
    {rest : List StreamChunk}
    (carries : Carries (v.generateStream ts server prompt upstream).chunks (r.chunks ++ rest)) :
    (readBody (client.withJson f explain) breaks
        (body f (emissions (history i w.log)))).filterMap SseLine.shown ++
      (textsIn rest).map .str = textsOf server lines := by
  have transcribes := transcribes_of_reaches reached here
  have told : told (history i w.log) = textsIn r.chunks :=
    transcribes (.inl (mem_history.mpr ⟨admitted, rfl⟩))
  have shown : (emissions (history i w.log)).filterMap
      (fun e => SseLine.shown (.ok (.frame e.payload))) = (textsIn r.chunks).map .str := by
    rw [← told, LLMInference.told, List.map_filterMap]
    exact List.filterMap_congr fun e _ => shown_payload e
  rw [readBody_body client explain floats newline printable, List.filterMap_append,
    List.filterMap_map, ← textsIn_generateStream answered response returned carries,
    textsIn_append, List.map_append, ← shown]
  simp only [SseLine.shown, List.filterMap_cons, List.filterMap_nil, List.append_nil]
  rfl

end Client

/-- A request that was given the beginning of an answer. -/
def beginningActs : List WorldAct :=
  [.submit { prompt := "hi", userId := "u" } true, .task 0 (.run .none), .task 0 (.run .none),
    .task 0 (.run .none), .task 0 .next, .task 0 (.chunk { text := "The capital of" })]

def beginningEvents : List StreamEvent :=
  [.start "small" "SIMPLE" false false ["tier=SIMPLE -> primary=small ($0.0005)"] (3 / 6250),
    .delta "The capital of"]

/-- The attempt that meets it ends well, with an estimate. -/
theorem attemptStream_beginning :
    VLLMProvider.attemptStream {} .ascii (knowing beginning (.dict beginningValue)) "hi"
        (sending beginning 0) =
      .finished [.str "The capital of"] { finishReason := .str "stop", usage := some ⟨1, 4⟩ } := by
  have read : readLines (knowing beginning (.dict beginningValue)) {} ["data: " ++ beginning, ""] =
      ({ started := true, accumulated := 14, pieces := [.str "The capital of"] }, .exhausted) := by
    rfl
  have estimate : VLLMProvider.estimate {} .ascii "hi" 14 = .ok ⟨1, 4⟩ := by decide +kernel
  rw [sending, VLLMProvider.attemptStream_accepted, read]
  simp only [VLLMProvider.finish, estimate]
  rfl

theorem client_reads_server_beginning :
    ∃ w r, Reaches (recording (World.step Ledger.backend .ascii oneSlot) (World.note 0)) Always
        (World.start oneSlot {}, {}) (w, r) ∧
      (readBody (plainHost.withJson fiveDecimals fun _ => "") isNewline
        (body fiveDecimals (emissions (history 0 w.log)))).filterMap SseLine.shown =
          textsOf (knowing beginning (.dict beginningValue)) ["data: " ++ beginning, ""] := by
  have holds : execHolds (recording (World.step Ledger.backend .ascii oneSlot) (World.note 0))
      Always ((World.start oneSlot {}, {}) : World Ledger × StreamRecord) beginningActs
      (fun p => decide (p.2 = { chunks := [{ text := "The capital of" }] } ∧
        emissions (history 0 p.1.log) = beginningEvents ∧ .admitted 0 ∈ p.1.log) &&
          p.1.tasks[0]?.isSome) = true := by
    decide +kernel
  obtain ⟨⟨w, r⟩, reached, both⟩ := exists_reaches_of_execHolds _ _ holds
  obtain ⟨state, present⟩ := (Bool.and_eq_true ..).mp both
  obtain ⟨given, events, admitted⟩ := of_decide_eq_true state
  obtain ⟨t, here⟩ := Option.isSome_iff_exists.mp present
  obtain ⟨start, -⟩ := List.forall_mem_cons.mp faithful_brokenEvents
  have floats : ∀ e ∈ emissions (history 0 w.log), ∀ c ∈ e.costs, fiveDecimals.Faithful c := by
    rw [show emissions (history 0 w.log) = beginningEvents from events]
    refine List.forall_mem_cons.mpr ⟨start, List.forall_mem_singleton.mpr ?_⟩
    exact List.forall_mem_nil _
  let server := knowing beginning (.dict beginningValue)
  have answered : VLLMProvider.Answered {} .ascii server "hi" (sending beginning) 0 :=
    ⟨fun j lt => absurd lt (Nat.not_lt_zero j), by decide, Nat.zero_le _, .inr (by decide +kernel)⟩
  have carries : Carries (VLLMProvider.generateStream {} .ascii server "hi"
      (sending beginning)).chunks (r.chunks ++ [{ text := "", usage := some ⟨1, 4⟩ }]) := by
    rw [chunks_of_answered answered attemptStream_beginning,
      show r.chunks = [{ text := "The capital of" }] from congrArg StreamRecord.chunks given]
    rfl
  have returned : (VLLMProvider.generateStream {} .ascii server "hi"
      (sending beginning)).failure = none :=
    (VLLMProvider.generateStream_returns_iff answered).mpr ⟨_, _, attemptStream_beginning⟩
  have reads := client_reads_server fiveDecimals plainHost (fun _ => "") isNewline_newline
    (fun _ => isNewline_of_printable) reached here admitted floats answered rfl returned carries
  exact ⟨w, r, reached, (List.append_nil _).symm.trans reads⟩

end LLMInference
