import LLMInference.Providers.Stream
import LLMInference.Service.Provenance

/-!
`handle_stream` over a provider that passes on what a server sent (`app/service.py`).

The streams of `World` deliver texts and natural token counts. The texts and the counts of the
vLLM provider are the server's, any JSON values and any integers, so `relay` says what the
generator, consumed to its end, does with those: the events, and what `finalize` hands over.

`relay_served`: over texts and natural counts, this is what the service does.
-/

namespace LLMInference

open Runs

inductive RelayEvent where
  | start (model complexity : String) (downgraded cached : Bool) (routingNotes : List String)
      (projectedCostUsd : ℚ)
  | delta (text : PyValue)
  | «end» (model : String) (inputTokens outputTokens : ℤ) (costUsd : ℚ) (downgraded cached : Bool)
  | error (error detail : String)

namespace RelayEvent

def isEnd : RelayEvent → Bool
  | .end .. => true
  | _ => false

end RelayEvent

/-- The event of a service stream. -/
def StreamEvent.relayed : StreamEvent → RelayEvent
  | .start model complexity downgraded cached notes cost =>
      .start model complexity downgraded cached notes cost
  | .delta text => .delta (.str text)
  | .end model inputTokens outputTokens cost downgraded cached =>
      .end model inputTokens outputTokens cost downgraded cached
  | .error name detail => .error name detail

/-- `pieces` and `usage`. -/
structure RelayState where
  pieces : List PyValue := []
  usage : Option ReportedUsage := none

/-- What `finalize` hands to `_finalize_later`. -/
structure RelayFinalizer where
  usage : ReportedUsage
  text : Option String

/-- The stream, consumed to its end. -/
structure Relay where
  events : List RelayEvent
  /-- What `finalize` hands over, or the exception it raises instead. -/
  finalizer : Except PyError RelayFinalizer

/-- `ModelSpec.cost` of any integers. -/
def ModelSpec.costOf (m : ModelSpec) (u : ReportedUsage) : ℚ :=
  u.inputTokens / 1000 * m.inputPricePer1k + u.outputTokens / 1000 * m.outputPricePer1k

namespace RelayState

/-- `pieces` and `usage` after a chunk. -/
def receive (st : RelayState) (c : VLLMChunk) : RelayState :=
  { usage := c.usage.or st.usage
    pieces := if c.text.truthy then st.pieces ++ [c.text] else st.pieces }

variable (ts : TextSupport) (s : Settings) (d : RoutingDecision) (st : RelayState)

/-- Reported usage, or what was delivered so far. -/
def finalUsage : Except PyError ReportedUsage :=
  match st.usage with
  | some u => .ok u
  | none => do
      let text ← PyValue.join st.pieces
      let outputTokens ← tokensOf ts text s.charsPerToken
      return { inputTokens := d.inputTokens, outputTokens }

/-- `finalize()`. -/
def finalize (completed : Bool) : Except PyError RelayFinalizer := do
  let usage ← st.finalUsage ts s d
  if completed then
    let text ← PyValue.join st.pieces
    return { usage, text := some text }
  else return { usage, text := none }

end RelayState

/-- The end event for some usage. -/
def relayEnd (d : RoutingDecision) (u : ReportedUsage) : RelayEvent :=
  .end d.model.name u.inputTokens u.outputTokens (Decimal.roundTo 6 (d.model.costOf u))
    d.downgraded false

/-- The body of `handle_stream` after admission, over the stream the provider makes. -/
def relay (ts : TextSupport) (s : Settings) (d : RoutingDecision) (stream : VLLMStream) : Relay :=
  let st := stream.chunks.foldl RelayState.receive {}
  let begun := (startEvent d).relayed ::
    (stream.chunks.filter fun c => c.text.truthy).map fun c => .delta c.text
  match stream.failure with
  | some f =>
      { events := begun ++ [.error f.typeName f.detail], finalizer := st.finalize ts s d false }
  | none =>
      match st.finalUsage ts s d with
      | .ok u => { events := begun ++ [relayEnd d u], finalizer := st.finalize ts s d true }
      | .error e =>
          { events := begun ++ [.error e.typeName e.detail],
            finalizer := st.finalize ts s d true }

namespace Relay

/-- What the finalizer stores, if there is a cache: the text, and the usage. -/
def stored (r : Relay) : Option (String × ReportedUsage) :=
  match r.finalizer with
  | .ok { usage, text := some text } => some (text, usage)
  | _ => none

/-- A normal end was reported. -/
def ended (r : Relay) : Bool := r.events.any RelayEvent.isEnd

end Relay

section Ends

variable {ts : TextSupport} {s : Settings} {d : RoutingDecision} {stream : VLLMStream}

/-- A stream that failed is not stored, and no end of it is reported. -/
theorem relay_of_failure {f : ProviderFailure} (failed : stream.failure = some f) :
    (relay ts s d stream).stored = none ∧ (relay ts s d stream).ended = false := by
  simp only [relay, failed]
  constructor
  · simp only [Relay.stored, RelayState.finalize]
    cases RelayState.finalUsage ts s d (stream.chunks.foldl RelayState.receive {}) <;> rfl
  · simp [Relay.ended, RelayEvent.isEnd, StreamEvent.relayed, startEvent]

/-- A stream that returned with usage has its end reported. -/
theorem relay_of_return (returned : stream.failure = none) {pieces : List VLLMChunk}
    {final : VLLMChunk} (chunks : stream.chunks = pieces ++ [final])
    (usage : final.usage.isSome = true) : (relay ts s d stream).ended = true := by
  obtain ⟨u, here⟩ := Option.isSome_iff_exists.mp usage
  simp only [relay, returned, chunks, List.foldl_append, List.foldl_cons, List.foldl_nil,
    RelayState.receive, RelayState.finalUsage, here, Option.some_or]
  simp [Relay.ended, RelayEvent.isEnd, relayEnd]

end Ends

/-! ### What the service does -/

/-- Some usage, as a server may report it. -/
def Usage.reported (u : Usage) : ReportedUsage :=
  { inputTokens := u.inputTokens, outputTokens := u.outputTokens }

/-- What `handle_stream` reads of a chunk. -/
def VLLMChunk.content (c : VLLMChunk) : PyValue × Option ReportedUsage := (c.text, c.usage)

def StreamChunk.content (c : StreamChunk) : PyValue × Option ReportedUsage :=
  (.str c.text, c.usage.map Usage.reported)

/-- The chunks carry the same texts and counts. -/
def Carries (vs : List VLLMChunk) (cs : List StreamChunk) : Prop :=
  vs.map VLLMChunk.content = cs.map StreamChunk.content

/-- The texts and counts of a service stream. -/
def StreamState.relayed (st : StreamState) : RelayState :=
  { pieces := st.pieces.map .str, usage := st.usage.map Usage.reported }

/-- The chunks that are delivered. -/
def delivered (cs : List StreamChunk) : List StreamChunk := cs.filter fun c => decide (c.text ≠ "")

section Texts

variable {ts : TextSupport} {s : Settings} {st : StreamState} {cs : List StreamChunk}

theorem truthy_str (text : String) : (PyValue.str text).truthy = decide (text ≠ "") := rfl

theorem receive_relayed {v : VLLMChunk} {c : StreamChunk} (carries : v.content = c.content) :
    st.relayed.receive v = (st.receive c).relayed := by
  obtain ⟨text, usage⟩ := Prod.mk.inj carries
  simp only [RelayState.receive, StreamState.receive, StreamState.relayed, text, usage, truthy_str,
    RelayState.mk.injEq]
  constructor
  · by_cases empty : c.text = "" <;> simp [empty]
  · cases c.usage <;> rfl

/-- Over texts and natural counts the state of the relay is the one of the service. -/
theorem foldl_receive {vs : List VLLMChunk} (carries : Carries vs cs) :
    vs.foldl RelayState.receive st.relayed = (cs.foldl StreamState.receive st).relayed := by
  induction cs generalizing vs st with
  | nil =>
      obtain rfl : vs = [] := by simpa [Carries] using carries
      rfl
  | cons c rest ih =>
      obtain ⟨v, vs', rfl, head, tail⟩ := List.map_eq_cons_iff.mp carries
      rw [List.foldl_cons, List.foldl_cons, receive_relayed head, ih tail]

theorem deltas_eq {vs : List VLLMChunk} (carries : Carries vs cs) :
    ((vs.filter fun c => c.text.truthy).map fun c => RelayEvent.delta c.text) =
      ((delivered cs).map fun c => StreamEvent.delta c.text).map StreamEvent.relayed := by
  induction cs generalizing vs with
  | nil =>
      obtain rfl : vs = [] := by simpa [Carries] using carries
      rfl
  | cons c rest ih =>
      obtain ⟨v, vs', rfl, head, tail⟩ := List.map_eq_cons_iff.mp carries
      have text : v.text = .str c.text := (Prod.mk.inj head).1
      have more := ih tail
      unfold delivered at more ⊢
      by_cases empty : c.text = ""
      · rw [List.filter_cons_of_neg (by simp [text, truthy_str, empty]),
          List.filter_cons_of_neg (by simp [empty]), more]
      · rw [List.filter_cons_of_pos (by simp [text, truthy_str, empty]),
          List.filter_cons_of_pos (by simp [empty]), List.map_cons, List.map_cons, List.map_cons,
          more, text]
        rfl

theorem finalUsage_relayed (divides : s.charsPerToken ≠ 0) :
    st.relayed.finalUsage ts s st.decision = .ok (st.finalUsage ts s).reported := by
  cases reported : st.usage with
  | some u => simp [RelayState.finalUsage, StreamState.relayed, StreamState.finalUsage, reported]
  | none =>
      simp [RelayState.finalUsage, StreamState.relayed, StreamState.finalUsage, reported,
        PyValue.join_map_str, tokensOf, divides, bind, Except.bind, pure, Except.pure,
        Usage.reported]

theorem relayEnd_reported (d : RoutingDecision) (u : Usage) :
    relayEnd d u.reported = (endEvent d u).relayed := by
  simp [relayEnd, endEvent, StreamEvent.relayed, Usage.reported, ModelSpec.costOf, chargeFor,
    ModelSpec.cost]

end Texts

section Run

variable {σ : Type} {B : LedgerBackend σ} {ts : TextSupport} {s : Settings} {i : ℕ} {t : Task}
  {w : World σ} {ph ph' : Phase} {sh sh' : Shared σ} {told : List StreamEvent} {evs : List Event}
  {st : StreamState}

/-- Where request `i` is, and what its consumer has been told. -/
structure Stands (i : ℕ) (t : Task) (w : World σ) (ph : Phase) (sh : Shared σ)
    (told : List StreamEvent) : Prop where
  task : w.tasks[i]? = some { t with phase := ph }
  shared : w.shared = sh
  told : emissions (history i w.log) = told

/-- The world goes on to one where request `i` stands so. -/
def Arrives (B : LedgerBackend σ) (ts : TextSupport) (s : Settings) (i : ℕ) (t : Task) (w : World σ)
    (ph : Phase) (sh : Shared σ) (told : List StreamEvent) : Prop :=
  ∃ w', Reaches (World.step B ts s) Always w w' ∧ Stands i t w' ph sh told

theorem Stands.arrives (stands : Stands i t w ph sh told) : Arrives B ts s i t w ph sh told :=
  ⟨w, .refl, stands⟩

/-- One more step of the request. -/
theorem Arrives.step (arrives : Arrives B ts s i t w ph sh told) (a : TaskAct) (sh' : Shared σ)
    (ph' : Phase) (evs : List Event)
    (stepped : taskStep B ts s i { t with phase := ph } sh a = some (sh', ph', evs)) :
    Arrives B ts s i t w ph' sh' (told ++ emissions (history i evs)) := by
  obtain ⟨w₁, reached, task, rfl, rfl⟩ := arrives
  refine ⟨{ shared := sh', tasks := w₁.tasks.set i { t with phase := ph' }, log := w₁.log ++ evs },
    reached.tail (a := .task i a) trivial ?_, ⟨?_, rfl, ?_⟩⟩
  · simp only [World.step, task, stepped]
  · exact Pool.get_set_self task _
  · rw [history_append, emissions_append]

/-- The chunks, one after the other. -/
theorem Arrives.chunks (cs : List StreamChunk)
    (arrives : Arrives B ts s i t w (.pulling st) sh told) :
    Arrives B ts s i t w (.pulling (cs.foldl StreamState.receive st)) sh
      (told ++ (delivered cs).map fun c => .delta c.text) := by
  induction cs generalizing st told with
  | nil => simpa [delivered] using arrives
  | cons c rest ih =>
      by_cases empty : c.text = ""
      · have stepped := arrives.step (.chunk c) sh (.pulling (st.receive c)) []
          (by simp [taskStep, chunkStep, empty])
        simpa [delivered, empty, history, emissions] using ih stepped
      · have told := arrives.step (.chunk c) sh (.yielded (st.receive c) .delta)
          [.emitted i (.delta c.text)] (by simp [taskStep, chunkStep, empty])
        have stepped := told.step .next sh (.pulling (st.receive c)) [] (by simp [taskStep])
        rw [emissions_emitted] at stepped
        simpa [delivered, empty, history, emissions] using ih stepped

/-- The finalizer stores the text it was given, and nothing else. -/
theorem Arrives.finalizer {fin : Finalizer} {e : Exit}
    (arrives : Arrives B ts s i t w (.finalizing fin e) sh told) :
    ∃ sh', Arrives B ts s i t w (.done e) sh' told ∧
      sh'.cache = match fin.text with
        | some text => (sh.store s fin.decision t.request.prompt text fin.usage).cache
        | none => sh.cache := by
  have healthy : B.admits .none = true := by simp [LedgerBackend.admits]
  let c := chargeFor fin.decision.model fin.usage
  rcases bill : B.settle .none sh.ledger fin.reservation c sh.now with ⟨err, r, ledger⟩
  let sh₁ : Shared σ := { sh with ledger }
  let billed := settleEvents i fin.reservation c sh.now .none
  have quiet : emissions (history i billed) = [] := emissions_eq_nil silent_settleEvents
  have closing : emissions (history i [.finished i, .slotReleased i]) = [] :=
    emissions_eq_nil (by simp)
  by_cases stores : (fin.text.isSome && sh.cache.isSome) = true
  · obtain ⟨text, kept⟩ := Option.isSome_iff_exists.mp (Bool.and_eq_true_iff.mp stores).1
    let sh₂ := sh₁.store s fin.decision t.request.prompt text fin.usage
    refine ⟨(sh₂.finish fin.usage c.cost fin.decision.downgraded).leave, ?_, by rw [kept]; rfl⟩
    have settled := arrives.step (.run .none) sh₁ (.storing { fin with reservation := r } e) billed
      (by simp [taskStep, healthy, finalizeStep, bill, stores, c, sh₁, billed])
    have closed := settled.step (.run .none)
      (sh₂.finish fin.usage c.cost fin.decision.downgraded).leave (.done e)
      [.finished i, .slotReleased i]
      (by simp [taskStep, healthy, storeStep, closeFinalizer, kept, c, sh₂])
    rwa [quiet, closing, List.append_nil, List.append_nil] at closed
  · refine ⟨(sh₁.finish fin.usage c.cost fin.decision.downgraded).leave, ?_, ?_⟩
    · have closed := arrives.step (.run .none)
        (sh₁.finish fin.usage c.cost fin.decision.downgraded).leave (.done e)
        (billed ++ [.finished i, .slotReleased i])
        (by simp [taskStep, healthy, finalizeStep, closeFinalizer, bill, stores, c, sh₁, billed])
      rwa [history_append, emissions_append, quiet, closing, List.append_nil, List.append_nil]
        at closed
    · cases text : fin.text with
      | none => rfl
      | some text' =>
          have none : sh.cache = none := by simpa [text] using stores
          simp [Shared.store, Shared.leave, Shared.finish, sh₁, none]

theorem foldl_receive_decision (st : StreamState) (cs : List StreamChunk) :
    (cs.foldl StreamState.receive st).decision = st.decision ∧
      (cs.foldl StreamState.receive st).completed = st.completed := by
  induction cs generalizing st with
  | nil => exact ⟨rfl, rfl⟩
  | cons c rest ih => exact ih (st.receive c)

/-- A stream that returns: the end event, and the finalizer with the text. -/
theorem Arrives.returned (arrives : Arrives B ts s i t w (.pulling st) sh told) :
    ∃ sh', Arrives B ts s i t w (.done .streamed) sh'
        (told ++ [endEvent st.decision (st.finalUsage ts s)]) ∧
      sh'.cache = (sh.store s st.decision t.request.prompt (String.join st.pieces)
        (st.finalUsage ts s)).cache := by
  let st' : StreamState := { st with completed := true }
  have ended := arrives.step .exhausted sh (.yielded st' .end)
    [.emitted i (endEvent st.decision (st.finalUsage ts s))]
    (by simp [taskStep, exhaustedStep, st'])
  have exited := ended.step .next sh (.finalizing (st'.finalize ts s) .streamed) []
    (by simp [taskStep, exitStream])
  rw [emissions_emitted, history_nil] at exited
  obtain ⟨sh', done, cache⟩ := exited.finalizer
  refine ⟨sh', ?_, cache⟩
  simpa [emissions] using done

/-- A stream that fails: the error event, and the finalizer without a text. -/
theorem Arrives.failed (f : ProviderFailure) (completed : st.completed = false)
    (arrives : Arrives B ts s i t w (.pulling st) sh told) :
    ∃ sh', Arrives B ts s i t w (.done (.streamFailed f)) sh'
        (told ++ [.error f.typeName f.detail]) ∧ sh'.cache = sh.cache := by
  let failures := (sh.breakers.get st.decision.model.name).consecutiveFailures
  let faulted : List Event :=
    if f.serverFault then [.faulted i st.decision.model.name failures failures] else []
  have quiet : emissions (history i faulted) = [] := by
    apply emissions_eq_nil
    intro j e
    simp only [faulted]
    split <;> simp
  have raised := arrives.step (.streamError f) sh (.yielded st (.error f))
    (faulted ++ [.emitted i (.error f.typeName f.detail)])
    (by simp [taskStep, streamErrorStep, faulted, failures])
  have exited := raised.step .next sh (.finalizing (st.finalize ts s) (.streamFailed f)) []
    (by simp [taskStep, exitStream])
  rw [history_append, emissions_append, quiet, emissions_emitted, history_nil] at exited
  obtain ⟨sh', done, cache⟩ := exited.finalizer
  refine ⟨sh', ?_, by simpa [StreamState.finalize, completed] using cache⟩
  simpa [emissions] using done

/-- Where the texts and counts of the stream are texts and natural numbers, a request of the
service that consumes it to its end is told what `relay` says, and the cache gets what it says. -/
theorem relay_served (divides : s.charsPerToken ≠ 0) {stream : VLLMStream} {cs : List StreamChunk}
    (carries : Carries stream.chunks cs) (usage : st.usage = none) (pieces : st.pieces = [])
    (completed : st.completed = false)
    (stands : Stands i t w (.yielded st .start) sh [startEvent st.decision]) :
    ∃ (sh' : Shared σ) (e : Exit) (told : List StreamEvent),
      Arrives B ts s i t w (.done e) sh' told ∧
      (relay ts s st.decision stream).events = told.map StreamEvent.relayed ∧
      sh'.cache = match (relay ts s st.decision stream).stored with
        | some (text, u) =>
            (sh.store s st.decision t.request.prompt text
              ⟨u.inputTokens.toNat, u.outputTokens.toNat⟩).cache
        | none => sh.cache := by
  let st' := cs.foldl StreamState.receive st
  obtain ⟨decision, completed'⟩ := foldl_receive_decision st cs
  rw [completed] at completed'
  have fresh : st.relayed = {} := by simp [StreamState.relayed, usage, pieces]
  have state : stream.chunks.foldl RelayState.receive {} = st'.relayed := by
    rw [← fresh]
    exact foldl_receive carries
  have standing : Arrives B ts s i t w (.yielded st .start) sh [startEvent st.decision] :=
    stands.arrives
  have begun := standing.step .next sh (.pulling st)
    [.invoked i st.decision.model.name none (sh.breakers.get st.decision.model.name) sh.mono]
    (by simp [taskStep, beginStream])
  rw [emissions_eq_nil (by simp), List.append_nil] at begun
  have pulled := begun.chunks cs
  cases failure : stream.failure with
  | some f =>
      obtain ⟨sh', done, cache⟩ := pulled.failed f completed'
      refine ⟨sh', _, _, done, ?_, ?_⟩
      · simp [relay, failure, deltas_eq carries, StreamEvent.relayed]
      · rw [(relay_of_failure failure).1]
        exact cache
  | none =>
      obtain ⟨sh', done, cache⟩ := pulled.returned
      have final : st'.relayed.finalUsage ts s st.decision = .ok (st'.finalUsage ts s).reported :=
        decision ▸ finalUsage_relayed divides
      have joined : PyValue.join st'.relayed.pieces = .ok (String.join st'.pieces) :=
        PyValue.join_map_str _
      refine ⟨sh', _, _, done, ?_, ?_⟩
      · simp only [relay, failure, state, final, deltas_eq carries, relayEnd_reported]
        simp [decision, st']
      · rw [cache, decision]
        simp [Relay.stored, relay, failure, state, final, RelayState.finalize, joined, bind,
          Except.bind, pure, Except.pure, Usage.reported, st']

end Run

end LLMInference
