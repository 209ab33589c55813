import LLMInference.Service.State

/-!
The steps of the service (`app/service.py`).

`taskStep` takes one request from a suspension point to the next; `World.step` interleaves
any number of requests with the clocks and with `autoscale_tick`. What the provider
answers, what a consumer of a stream does, when a timeout fires and who is cancelled
are actions.

A cancelled call to the ledger or the cache may have taken effect before (`executed`); where these
are in memory their calls do not suspend, and nobody is cancelled in them. The gate's lock is free
whenever it is asked for, so `gate.release` does not suspend. Neither does `gate.acquire` while
there is a slot, and `wait_for` drops a cancellation once its `acquire` is done: a request is not
cancelled at the entrance of the gate, only when it is parked.
-/

namespace LLMInference

/-- What lets a request move on. -/
inductive TaskAct where
  /-- The call the request is in returns; a ledger call meets `fault`. -/
  | run (fault : LedgerFault)
  /-- The marked waiter runs. -/
  | wake
  /-- The admission timeout fires. -/
  | timeout
  | answer (o : GenerateOutcome)
  | chunk (c : StreamChunk)
  /-- The chunk iterator ends. -/
  | exhausted
  | streamError (f : ProviderFailure)
  /-- The consumer asks for the next event. -/
  | next
  /-- The consumer closes the stream. -/
  | close
  | cancel (executed : Bool)
  deriving DecidableEq, Repr

inductive WorldAct where
  | submit (req : Request) (streaming : Bool)
  | clock (now mono : ℚ)
  /-- `autoscale_tick`; the second clock reading is `later`. -/
  | scale (later : ℚ)
  | task (i : ℕ) (a : TaskAct)
  deriving DecidableEq, Repr

/-- What a step of a request leaves behind. -/
abbrev Out (σ : Type) := Shared σ × Phase × List Event

/-! ### Pieces of the two methods -/

/-- `_cache_key`. -/
def cacheKey (d : RoutingDecision) (prompt : String) : CacheKey :=
  { model := d.model.name, prompt, maxOutputTokens := d.projectedOutputTokens }

def cachedNotes (d : RoutingDecision) : List String := d.notes ++ ["served from cache (cost $0)"]

/-- `_cached_result`. -/
def cachedResult (d : RoutingDecision) (e : CacheEntry) : InferenceResult :=
  { text := e.text, model := e.model, complexity := d.complexity.tier.name,
    inputTokens := e.inputTokens, outputTokens := e.outputTokens, costUsd := 0,
    downgraded := d.downgraded, routingNotes := cachedNotes d, cached := true }

/-- The events of `_replay_cached`. -/
def replayCached (d : RoutingDecision) (e : CacheEntry) : List StreamEvent :=
  .start e.model d.complexity.tier.name d.downgraded true (cachedNotes d) 0 ::
    (if e.text = "" then [] else [.delta e.text]) ++
      [.end e.model e.inputTokens e.outputTokens 0 d.downgraded true]

/-- The charge for some usage of a model. -/
def chargeFor (m : ModelSpec) (u : Usage) : Charge :=
  { cost := m.cost u.inputTokens u.outputTokens, model := m.name, inputTokens := u.inputTokens,
    outputTokens := u.outputTokens }

def Completion.usage (k : Completion) : Usage :=
  { inputTokens := k.inputTokens, outputTokens := k.outputTokens }

/-- The result `handle` returns for a generation. -/
def servedResult (served : RoutingDecision) (k : Completion) : InferenceResult :=
  { text := k.text, model := served.model.name, complexity := served.complexity.tier.name,
    inputTokens := k.inputTokens, outputTokens := k.outputTokens,
    costUsd := Decimal.roundTo 6 (chargeFor served.model k.usage).cost,
    downgraded := served.downgraded, routingNotes := served.notes }

def startEvent (d : RoutingDecision) : StreamEvent :=
  .start d.model.name d.complexity.tier.name d.downgraded false d.notes
    (Decimal.roundTo 6 d.projectedCost)

def endEvent (d : RoutingDecision) (u : Usage) : StreamEvent :=
  .end d.model.name u.inputTokens u.outputTokens (Decimal.roundTo 6 (chargeFor d.model u).cost)
    d.downgraded false

/-- Reported usage, or what was delivered so far. -/
def StreamState.finalUsage (ts : TextSupport) (s : Settings) (st : StreamState) : Usage :=
  st.usage.getD
    { inputTokens := st.decision.inputTokens
      outputTokens := countTokens ts (String.join st.pieces) s.charsPerToken }

/-- `finalize()`. -/
def StreamState.finalize (ts : TextSupport) (s : Settings) (st : StreamState) : Finalizer :=
  { decision := st.decision, reservation := st.reservation, usage := st.finalUsage ts s,
    text := if st.completed then some (String.join st.pieces) else none }

/-- `pieces` and `usage` after a chunk. -/
def StreamState.receive (st : StreamState) (c : StreamChunk) : StreamState :=
  { st with
    usage := c.usage.or st.usage
    pieces := if c.text = "" then st.pieces else st.pieces ++ [c.text] }

/-- What a settle records about itself. -/
def settleEvents (i : ℕ) (r : Reservation) (c : Charge) (now : ℚ) (f : LedgerFault) : List Event :=
  .billed i c :: if !r.closed && f.executed then [.settled i r.userId c now] else []

def releaseEvents (i : ℕ) (r : Reservation) (f : LedgerFault) : List Event :=
  if !r.closed && f.executed then [.released i] else []

/-- A cancelled call: it took effect or it did not. -/
def cancelFault (executed : Bool) : LedgerFault := if executed then .none else .lost "cancelled"

namespace Shared

variable {σ : Type}

/-- `gate.release()`. -/
def leave (sh : Shared σ) : Shared σ := { sh with gate := sh.gate.release }

/-- `metrics.request_finished` for some usage. -/
def finish (sh : Shared σ) (u : Usage) (cost : ℚ) (downgraded : Bool) : Shared σ :=
  { sh with metrics := sh.metrics.requestFinished u.inputTokens u.outputTokens cost downgraded }

/-- `_cache_store`. -/
def store (sh : Shared σ) (s : Settings) (d : RoutingDecision) (prompt text : String) (u : Usage) :
    Shared σ :=
  { sh with
    cache := sh.cache.map fun c =>
      c.set (cacheKey d prompt)
        { text, inputTokens := u.inputTokens, outputTokens := u.outputTokens, model := d.model.name }
        s.cacheTtlS sh.mono }

end Shared

section Steps

variable {σ : Type} (B : LedgerBackend σ) (ts : TextSupport) (s : Settings) (i : ℕ) (t : Task)
  (sh : Shared σ)

/-- Steps 1 and 2: rate limit and route. -/
def arrive : Out σ :=
  let (limited, limiter) := match sh.limiter with
    | none => ((.ok () : Except (Option ℚ) Unit), none)
    | some l => let (res, l') := l.check t.request.userId sh.mono 1; (res, some l')
  match limited with
  | .error retryAfterS =>
      ({ sh with limiter, metrics := sh.metrics.requestRateLimited },
        .done (.rateLimited retryAfterS), [])
  | .ok () =>
      match route ts s t.request.routing [] with
      | .error e =>
          ({ sh with limiter, metrics := sh.metrics.requestRejected }, .done (.unroutable e), [])
      | .ok d =>
          ({ sh with limiter }, if sh.cache.isSome then .lookup d else .reserving d, [])

/-- Step 3: a hit is free and skips the rest. -/
def lookupCache (d : RoutingDecision) : Out σ :=
  match sh.cache with
  | none => (sh, .reserving d, [])
  | some c =>
      match c.get (cacheKey d t.request.prompt) sh.mono with
      | (some entry, c') =>
          let sh' := { sh with cache := some c', metrics := sh.metrics.cacheHit }
          if t.streaming then
            match replayCached d entry with
            | [] => (sh', .done .streamed, [])
            | e :: rest => (sh', .replaying rest, [.emitted i e])
          else (sh', .done (.result (cachedResult d entry)), [.returned i (cachedResult d entry)])
      | (none, c') =>
          ({ sh with cache := some c', metrics := sh.metrics.cacheMiss }, .reserving d, [])

/-- Step 4: hold the projected cost. The request's number stands for the identifier the
reservation draws. -/
def reserveBudget (d : RoutingDecision) (f : LedgerFault) : Out σ :=
  let pruned := if f.executed then [.pruned t.request.userId sh.now] else []
  match B.reserve f sh.ledger i t.request.userId d.projectedCost (t.request.userLimit s) sh.now with
  | (.ok r, ledger) => ({ sh with ledger }, .granted d r, pruned ++ [.granted i r])
  | (.error e, ledger) =>
      ({ sh with ledger, metrics := sh.metrics.requestRejected }, .done (.ledger e), pruned)

/-- Past the gate: `request_started`, and on to the first suspension point. -/
def enter (d : RoutingDecision) (r : Reservation) (gate : CapacityGate) : Out σ :=
  let sh' := { sh with gate, metrics := sh.metrics.requestStarted }
  if t.streaming then
    (sh', .yielded { decision := d, reservation := r } .start,
      [.admitted i, .started i, .emitted i (startEvent d)])
  else (sh', .attempting r (.start t.request.routing d), [.admitted i, .started i])

/-- Step 5: at the gate, at once or after a wake-up. -/
def passGate (d : RoutingDecision) (r : Reservation) (out : Bool × CapacityGate) : Out σ :=
  if out.1 then enter i t sh d r out.2 else ({ sh with gate := out.2 }, .queued d r, [])

/-- The admission timeout: the acquire is cancelled, the hold is to be refunded. -/
def shed (r : Reservation) : Out σ :=
  ({ sh with gate := sh.gate.abandon i, metrics := sh.metrics.requestShed }, .shedding r, [.shed i])

def finishShed (r : Reservation) (f : LedgerFault) : Out σ :=
  let (e, _, ledger) := B.release f sh.ledger r
  ({ sh with ledger }, .done ((e.map .ledger).getD (.shed s.admissionTimeoutS)),
    releaseEvents i r f)

/-- Where the failover loop leaves the request. -/
def ofCall (r : Reservation) : CallPhase → Phase × List Event
  | .attempting c => (.attempting r c, [])
  | .generating c => (.generating r c, [])
  | .returned served k => (.settling r served k, [.generated i served k])
  | .raised e => (.refunding r (.generation e), [.failed i e])
  | .cancelled => (.done .cancelled, [])

/-- Step 6, one pass of the failover loop. -/
def attemptStep (r : Reservation) (c : FailoverCall) : Out σ :=
  let before := sh.breakers.get c.target
  let (breakers, ph, metrics) := c.attempt ts s sh.mono sh.breakers sh.metrics
  let invoked : List Event := match ph with
    | .generating _ => [.invoked i c.target (some (before.allows sh.mono).1) before sh.mono]
    | _ => []
  ({ sh with breakers, metrics }, (ofCall i r ph).1, invoked ++ (ofCall i r ph).2)

/-- Step 6, the provider's answer. -/
def answerStep (r : Reservation) (c : FailoverCall) (o : GenerateOutcome) : Out σ :=
  let (breakers, ph, metrics) := c.onOutcome ts s sh.mono o sh.breakers sh.metrics
  let faulted : List Event := match o with
    | .failure f =>
        if f.serverFault then
          [.faulted i c.target (sh.breakers.get c.target).consecutiveFailures
            (breakers.get c.target).consecutiveFailures]
        else []
    | .completion _ => []
  ({ sh with breakers, metrics }, (ofCall i r ph).1, faulted ++ (ofCall i r ph).2)

/-- Step 7: settle; then store, or return when there is no cache. -/
def settleStep (r : Reservation) (served : RoutingDecision) (k : Completion) (f : LedgerFault) :
    Out σ :=
  let c := chargeFor served.model k.usage
  let events := settleEvents i r c sh.now f
  match B.settle f sh.ledger r c sh.now with
  | (some e, r', ledger) => ({ sh with ledger }, .refunding r' (.ledger e), events)
  | (none, r', ledger) =>
      let sh' := Shared.finish { sh with ledger } k.usage c.cost served.downgraded
      if sh.cache.isSome then (sh', .caching r' served k, events ++ [.finished i])
      else
        (sh'.leave, .done (.result (servedResult served k)),
          events ++ [.finished i, .slotReleased i, .returned i (servedResult served k)])

def returnStep (served : RoutingDecision) (k : Completion) : Out σ :=
  ((sh.store s served t.request.prompt k.text k.usage).leave,
    .done (.result (servedResult served k)),
    [.slotReleased i, .returned i (servedResult served k)])

/-- The `except` branch of `handle`. When the release raises, `request_finished` is not
reached. -/
def refundStep (r : Reservation) (e : Exit) (f : LedgerFault) : Out σ :=
  match B.release f sh.ledger r with
  | (some e', _, ledger) =>
      (({ sh with ledger } : Shared σ).leave, .done (.ledger e'),
        releaseEvents i r f ++ [.slotReleased i])
  | (none, _, ledger) =>
      ((({ sh with ledger } : Shared σ).finish ⟨0, 0⟩ 0 false).leave, .done e,
        releaseEvents i r f ++ [.finished i, .slotReleased i])

/-- The generator exits: its `finally` starts the finalizer. -/
def exitStream (st : StreamState) (e : Exit) : Out σ := (sh, .finalizing (st.finalize ts s) e, [])

/-- The first request for a chunk invokes `generate_stream`. -/
def beginStream (st : StreamState) : Out σ :=
  (sh, .pulling st,
    [.invoked i st.decision.model.name none (sh.breakers.get st.decision.model.name) sh.mono])

def chunkStep (st : StreamState) (c : StreamChunk) : Out σ :=
  if c.text = "" then (sh, .pulling (st.receive c), [])
  else (sh, .yielded (st.receive c) .delta, [.emitted i (.delta c.text)])

def exhaustedStep (st : StreamState) : Out σ :=
  (sh, .yielded { st with completed := true } .end,
    [.emitted i (endEvent st.decision (st.finalUsage ts s))])

/-- The provider raises between two chunks. -/
def streamErrorStep (st : StreamState) (f : ProviderFailure) : Out σ :=
  let failures := (sh.breakers.get st.decision.model.name).consecutiveFailures
  (sh, .yielded st (.error f),
    (if f.serverFault then [.faulted i st.decision.model.name failures failures] else []) ++
      [.emitted i (.error f.typeName f.detail)])

/-- The end of the finalizer: `request_finished` and `gate.release`. -/
def closeFinalizer (fin : Finalizer) (e : Exit) (events : List Event) : Out σ :=
  ((sh.finish fin.usage (chargeFor fin.decision.model fin.usage).cost fin.decision.downgraded).leave,
    .done e, events ++ [.finished i, .slotReleased i])

/-- The finalizer's settle, whose exceptions are only logged. -/
def finalizeStep (fin : Finalizer) (e : Exit) (f : LedgerFault) : Out σ :=
  let c := chargeFor fin.decision.model fin.usage
  let (_, r, ledger) := B.settle f sh.ledger fin.reservation c sh.now
  let sh' := { sh with ledger }
  let events := settleEvents i fin.reservation c sh.now f
  if fin.text.isSome && sh.cache.isSome then
    (sh', .storing { fin with reservation := r } e, events)
  else closeFinalizer i sh' fin e events

def storeStep (fin : Finalizer) (e : Exit) : Out σ :=
  closeFinalizer i (sh.store s fin.decision t.request.prompt (fin.text.getD "") fin.usage) fin e []

/-- A cancelled `handle` that holds a slot: its `finally` returns it. -/
def cancelHolding (ledger : σ) (events : List Event) : Out σ :=
  (({ sh with ledger } : Shared σ).leave, .done .cancelled, events ++ [.slotReleased i])

/-- One request, from a suspension point to the next. The entrance of the gate is none: with a slot
free `wait_for` returns the finished `acquire` and drops a cancel, and with none the request parks
first. -/
def taskStep : TaskAct → Option (Out σ)
  | .run f =>
      if B.admits f then
        match t.phase with
        | .arrived => some (arrive ts s t sh)
        | .lookup d => some (lookupCache i t sh d)
        | .reserving d => some (reserveBudget B s i t sh d f)
        | .granted d r => some (passGate i t sh d r (sh.gate.acquire i))
        | .shedding r => some (finishShed B s i sh r f)
        | .attempting r c => some (attemptStep ts s i sh r c)
        | .settling r served k => some (settleStep B i sh r served k f)
        | .caching _ served k => some (returnStep s i t sh served k)
        | .refunding r e => some (refundStep B i sh r e f)
        | .finalizing fin e => some (finalizeStep B i sh fin e f)
        | .storing fin e => some (storeStep s i t sh fin e)
        | _ => none
      else none
  | .wake =>
      match t.phase with
      | .queued d r =>
          if sh.gate.runnable i then some (passGate i t sh d r (sh.gate.resume i)) else none
      | _ => none
  | .timeout =>
      match t.phase with
      | .queued _ r => if 0 < s.admissionTimeoutS then some (shed i sh r) else none
      | _ => none
  | .answer o =>
      match t.phase with
      | .generating r c => some (answerStep ts s i sh r c o)
      | _ => none
  | .chunk c =>
      match t.phase with
      | .pulling st => some (chunkStep i sh st c)
      | _ => none
  | .exhausted =>
      match t.phase with
      | .pulling st => some (exhaustedStep ts s i sh st)
      | _ => none
  | .streamError f =>
      match t.phase with
      | .pulling st => some (streamErrorStep i sh st f)
      | _ => none
  | .next =>
      match t.phase with
      | .yielded st .start => some (beginStream i sh st)
      | .yielded st .delta => some (sh, .pulling st, [])
      | .yielded st .end => some (exitStream ts s sh st .streamed)
      | .yielded st (.error f) => some (exitStream ts s sh st (.streamFailed f))
      | .replaying (e :: rest) => some (sh, .replaying rest, [.emitted i e])
      | .replaying [] => some (sh, .done .streamed, [])
      | _ => none
  | .close =>
      match t.phase with
      | .yielded st _ => some (exitStream ts s sh st .closed)
      | .replaying _ => some (sh, .done .closed, [])
      | _ => none
  | .cancel executed =>
      match t.phase with
      | .arrived => some (sh, .done .cancelled, [])
      | .lookup _ => if s.cacheNetworked then some (sh, .done .cancelled, []) else none
      | .reserving d =>
          if B.networked then
            let f := cancelFault executed
            let reserved := B.reserve f sh.ledger i t.request.userId d.projectedCost
              (t.request.userLimit s) sh.now
            some ({ sh with ledger := reserved.2 }, .done .cancelled,
              if executed then [.pruned t.request.userId sh.now] else [])
          else none
      | .queued _ _ => some ({ sh with gate := sh.gate.abandon i }, .done .cancelled, [])
      | .shedding r =>
          if B.networked then
            let f := cancelFault executed
            some ({ sh with ledger := (B.release f sh.ledger r).2.2 }, .done .cancelled,
              releaseEvents i r f)
          else none
      | .generating _ _ => some (cancelHolding i sh sh.ledger [])
      | .settling r served k =>
          if B.networked then
            let f := cancelFault executed
            let c := chargeFor served.model k.usage
            some (cancelHolding i sh (B.settle f sh.ledger r c sh.now).2.2
              (settleEvents i r c sh.now f))
          else none
      | .caching _ served k =>
          if s.cacheNetworked then
            let sh' := if executed then sh.store s served t.request.prompt k.text k.usage else sh
            some (cancelHolding i sh' sh.ledger [])
          else none
      | .refunding r _ =>
          if B.networked then
            let f := cancelFault executed
            some (cancelHolding i sh (B.release f sh.ledger r).2.2 (releaseEvents i r f))
          else none
      | .pulling st => some (exitStream ts s sh st .cancelled)
      | _ => none

end Steps

/-! ### The service -/

namespace World

variable {σ : Type}

/-- `autoscale_tick()`. A zero concurrency target raises after the queue depth is recorded. -/
def scale (ts : TextSupport) (s : Settings) (sh : Shared σ) (later : ℚ) : Shared σ :=
  let sh' := { sh with metrics := sh.metrics.setQueueDepth sh.gate.waiting }
  let load : LoadSample := { inFlight := sh.gate.active, queueDepth := sh.gate.waiting }
  match sh.autoscaler.step ts s load sh.mono later with
  | none => sh'
  | some (decision, autoscaler) =>
      { sh' with
        autoscaler
        gate := if decision.changed then sh.gate.resize (capacityFor s decision.desiredReplicas)
          else sh.gate }

def step (B : LedgerBackend σ) (ts : TextSupport) (s : Settings) (w : World σ) :
    WorldAct → Option (World σ)
  | .submit request streaming =>
      some { w with tasks := w.tasks ++ [{ request, streaming, phase := .arrived }] }
  | .clock now mono => some { w with shared := { w.shared with now, mono } }
  | .scale later => some { w with shared := scale ts s w.shared later }
  | .task i a =>
      match w.tasks[i]? with
      | none => none
      | some t =>
          match taskStep B ts s i t w.shared a with
          | none => none
          | some (sh, phase, events) =>
              some { shared := sh, tasks := w.tasks.set i { t with phase },
                     log := w.log ++ events }

end World

end LLMInference
