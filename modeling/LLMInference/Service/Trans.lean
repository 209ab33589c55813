import LLMInference.Service.Step

/-!
What a step of a request can do, said once.

`Trans` has one constructor for each branch of `taskStep`, with the guard of the branch,
what it changes in the shared state, the phase it leads to and the events it records.
`trans_of_taskStep` is the inversion lemma: every step is one of them. The invariants of the
service are proved by cases on `Trans` and never unfold `taskStep`.
-/

namespace LLMInference

/-- The phases that a request may leave without a trace: it holds nothing. -/
def Phase.quiet : Phase → Bool
  | .arrived | .lookup _ | .replaying _ => true
  | _ => false

section

variable {σ : Type} (B : LedgerBackend σ) (ts : TextSupport) (s : Settings) (i : ℕ) (req : Request)
  (streaming : Bool) (sh : Shared σ)

/-- The two ways through the gate, and the gate afterwards. -/
inductive Entering (d : RoutingDecision) (r : Reservation) :
    Phase → TaskAct → CapacityGate → Prop
  | atOnce {f : LedgerFault} (room : sh.gate.active < sh.gate.capacity) :
      Entering d r (.granted d r) (.run f) { sh.gate with active := sh.gate.active + 1 }
  | woken (runnable : sh.gate.runnable i = true) (room : sh.gate.active < sh.gate.capacity) :
      Entering d r (.queued d r) .wake
        { sh.gate with
          active := sh.gate.active + 1, waiting := sh.gate.waiting - 1
          waiters := sh.gate.waiters.eraseP fun w => w.id == i }

/-- The four ways a generated stream exits. -/
inductive Exiting (st : StreamState) : Phase → TaskAct → Exit → Prop
  | streamed : Exiting st (.yielded st .end) .next .streamed
  | failed {f : ProviderFailure} : Exiting st (.yielded st (.error f)) .next (.streamFailed f)
  | closed {y : YieldPoint} : Exiting st (.yielded st y) .close .closed
  | cancelled {executed : Bool} : Exiting st (.pulling st) (.cancel executed) .cancelled

/-- The steps of request `i`: phase, action, shared state after, phase after, events. -/
inductive Trans : Phase → TaskAct → Shared σ → Phase → List Event → Prop
  | rejected {limiter : Option TokenBucketLimiter} {metrics : Metrics} {e : Exit} {f : LedgerFault}
      (same : metrics.inFlight = sh.metrics.inFlight) :
      Trans .arrived (.run f) { sh with limiter, metrics } (.done e) []
  | toLookup {limiter : Option TokenBucketLimiter} {d : RoutingDecision} {f : LedgerFault}
      (routed : route ts s req.routing [] = .ok d) :
      Trans .arrived (.run f) { sh with limiter } (.lookup d) []
  | toReserve {limiter : Option TokenBucketLimiter} {d : RoutingDecision} {f : LedgerFault}
      (routed : route ts s req.routing [] = .ok d) :
      Trans .arrived (.run f) { sh with limiter } (.reserving d) []
  | hit {d : RoutingDecision} {cache : Option InMemoryCache} {entry : CacheEntry} {f : LedgerFault}
      (buffered : streaming = false) :
      Trans (.lookup d) (.run f) { sh with cache, metrics := sh.metrics.cacheHit }
        (.done (.result (cachedResult d entry))) [.returned i (cachedResult d entry)]
  | hitStream {d : RoutingDecision} {cache : Option InMemoryCache} {e : StreamEvent}
      {rest : List StreamEvent} {f : LedgerFault} (streamed : streaming = true) :
      Trans (.lookup d) (.run f) { sh with cache, metrics := sh.metrics.cacheHit } (.replaying rest)
        [.emitted i e]
  | miss {d : RoutingDecision} {cache : Option InMemoryCache} {metrics : Metrics} {f : LedgerFault}
      (same : metrics.inFlight = sh.metrics.inFlight) :
      Trans (.lookup d) (.run f) { sh with cache, metrics } (.reserving d) []
  | granted {d : RoutingDecision} {r : Reservation} {ledger : σ} {f : LedgerFault}
      (admits : B.admits f = true)
      (reserved : B.reserve f sh.ledger i req.userId d.projectedCost (req.userLimit s) sh.now =
        (.ok r, ledger)) :
      Trans (.reserving d) (.run f) { sh with ledger } (.granted d r)
        ((if f.executed then [.pruned req.userId sh.now] else []) ++ [.granted i r])
  | refused {d : RoutingDecision} {e : LedgerError} {ledger : σ} {f : LedgerFault}
      (admits : B.admits f = true)
      (reserved : B.reserve f sh.ledger i req.userId d.projectedCost (req.userLimit s) sh.now =
        (.error e, ledger)) :
      Trans (.reserving d) (.run f) { sh with ledger, metrics := sh.metrics.requestRejected }
        (.done (.ledger e)) (if f.executed then [.pruned req.userId sh.now] else [])
  | enterBuffered {d : RoutingDecision} {r : Reservation} {ph : Phase} {a : TaskAct}
      {gate : CapacityGate} (entering : Entering i sh d r ph a gate) (buffered : streaming = false) :
      Trans ph a { sh with gate, metrics := sh.metrics.requestStarted }
        (.attempting r (.start req.routing d)) [.admitted i, .started i]
  | enterStreamed {d : RoutingDecision} {r : Reservation} {ph : Phase} {a : TaskAct}
      {gate : CapacityGate} (entering : Entering i sh d r ph a gate) (streamed : streaming = true) :
      Trans ph a { sh with gate, metrics := sh.metrics.requestStarted }
        (.yielded { decision := d, reservation := r } .start)
        [.admitted i, .started i, .emitted i (startEvent d)]
  | park {d : RoutingDecision} {r : Reservation} {f : LedgerFault}
      (full : sh.gate.capacity ≤ sh.gate.active) :
      Trans (.granted d r) (.run f)
        { sh with
          gate := { sh.gate with
            waiting := sh.gate.waiting + 1
            waiters := sh.gate.waiters ++ [{ id := i, marked := false }] } }
        (.queued d r) []
  | repark {d : RoutingDecision} {r : Reservation} (full : sh.gate.capacity ≤ sh.gate.active) :
      Trans (.queued d r) .wake
        { sh with
          gate := { sh.gate with
            waiters := (sh.gate.waiters.eraseP fun w => w.id == i) ++ [{ id := i, marked := false }] } }
        (.queued d r) []
  | timeout {d : RoutingDecision} {r : Reservation} :
      Trans (.queued d r) .timeout
        { sh with gate := sh.gate.abandon i, metrics := sh.metrics.requestShed } (.shedding r)
        [.shed i]
  | finishShed {r r' : Reservation} {e : Option LedgerError} {x : Exit} {ledger : σ}
      {f : LedgerFault} (admits : B.admits f = true)
      (refund : B.release f sh.ledger r = (e, r', ledger)) :
      Trans (.shedding r) (.run f) { sh with ledger } (.done x) (releaseEvents i r f)
  | allowed {r : Reservation} {c : FailoverCall} {f : LedgerFault}
      (yes : ((sh.breakers.get c.target).allows sh.mono).1 = true) :
      Trans (.attempting r c) (.run f)
        { sh with
          breakers := sh.breakers.put c.target ((sh.breakers.get c.target).allows sh.mono).2 }
        (.generating r c)
        [.invoked i c.target (some true) (sh.breakers.get c.target) sh.mono]
  | deniedNext {r : Reservation} {c next : FailoverCall} {f : LedgerFault}
      {breakers : BreakerRegistry} {metrics : Metrics} (moved : c.moveOn ts s = some next)
      (same : metrics.inFlight = sh.metrics.inFlight) :
      Trans (.attempting r c) (.run f) { sh with breakers, metrics } (.attempting r next) []
  | deniedRaise {r : Reservation} {c : FailoverCall} {e : GenerateError} {f : LedgerFault}
      {breakers : BreakerRegistry} {metrics : Metrics}
      (same : metrics.inFlight = sh.metrics.inFlight) :
      Trans (.attempting r c) (.run f) { sh with breakers, metrics } (.refunding r (.generation e))
        [.failed i e]
  | completed {r : Reservation} {c : FailoverCall} {k : Completion} {breakers : BreakerRegistry} :
      Trans (.generating r c) (.answer (.completion k)) { sh with breakers }
        (.settling r c.current k) [.generated i c.current k]
  | faultNext {r : Reservation} {c next : FailoverCall} {e : ProviderFailure} {metrics : Metrics}
      (fault : e.serverFault = true) (moved : c.moveOn ts s = some next)
      (same : metrics.inFlight = sh.metrics.inFlight) :
      Trans (.generating r c) (.answer (.failure e))
        { sh with
          breakers := sh.breakers.put c.target ((sh.breakers.get c.target).recordFailure sh.mono)
          metrics }
        (.attempting r next)
        [.faulted i c.target (sh.breakers.get c.target).consecutiveFailures
          ((sh.breakers.get c.target).recordFailure sh.mono).consecutiveFailures]
  | faultRaise {r : Reservation} {c : FailoverCall} {e : ProviderFailure}
      (fault : e.serverFault = true) :
      Trans (.generating r c) (.answer (.failure e))
        { sh with
          breakers := sh.breakers.put c.target ((sh.breakers.get c.target).recordFailure sh.mono) }
        (.refunding r (.generation (.provider e)))
        [.faulted i c.target (sh.breakers.get c.target).consecutiveFailures
          ((sh.breakers.get c.target).recordFailure sh.mono).consecutiveFailures,
          .failed i (.provider e)]
  | otherRaise {r : Reservation} {c : FailoverCall} {e : ProviderFailure}
      (other : e.serverFault = false) :
      Trans (.generating r c) (.answer (.failure e)) sh (.refunding r (.generation (.provider e)))
        [.failed i (.provider e)]
  | settleRaise {r r' : Reservation} {served : RoutingDecision} {k : Completion} {e : LedgerError}
      {ledger : σ} {f : LedgerFault} (admits : B.admits f = true)
      (bill : B.settle f sh.ledger r (chargeFor served.model k.usage) sh.now = (some e, r', ledger)) :
      Trans (.settling r served k) (.run f) { sh with ledger } (.refunding r' (.ledger e))
        (settleEvents i r (chargeFor served.model k.usage) sh.now f)
  | settleCache {r r' : Reservation} {served : RoutingDecision} {k : Completion} {ledger : σ}
      {f : LedgerFault} (admits : B.admits f = true)
      (bill : B.settle f sh.ledger r (chargeFor served.model k.usage) sh.now = (none, r', ledger)) :
      Trans (.settling r served k) (.run f)
        (Shared.finish { sh with ledger } k.usage (chargeFor served.model k.usage).cost
          served.downgraded)
        (.caching r' served k)
        (settleEvents i r (chargeFor served.model k.usage) sh.now f ++ [.finished i])
  | settleReturn {r r' : Reservation} {served : RoutingDecision} {k : Completion} {ledger : σ}
      {f : LedgerFault} (admits : B.admits f = true)
      (bill : B.settle f sh.ledger r (chargeFor served.model k.usage) sh.now = (none, r', ledger)) :
      Trans (.settling r served k) (.run f)
        (Shared.finish { sh with ledger } k.usage (chargeFor served.model k.usage).cost
          served.downgraded).leave
        (.done (.result (servedResult served k)))
        (settleEvents i r (chargeFor served.model k.usage) sh.now f ++
          [.finished i, .slotReleased i, .returned i (servedResult served k)])
  | storeReturn {r : Reservation} {served : RoutingDecision} {k : Completion} {f : LedgerFault} :
      Trans (.caching r served k) (.run f) (sh.store s served req.prompt k.text k.usage).leave
        (.done (.result (servedResult served k)))
        [.slotReleased i, .returned i (servedResult served k)]
  | refundRaise {r r' : Reservation} {x : Exit} {e : LedgerError} {ledger : σ} {f : LedgerFault}
      (admits : B.admits f = true) (refund : B.release f sh.ledger r = (some e, r', ledger)) :
      Trans (.refunding r x) (.run f) ({ sh with ledger } : Shared σ).leave (.done (.ledger e))
        (releaseEvents i r f ++ [.slotReleased i])
  | refund {r r' : Reservation} {x : Exit} {ledger : σ} {f : LedgerFault}
      (admits : B.admits f = true) (refund : B.release f sh.ledger r = (none, r', ledger)) :
      Trans (.refunding r x) (.run f) (Shared.finish { sh with ledger } ⟨0, 0⟩ 0 false).leave
        (.done x) (releaseEvents i r f ++ [.finished i, .slotReleased i])
  | begin {st : StreamState} :
      Trans (.yielded st .start) .next sh (.pulling st)
        [.invoked i st.decision.model.name none (sh.breakers.get st.decision.model.name) sh.mono]
  | resume {st : StreamState} : Trans (.yielded st .delta) .next sh (.pulling st) []
  | chunkText {st : StreamState} {c : StreamChunk} (text : c.text ≠ "") :
      Trans (.pulling st) (.chunk c) sh (.yielded (st.receive c) .delta) [.emitted i (.delta c.text)]
  | chunkEmpty {st : StreamState} {c : StreamChunk} (text : c.text = "") :
      Trans (.pulling st) (.chunk c) sh (.pulling (st.receive c)) []
  | exhausted {st : StreamState} :
      Trans (.pulling st) .exhausted sh (.yielded { st with completed := true } .end)
        [.emitted i (endEvent st.decision (st.finalUsage ts s))]
  | streamFault {st : StreamState} {e : ProviderFailure} (fault : e.serverFault = true) :
      Trans (.pulling st) (.streamError e) sh (.yielded st (.error e))
        [.faulted i st.decision.model.name
          (sh.breakers.get st.decision.model.name).consecutiveFailures
          (sh.breakers.get st.decision.model.name).consecutiveFailures,
          .emitted i (.error e.typeName e.detail)]
  | streamOther {st : StreamState} {e : ProviderFailure} (other : e.serverFault = false) :
      Trans (.pulling st) (.streamError e) sh (.yielded st (.error e))
        [.emitted i (.error e.typeName e.detail)]
  | exit {st : StreamState} {ph : Phase} {a : TaskAct} {x : Exit} (exiting : Exiting st ph a x) :
      Trans ph a sh (.finalizing (st.finalize ts s) x) []
  | finalizeStore {fin : Finalizer} {x : Exit} {e : Option LedgerError} {r : Reservation}
      {ledger : σ} {f : LedgerFault} (admits : B.admits f = true)
      (bill : B.settle f sh.ledger fin.reservation (chargeFor fin.decision.model fin.usage) sh.now =
        (e, r, ledger)) :
      Trans (.finalizing fin x) (.run f) { sh with ledger } (.storing { fin with reservation := r } x)
        (settleEvents i fin.reservation (chargeFor fin.decision.model fin.usage) sh.now f)
  | finalizeClose {fin : Finalizer} {x : Exit} {e : Option LedgerError} {r : Reservation}
      {ledger : σ} {f : LedgerFault} (admits : B.admits f = true)
      (bill : B.settle f sh.ledger fin.reservation (chargeFor fin.decision.model fin.usage) sh.now =
        (e, r, ledger)) :
      Trans (.finalizing fin x) (.run f)
        (Shared.finish { sh with ledger } fin.usage (chargeFor fin.decision.model fin.usage).cost
          fin.decision.downgraded).leave
        (.done x)
        (settleEvents i fin.reservation (chargeFor fin.decision.model fin.usage) sh.now f ++
          [.finished i, .slotReleased i])
  | storeClose {fin : Finalizer} {x : Exit} {f : LedgerFault} :
      Trans (.storing fin x) (.run f)
        (Shared.finish (sh.store s fin.decision req.prompt (fin.text.getD "") fin.usage) fin.usage
          (chargeFor fin.decision.model fin.usage).cost fin.decision.downgraded).leave
        (.done x) [.finished i, .slotReleased i]
  | replay {e : StreamEvent} {rest : List StreamEvent} :
      Trans (.replaying (e :: rest)) .next sh (.replaying rest) [.emitted i e]
  | quit {ph : Phase} {a : TaskAct} {x : Exit} (quiet : ph.quiet = true) :
      Trans ph a sh (.done x) []
  | cancelReserve {d : RoutingDecision} {executed : Bool} (networked : B.networked = true) :
      Trans (.reserving d) (.cancel executed)
        { sh with
          ledger := (B.reserve (cancelFault executed) sh.ledger i req.userId d.projectedCost
            (req.userLimit s) sh.now).2 }
        (.done .cancelled) (if executed then [.pruned req.userId sh.now] else [])
  | cancelQueued {d : RoutingDecision} {r : Reservation} {executed : Bool} :
      Trans (.queued d r) (.cancel executed) { sh with gate := sh.gate.abandon i }
        (.done .cancelled) []
  | cancelShed {r : Reservation} {executed : Bool} (networked : B.networked = true) :
      Trans (.shedding r) (.cancel executed)
        { sh with ledger := (B.release (cancelFault executed) sh.ledger r).2.2 }
        (.done .cancelled) (releaseEvents i r (cancelFault executed))
  | cancelGenerating {r : Reservation} {c : FailoverCall} {executed : Bool} :
      Trans (.generating r c) (.cancel executed) sh.leave (.done .cancelled) [.slotReleased i]
  | cancelSettle {r : Reservation} {served : RoutingDecision} {k : Completion} {executed : Bool}
      (networked : B.networked = true) :
      Trans (.settling r served k) (.cancel executed)
        ({ sh with
          ledger := (B.settle (cancelFault executed) sh.ledger r (chargeFor served.model k.usage)
            sh.now).2.2 } : Shared σ).leave
        (.done .cancelled)
        (settleEvents i r (chargeFor served.model k.usage) sh.now (cancelFault executed) ++
          [.slotReleased i])
  | cancelCaching {r : Reservation} {served : RoutingDecision} {k : Completion} {executed : Bool}
      {cache : Option InMemoryCache} (networked : s.cacheNetworked = true) :
      Trans (.caching r served k) (.cancel executed) ({ sh with cache } : Shared σ).leave
        (.done .cancelled) [.slotReleased i]
  | cancelRefund {r : Reservation} {x : Exit} {executed : Bool} (networked : B.networked = true) :
      Trans (.refunding r x) (.cancel executed)
        ({ sh with
          ledger := (B.release (cancelFault executed) sh.ledger r).2.2 } : Shared σ).leave
        (.done .cancelled)
        (releaseEvents i r (cancelFault executed) ++ [.slotReleased i])

end

section Inversion

variable {σ : Type} {B : LedgerBackend σ} {ts : TextSupport} {s : Settings} {i : ℕ} {t : Task}
  {sh : Shared σ}

/-- A step of the task `t`, given by what it leaves behind. -/
abbrev Makes (B : LedgerBackend σ) (ts : TextSupport) (s : Settings) (i : ℕ) (t : Task)
    (sh : Shared σ) (ph : Phase) (a : TaskAct) (out : Out σ) : Prop :=
  Trans B ts s i t.request t.streaming sh ph a out.1 out.2.1 out.2.2

theorem makes_arrive (f : LedgerFault) :
    Makes B ts s i t sh .arrived (.run f) (arrive ts s t sh) := by
  unfold arrive
  split
  rename_i limited limiter checked
  cases limited with
  | error retryAfterS => exact .rejected rfl
  | ok _ =>
      cases routed : route ts s t.request.routing [] with
      | error e => exact .rejected rfl
      | ok d =>
          by_cases cached : sh.cache.isSome = true
          · simp only [cached, if_true]
            exact .toLookup routed
          · simp only [cached]
            exact .toReserve routed

theorem makes_lookupCache (d : RoutingDecision) (f : LedgerFault) :
    Makes B ts s i t sh (.lookup d) (.run f) (lookupCache i t sh d) := by
  unfold lookupCache
  cases sh.cache with
  | none => exact .miss rfl
  | some c =>
      simp only
      generalize c.get (cacheKey d t.request.prompt) sh.mono = got
      obtain ⟨hit, c'⟩ := got
      cases hit with
      | none => exact .miss rfl
      | some entry =>
          by_cases streamed : t.streaming = true
          · simp only [streamed, if_true, replayCached]
            exact .hitStream streamed
          · simp only [streamed]
            exact .hit (Bool.not_eq_true _ ▸ streamed)

/-- A lookup does to the cache what a `get` does. -/
theorem cache_lookupCache (d : RoutingDecision) :
    (lookupCache i t sh d).1.cache =
      sh.cache.map fun c => (c.get (cacheKey d t.request.prompt) sh.mono).2 := by
  unfold lookupCache
  cases there : sh.cache with
  | none => exact there
  | some c =>
      simp only [Option.map_some]
      generalize c.get (cacheKey d t.request.prompt) sh.mono = got
      obtain ⟨hit, c'⟩ := got
      cases hit with
      | none => rfl
      | some entry =>
          simp only [replayCached]
          split <;> rfl

theorem makes_reserveBudget (d : RoutingDecision) {f : LedgerFault} (admits : B.admits f = true) :
    Makes B ts s i t sh (.reserving d) (.run f) (reserveBudget B s i t sh d f) := by
  unfold reserveBudget
  cases reserved : B.reserve f sh.ledger i t.request.userId d.projectedCost
    (t.request.userLimit s) sh.now with
  | mk res ledger =>
      cases res with
      | error e => exact .refused admits reserved
      | ok r => exact .granted admits reserved

theorem makes_enter {d : RoutingDecision} {r : Reservation} {ph : Phase} {a : TaskAct}
    {gate : CapacityGate} (entering : Entering i sh d r ph a gate) :
    Makes B ts s i t sh ph a (enter i t sh d r gate) := by
  unfold enter
  by_cases streamed : t.streaming = true
  · simp only [streamed, if_true]
    exact .enterStreamed entering streamed
  · simp only [streamed]
    exact .enterBuffered entering (Bool.not_eq_true _ ▸ streamed)

theorem makes_acquire (d : RoutingDecision) (r : Reservation) (f : LedgerFault) :
    Makes B ts s i t sh (.granted d r) (.run f) (passGate i t sh d r (sh.gate.acquire i)) := by
  unfold passGate CapacityGate.acquire
  by_cases room : sh.gate.active < sh.gate.capacity
  · simp only [room, if_true]
    exact makes_enter (.atOnce room)
  · simp only [room, if_false]
    exact .park (not_lt.mp room)

theorem makes_resume (d : RoutingDecision) (r : Reservation)
    (runnable : sh.gate.runnable i = true) :
    Makes B ts s i t sh (.queued d r) .wake (passGate i t sh d r (sh.gate.resume i)) := by
  unfold passGate CapacityGate.resume
  by_cases room : sh.gate.active < sh.gate.capacity
  · simp only [room, if_true]
    exact makes_enter (.woken runnable room)
  · simp only [room, if_false]
    exact .repark (not_lt.mp room)

theorem makes_attemptStep (r : Reservation) (c : FailoverCall) (f : LedgerFault) :
    Makes B ts s i t sh (.attempting r c) (.run f) (attemptStep ts s i sh r c) := by
  unfold attemptStep FailoverCall.attempt
  by_cases yes : ((sh.breakers.get c.target).allows sh.mono).1 = true
  · simp only [yes, if_true]
    exact .allowed yes
  · simp only [yes]
    rcases FailoverCall.afterError_cases c ts s (.circuitOpen c.target
      (((sh.breakers.get c.target).allows sh.mono).2.retryAfterS sh.mono))
      sh.metrics.requestCircuitRejected with ⟨-, raised⟩ | ⟨next, moved, again⟩
    · simp only [raised]
      exact .deniedRaise rfl
    · simp only [again]
      exact .deniedNext moved rfl

theorem makes_answerStep (r : Reservation) (c : FailoverCall) (o : GenerateOutcome) :
    Makes B ts s i t sh (.generating r c) (.answer o) (answerStep ts s i sh r c o) := by
  unfold answerStep FailoverCall.onOutcome
  cases o with
  | completion k => exact .completed
  | failure e =>
      by_cases fault : e.serverFault = true
      · simp only [fault, if_true, BreakerRegistry.get_put_self]
        rcases FailoverCall.afterError_cases c ts s (.provider e) sh.metrics with
          ⟨-, raised⟩ | ⟨next, moved, again⟩
        · simp only [raised]
          exact .faultRaise fault
        · simp only [again]
          exact .faultNext fault moved rfl
      · simp only [fault]
        exact .otherRaise (Bool.not_eq_true _ ▸ fault)

theorem makes_settleStep (r : Reservation) (served : RoutingDecision) (k : Completion)
    {f : LedgerFault} (admits : B.admits f = true) :
    Makes B ts s i t sh (.settling r served k) (.run f) (settleStep B i sh r served k f) := by
  unfold settleStep
  simp only
  split
  · rename_i e r' ledger bill
    exact .settleRaise admits bill
  · rename_i r' ledger bill
    split
    · exact .settleCache admits bill
    · exact .settleReturn admits bill

theorem makes_refundStep (r : Reservation) (x : Exit) {f : LedgerFault}
    (admits : B.admits f = true) :
    Makes B ts s i t sh (.refunding r x) (.run f) (refundStep B i sh r x f) := by
  unfold refundStep
  split
  · rename_i e r' ledger refund
    exact .refundRaise admits refund
  · rename_i r' ledger refund
    exact .refund admits refund

theorem makes_streamErrorStep (st : StreamState) (e : ProviderFailure) :
    Makes B ts s i t sh (.pulling st) (.streamError e) (streamErrorStep i sh st e) := by
  unfold streamErrorStep
  by_cases fault : e.serverFault = true
  · simp only [fault, if_true]
    exact .streamFault fault
  · simp only [fault]
    exact .streamOther (Bool.not_eq_true _ ▸ fault)

theorem makes_chunkStep (st : StreamState) (c : StreamChunk) :
    Makes B ts s i t sh (.pulling st) (.chunk c) (chunkStep i sh st c) := by
  unfold chunkStep
  by_cases text : c.text = ""
  · simp only [text, if_true]
    exact .chunkEmpty text
  · simp only [text, if_false]
    exact .chunkText text

theorem makes_finalizeStep (fin : Finalizer) (x : Exit) {f : LedgerFault}
    (admits : B.admits f = true) :
    Makes B ts s i t sh (.finalizing fin x) (.run f) (finalizeStep B i sh fin x f) := by
  unfold finalizeStep
  simp only
  split
  · exact .finalizeStore admits rfl
  · exact .finalizeClose admits rfl

theorem makes_taskStep {a : TaskAct} {out : Out σ}
    (stepped : taskStep B ts s i t sh a = some out) : Makes B ts s i t sh t.phase a out := by
  cases a with
  | run f =>
      simp only [taskStep] at stepped
      split at stepped
      · rename_i admits
        split at stepped
        · rename_i here
          cases stepped
          exact here ▸ makes_arrive f
        · rename_i here
          cases stepped
          exact here ▸ makes_lookupCache _ f
        · rename_i here
          cases stepped
          exact here ▸ makes_reserveBudget _ admits
        · rename_i here
          cases stepped
          exact here ▸ makes_acquire _ _ f
        · rename_i here
          cases stepped
          exact here ▸ .finishShed admits rfl
        · rename_i here
          cases stepped
          exact here ▸ makes_attemptStep _ _ f
        · rename_i here
          cases stepped
          exact here ▸ makes_settleStep _ _ _ admits
        · rename_i here
          cases stepped
          exact here ▸ .storeReturn
        · rename_i here
          cases stepped
          exact here ▸ makes_refundStep _ _ admits
        · rename_i here
          cases stepped
          exact here ▸ makes_finalizeStep _ _ admits
        · rename_i here
          cases stepped
          exact here ▸ .storeClose
        · cases stepped
      · cases stepped
  | wake =>
      simp only [taskStep] at stepped
      split at stepped
      · rename_i here
        split at stepped
        · rename_i runnable
          cases stepped
          exact here ▸ makes_resume _ _ runnable
        · cases stepped
      · cases stepped
  | timeout =>
      simp only [taskStep] at stepped
      split at stepped
      · rename_i here
        split at stepped
        · cases stepped
          exact here ▸ .timeout
        · cases stepped
      · cases stepped
  | answer o =>
      simp only [taskStep] at stepped
      split at stepped
      · rename_i here
        cases stepped
        exact here ▸ makes_answerStep _ _ _
      · cases stepped
  | chunk c =>
      simp only [taskStep] at stepped
      split at stepped
      · rename_i here
        cases stepped
        exact here ▸ makes_chunkStep _ _
      · cases stepped
  | exhausted =>
      simp only [taskStep] at stepped
      split at stepped
      · rename_i here
        cases stepped
        exact here ▸ .exhausted
      · cases stepped
  | streamError f =>
      simp only [taskStep] at stepped
      split at stepped
      · rename_i here
        cases stepped
        exact here ▸ makes_streamErrorStep _ _
      · cases stepped
  | next =>
      simp only [taskStep] at stepped
      split at stepped
      · rename_i here
        cases stepped
        exact here ▸ .begin
      · rename_i here
        cases stepped
        exact here ▸ .resume
      · rename_i here
        cases stepped
        exact here ▸ .exit .streamed
      · rename_i here
        cases stepped
        exact here ▸ .exit .failed
      · rename_i here
        cases stepped
        exact here ▸ .replay
      · rename_i here
        cases stepped
        exact here ▸ .quit rfl
      · cases stepped
  | close =>
      simp only [taskStep] at stepped
      split at stepped
      · rename_i here
        cases stepped
        exact here ▸ .exit .closed
      · rename_i here
        cases stepped
        exact here ▸ .quit rfl
      · cases stepped
  | cancel executed =>
      simp only [taskStep] at stepped
      split at stepped
      · rename_i here
        cases stepped
        exact here ▸ .quit rfl
      · rename_i here
        split at stepped
        · cases stepped
          exact here ▸ .quit rfl
        · cases stepped
      · rename_i here
        split at stepped
        · rename_i networked
          cases stepped
          exact here ▸ .cancelReserve networked
        · cases stepped
      · rename_i here
        cases stepped
        exact here ▸ .cancelQueued
      · rename_i here
        split at stepped
        · rename_i networked
          cases stepped
          exact here ▸ .cancelShed networked
        · cases stepped
      · rename_i here
        cases stepped
        exact here ▸ .cancelGenerating
      · rename_i here
        split at stepped
        · rename_i networked
          cases stepped
          exact here ▸ .cancelSettle networked
        · cases stepped
      · rename_i here
        split at stepped
        · rename_i networked
          cases stepped
          rw [here]
          cases executed with
          | true => exact .cancelCaching networked
          | false => exact .cancelCaching networked
        · cases stepped
      · rename_i here
        split at stepped
        · rename_i networked
          cases stepped
          exact here ▸ .cancelRefund networked
        · cases stepped
      · rename_i here
        cases stepped
        exact here ▸ .exit .cancelled
      · cases stepped

/-- Every step of a request is one of the transitions. -/
theorem trans_of_taskStep {a : TaskAct} {sh' : Shared σ} {ph' : Phase} {evs : List Event}
    (stepped : taskStep B ts s i t sh a = some (sh', ph', evs)) :
    Trans B ts s i t.request t.streaming sh t.phase a sh' ph' evs :=
  makes_taskStep stepped

/-- While its breaker is closed the pass reaches the provider. -/
theorem attemptStep_of_closed {r : Reservation} {c : FailoverCall}
    (closed : (sh.breakers.get c.target).state = .closed) :
    attemptStep ts s i sh r c =
      ({ sh with breakers := sh.breakers.put c.target (sh.breakers.get c.target) },
        .generating r c,
        [.invoked i c.target (some true) (sh.breakers.get c.target) sh.mono]) := by
  have asked : (sh.breakers.get c.target).allows sh.mono = (true, sh.breakers.get c.target) := by
    rw [CircuitBreaker.allows, closed]
  simp [attemptStep, FailoverCall.attempt, asked, ofCall]

end Inversion

end LLMInference
