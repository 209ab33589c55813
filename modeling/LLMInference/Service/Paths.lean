import LLMInference.Cost.Redis
import LLMInference.Service.Provenance
import LLMInference.Service.Slots

/-!
The two paths of a request (`app/service.py`).

`handle` and `handle_stream` are written apart. They share what comes before the slot (`front`);
behind it one settles, counts and stores in place, the other in a detached finalizer.

* `World.Solo`: the run of one request alone, whose generation succeeds.
* `Way`: where such a run can be, on either path, given where the front part leads.
* `Way.next`, `way_of_solo`: every step stays on the way.
* `paths_agree`: the two runs end in the same state, but for the breakers.
-/

namespace LLMInference

open Runs

/-- The chunk is a piece of the text; or it is the last one, and brings the usage. -/
def StreamState.follows (st : StreamState) (k : Completion) (c : StreamChunk) : Bool :=
  decide (st.usage = none ∧ (c.usage = none ∨
    c.usage = some k.usage ∧ String.join st.pieces ++ c.text = k.text))

/-- In a call that a `run` ends. -/
def Phase.inCall : Phase → Bool
  | .arrived | .lookup _ | .reserving _ | .granted .. | .shedding _ | .attempting .. | .settling ..
  | .caching .. | .refunding .. | .finalizing .. | .storing .. => true
  | _ => false

/-- At a `yield`. -/
def Phase.atYield : Phase → Bool
  | .yielded .. | .replaying _ => true
  | _ => false

/-- What lets a request move on whose provider answers `k`, buffered or in chunks, whose consumer
reads to the end, and whose ledger can be reached. -/
def Phase.succeeds (k : Completion) : Phase → TaskAct → Bool
  | _, .run f => decide (f = .none)
  | _, .answer o => decide (o = .completion k)
  | .pulling st, .chunk c => st.follows k c
  | .pulling st, .exhausted => st.usage.isSome
  | _, .wake | _, .timeout | _, .next => true
  | _, _ => false

/-- Only request `i` runs, time stands still, and its generation succeeds. -/
def World.Solo {σ : Type} (i : ℕ) (k : Completion) (w : World σ) : WorldAct → Prop
  | .task j a => j = i ∧ ∀ t ∈ w.tasks[i]?, t.phase.succeeds k a = true
  | _ => False

instance {σ : Type} (i : ℕ) (k : Completion) (w : World σ) :
    (a : WorldAct) → Decidable (w.Solo i k a)
  | .task j a => inferInstanceAs (Decidable (j = i ∧ ∀ t ∈ w.tasks[i]?, t.phase.succeeds k a = true))
  | .submit .. | .clock .. | .scale _ => inferInstanceAs (Decidable False)

/-- The request was refused: by the rate limit, the router, the ledger, or at the gate. -/
def Exit.refused : Exit → Bool
  | .rateLimited _ | .unroutable _ | .ledger _ | .shed _ => true
  | _ => false

/-- The result and the event stream tell the same. -/
def Tells (r : InferenceResult) (es : List StreamEvent) : Prop :=
  ∃ cost pieces, String.join pieces = r.text ∧
    es = .start r.model r.complexity r.downgraded r.cached r.routingNotes cost ::
      pieces.map .delta ++
        [.end r.model r.inputTokens r.outputTokens r.costUsd r.downgraded r.cached]

/-- The two paths report the same: they refuse alike, or a result is told as a stream. -/
inductive SameReport : Exit → Exit → List StreamEvent → Prop
  | refused {e : Exit} (refused : e.refused = true) : SameReport e e []
  | served {r : InferenceResult} {es : List StreamEvent} (tells : Tells r es) :
      SameReport (.result r) .streamed es

/-! ### Up to the slot -/

/-- Where a request leaves what the two paths share. -/
inductive Front (σ : Type) where
  /-- It has exited. -/
  | out (sh : Shared σ) (e : Exit)
  /-- The cache has an entry for it. -/
  | hit (sh : Shared σ) (d : RoutingDecision) (entry : CacheEntry)
  /-- It is past the gate, and `request_started` is counted. -/
  | admitted (sh : Shared σ) (d : RoutingDecision) (r : Reservation)

section Front

variable {σ : Type} (B : LedgerBackend σ) (ts : TextSupport) (s : Settings) (i : ℕ) (req : Request)
  (sh : Shared σ)

def frontShedding (r : Reservation) : Front σ :=
  let (e, _, ledger) := B.release .none sh.ledger r
  .out { sh with ledger } ((e.map .ledger).getD (.shed s.admissionTimeoutS))

def frontQueued (r : Reservation) : Front σ :=
  frontShedding B s { sh with gate := sh.gate.abandon i, metrics := sh.metrics.requestShed } r

def frontGranted (d : RoutingDecision) (r : Reservation) : Front σ :=
  let (admitted, gate) := sh.gate.acquire i
  if admitted then .admitted { sh with gate, metrics := sh.metrics.requestStarted } d r
  else frontQueued B s i { sh with gate } r

def frontReserving (d : RoutingDecision) : Front σ :=
  match B.reserve .none sh.ledger i req.userId d.projectedCost (req.userLimit s) sh.now with
  | (.ok r, ledger) => frontGranted B s i { sh with ledger } d r
  | (.error e, ledger) => .out { sh with ledger, metrics := sh.metrics.requestRejected } (.ledger e)

def frontLookup (d : RoutingDecision) : Front σ :=
  match sh.cache with
  | none => frontReserving B s i req sh d
  | some c =>
      match c.get (cacheKey d req.prompt) sh.mono with
      | (some entry, c') =>
          .hit { sh with cache := some c', metrics := sh.metrics.cacheHit } d entry
      | (none, c') =>
          frontReserving B s i req
            { sh with cache := some c', metrics := sh.metrics.cacheMiss } d

/-- Where the front part leads from a phase, once the request has been routed. -/
def frontRouted : Phase → Option (Front σ)
  | .lookup d => some (frontLookup B s i req sh d)
  | .reserving d => some (frontReserving B s i req sh d)
  | .granted d r => some (frontGranted B s i sh d r)
  | .queued _ r => some (frontQueued B s i sh r)
  | .shedding r => some (frontShedding B s sh r)
  | .done e => some (.out sh e)
  | _ => none

/-- Where the front part leads from a phase. -/
def front : Phase → Option (Front σ)
  | .arrived =>
      let out := arrive ts s { request := req, streaming := false, phase := .arrived } sh
      frontRouted B s i req out.1 out.2.1
  | ph => frontRouted B s i req sh ph

/-- The request is not in the gate's queue, or waits there unwoken. -/
def Unwoken : Phase → Prop
  | .arrived | .lookup _ | .reserving _ | .granted .. => ∀ wt ∈ sh.gate.waiters, wt.id ≠ i
  | .queued .. => sh.gate.runnable i = false
  | _ => True

end Front

/-! ### Both paths -/

section Way

variable {σ : Type} (B : LedgerBackend σ) (ts : TextSupport) (s : Settings) (i : ℕ) (req : Request)
  (k : Completion)

/-- After the settle of an admitted request. -/
def settled (sh : Shared σ) (d : RoutingDecision) (r : Reservation) : Shared σ :=
  { sh with ledger := (B.settle .none sh.ledger r (chargeFor d.model k.usage) sh.now).2.2 }

/-- What an admitted request leaves behind: the settle, the entry, the count, and the slot. -/
def concluded (sh : Shared σ) (d : RoutingDecision) (r : Reservation) : Shared σ :=
  (Shared.finish ((settled B k sh d r).store s d req.prompt k.text k.usage) k.usage
    (chargeFor d.model k.usage).cost d.downgraded).leave

/-- Where the run of one request can be, given where its front part leads: the path, the shared
state, the phase, and the events told so far. -/
inductive Way (F : Front σ) : Bool → Shared σ → Phase → List StreamEvent → Prop
  | fore {streaming : Bool} {sh : Shared σ} {ph : Phase}
      (leads : front B ts s i req sh ph = some F) (unwoken : Unwoken i sh ph) :
      Way F streaming sh ph []
  | hit {sh : Shared σ} {d : RoutingDecision} {entry : CacheEntry} (left : F = .hit sh d entry) :
      Way F false sh (.done (.result (cachedResult d entry))) []
  | replaying {sh : Shared σ} {d : RoutingDecision} {entry : CacheEntry}
      {told rest : List StreamEvent} (left : F = .hit sh d entry)
      (whole : told ++ rest = replayCached d entry) : Way F true sh (.replaying rest) told
  | replayed {sh : Shared σ} {d : RoutingDecision} {entry : CacheEntry}
      (left : F = .hit sh d entry) : Way F true sh (.done .streamed) (replayCached d entry)
  | attempting {sh : Shared σ} {d : RoutingDecision} {r : Reservation}
      (left : F = .admitted sh d r) : Way F false sh (.attempting r (.start req.routing d)) []
  | generating {sh sh' : Shared σ} {d : RoutingDecision} {r : Reservation}
      {breakers : BreakerRegistry} (left : F = .admitted sh d r) (same : sh' = { sh with breakers }) :
      Way F false sh' (.generating r (.start req.routing d)) []
  | settling {sh sh' : Shared σ} {d : RoutingDecision} {r : Reservation}
      {breakers : BreakerRegistry} (left : F = .admitted sh d r) (same : sh' = { sh with breakers }) :
      Way F false sh' (.settling r d k) []
  | caching {sh sh' : Shared σ} {d : RoutingDecision} {r r' : Reservation}
      {breakers : BreakerRegistry} (left : F = .admitted sh d r)
      (counted : sh' = Shared.finish { settled B k sh d r with breakers } k.usage
        (chargeFor d.model k.usage).cost d.downgraded) :
      Way F false sh' (.caching r' d k) []
  | returned {sh sh' : Shared σ} {d : RoutingDecision} {r : Reservation}
      {breakers : BreakerRegistry} (left : F = .admitted sh d r)
      (ended : sh' = { concluded B s req k sh d r with breakers }) :
      Way F false sh' (.done (.result (servedResult d k))) []
  | telling {sh : Shared σ} {d : RoutingDecision} {r : Reservation} {pieces : List String}
      {usage : Option Usage} {ph : Phase} (left : F = .admitted sh d r)
      (stands : ph = .yielded { decision := d, reservation := r, pieces, usage } .start ∨
        ph = .yielded { decision := d, reservation := r, pieces, usage } .delta ∨
        ph = .pulling { decision := d, reservation := r, pieces, usage })
      (used : usage = none ∨ usage = some k.usage ∧ String.join pieces = k.text) :
      Way F true sh ph (startEvent d :: pieces.map .delta)
  | ended {sh : Shared σ} {d : RoutingDecision} {r : Reservation} {pieces : List String}
      (left : F = .admitted sh d r) (text : String.join pieces = k.text) :
      Way F true sh
        (.yielded
          { decision := d, reservation := r, pieces, usage := some k.usage, completed := true } .end)
        (wholeStream d pieces k.usage)
  | finalizing {sh : Shared σ} {d : RoutingDecision} {r : Reservation} {pieces : List String}
      (left : F = .admitted sh d r) (text : String.join pieces = k.text) :
      Way F true sh
        (.finalizing { decision := d, reservation := r, usage := k.usage, text := some k.text }
          .streamed)
        (wholeStream d pieces k.usage)
  | storing {sh sh' : Shared σ} {d : RoutingDecision} {r r' : Reservation} {pieces : List String}
      (left : F = .admitted sh d r) (text : String.join pieces = k.text)
      (billed : sh' = settled B k sh d r) :
      Way F true sh'
        (.storing { decision := d, reservation := r', usage := k.usage, text := some k.text }
          .streamed)
        (wholeStream d pieces k.usage)
  | streamed {sh sh' : Shared σ} {d : RoutingDecision} {r : Reservation} {pieces : List String}
      (left : F = .admitted sh d r) (text : String.join pieces = k.text)
      (ended : sh' = concluded B s req k sh d r) :
      Way F true sh' (.done .streamed) (wholeStream d pieces k.usage)

end Way

section Steps

variable {σ : Type} {B : LedgerBackend σ} {ts : TextSupport} {s : Settings} {i : ℕ} {t : Task}
  {k : Completion} {F : Front σ} {sh sh' : Shared σ} {a : TaskAct} {ph' : Phase} {evs : List Event}

theorem admits_none (B : LedgerBackend σ) : B.admits .none = true := by
  simp [LedgerBackend.admits]

/-- A call of its own that succeeds is undisturbed. -/
theorem run_of_inCall (inCall : t.phase.inCall = true) (succeeds : t.phase.succeeds k a = true)
    (made : taskStep B ts s i t sh a = some (sh', ph', evs)) : a = .run .none := by
  obtain ⟨req, streaming, ph⟩ := t
  cases a with
  | run f =>
      have undisturbed : f = .none := by cases ph <;> exact of_decide_eq_true succeeds
      rw [undisturbed]
  | close | streamError _ | cancel _ => cases ph <;> cases succeeds
  | _ => cases ph <;> first | (cases inCall; done) | cases made

/-- At a `yield` the consumer reads on. -/
theorem next_of_atYield (atYield : t.phase.atYield = true)
    (succeeds : t.phase.succeeds k a = true)
    (made : taskStep B ts s i t sh a = some (sh', ph', evs)) : a = .next := by
  obtain ⟨req, streaming, ph⟩ := t
  cases a with
  | next => rfl
  | close | streamError _ | cancel _ => cases ph <;> cases succeeds
  | run f => cases ph <;> first | (cases atYield; done) | simp [taskStep] at made
  | _ => cases ph <;> first | (cases atYield; done) | cases made

/-- An arrival exits, or is routed. -/
theorem arrive_cases (ts : TextSupport) (s : Settings) (t : Task) (sh : Shared σ) :
    ∃ limiter, (∃ metrics e, e.refused = true ∧
        arrive ts s t sh = ({ sh with limiter, metrics }, .done e, [])) ∨
      ∃ d, route ts s t.request.routing [] = .ok d ∧
        arrive ts s t sh =
          ({ sh with limiter }, if sh.cache.isSome then .lookup d else .reserving d, []) := by
  unfold arrive
  split
  rename_i limited limiter checked
  refine ⟨limiter, ?_⟩
  cases limited with
  | error retryAfterS => exact .inl ⟨_, _, rfl, rfl⟩
  | ok _ =>
      cases routed : route ts s t.request.routing [] with
      | error e => exact .inl ⟨_, _, rfl, rfl⟩
      | ok d => exact .inr ⟨d, rfl, rfl⟩

/-- Routing leaves the gate alone and tells nothing. -/
theorem unwoken_arrive (unwoken : Unwoken i sh .arrived) :
    (arrive ts s t sh).2.2 = [] ∧ Unwoken i (arrive ts s t sh).1 (arrive ts s t sh).2.1 := by
  obtain ⟨limiter, ⟨metrics, e, -, exits⟩ | ⟨d, -, routed⟩⟩ := arrive_cases ts s t sh
  · rw [exits]
    exact ⟨rfl, trivial⟩
  · rw [routed]
    refine ⟨rfl, ?_⟩
    simp only
    split
    · exact unwoken
    · exact unwoken

/-- Routing does not depend on the path. -/
theorem arrive_eq {u : Task} (same : t.request = u.request) :
    arrive ts s t sh = arrive ts s u sh := by
  unfold arrive
  rw [same]

/-- Who has just parked is not woken. -/
theorem runnable_of_parked {g : CapacityGate} (unknown : ∀ wt ∈ g.waiters, wt.id ≠ i) {n : ℤ} :
    CapacityGate.runnable
      { g with waiting := n, waiters := g.waiters ++ [{ id := i, marked := false }] } i = false := by
  have absent : g.waiters.find? (fun w => w.id == i) = none := by
    rw [List.find?_eq_none]
    intro wt mem
    simpa using unknown wt mem
  simp [CapacityGate.runnable, CapacityGate.waiter, List.find?_append, absent]

theorem front_eq_frontRouted {req : Request} {ph : Phase}
    (leads : frontRouted B s i req sh ph = some F) : front B ts s i req sh ph = some F := by
  cases ph with
  | arrived => cases leads
  | _ => exact leads

theorem fore_arrived (phase : t.phase = .arrived) (leads : front B ts s i t.request sh .arrived = some F)
    (unwoken : Unwoken i sh .arrived) (succeeds : t.phase.succeeds k a = true)
    (made : taskStep B ts s i t sh a = some (sh', ph', evs)) :
    Way B ts s i t.request k F t.streaming sh' ph' (emissions (history i evs)) := by
  have same : arrive ts s { request := t.request, streaming := false, phase := .arrived } sh =
      arrive ts s t sh := arrive_eq rfl
  rw [front, same] at leads
  cases run_of_inCall (by rw [phase]; rfl) succeeds made
  simp only [taskStep, phase, admits_none, if_true, Option.some.injEq] at made
  have after : (arrive ts s t sh).2.2 = [] ∧
      Unwoken i (arrive ts s t sh).1 (arrive ts s t sh).2.1 := unwoken_arrive unwoken
  rw [made] at leads after
  obtain ⟨silent, unwoken⟩ := after
  rw [show evs = [] from silent]
  exact .fore (front_eq_frontRouted leads) unwoken

theorem fore_lookup {d : RoutingDecision} (phase : t.phase = .lookup d)
    (leads : front B ts s i t.request sh (.lookup d) = some F)
    (unwoken : Unwoken i sh (.lookup d)) (succeeds : t.phase.succeeds k a = true)
    (made : taskStep B ts s i t sh a = some (sh', ph', evs)) :
    Way B ts s i t.request k F t.streaming sh' ph' (emissions (history i evs)) := by
  cases run_of_inCall (by rw [phase]; rfl) succeeds made
  simp only [taskStep, phase, admits_none, if_true, Option.some.injEq] at made
  have left := Option.some.inj leads
  unfold lookupCache at made
  unfold frontLookup at left
  cases there : sh.cache with
  | none =>
      simp only [there] at made left
      cases made
      exact .fore (congrArg some left) unwoken
  | some c =>
      simp only [there] at made left
      cases got : c.get (cacheKey d t.request.prompt) sh.mono with
      | mk hit c' =>
          simp only [got] at made left
          cases hit with
          | none =>
              cases made
              exact .fore (congrArg some left) unwoken
          | some entry =>
              cases streamed : t.streaming with
              | false =>
                  simp only [streamed] at made
                  cases made
                  rw [emissions_eq_nil (by simp)]
                  exact .hit left.symm
              | true =>
                  simp only [streamed, replayCached] at made
                  cases made
                  rw [emissions_emitted]
                  exact .replaying left.symm rfl

theorem fore_reserving {d : RoutingDecision} (phase : t.phase = .reserving d)
    (leads : front B ts s i t.request sh (.reserving d) = some F)
    (unwoken : Unwoken i sh (.reserving d)) (succeeds : t.phase.succeeds k a = true)
    (made : taskStep B ts s i t sh a = some (sh', ph', evs)) :
    Way B ts s i t.request k F t.streaming sh' ph' (emissions (history i evs)) := by
  cases run_of_inCall (by rw [phase]; rfl) succeeds made
  simp only [taskStep, phase, admits_none, if_true, Option.some.injEq] at made
  have left := Option.some.inj leads
  unfold reserveBudget at made
  unfold frontReserving at left
  generalize B.reserve .none sh.ledger i t.request.userId d.projectedCost
    (t.request.userLimit s) sh.now = reserved at made left
  obtain ⟨res, ledger⟩ := reserved
  cases res with
  | ok r =>
      cases made
      rw [emissions_eq_nil (by simp [LedgerFault.executed])]
      exact .fore (congrArg some left) unwoken
  | error e =>
      cases made
      rw [emissions_eq_nil (by simp [LedgerFault.executed])]
      exact .fore (congrArg some left) trivial

theorem fore_granted {d : RoutingDecision} {r : Reservation} (phase : t.phase = .granted d r)
    (leads : front B ts s i t.request sh (.granted d r) = some F)
    (unwoken : Unwoken i sh (.granted d r)) (succeeds : t.phase.succeeds k a = true)
    (made : taskStep B ts s i t sh a = some (sh', ph', evs)) :
    Way B ts s i t.request k F t.streaming sh' ph' (emissions (history i evs)) := by
  cases run_of_inCall (by rw [phase]; rfl) succeeds made
  simp only [taskStep, phase, admits_none, if_true, Option.some.injEq] at made
  have left := Option.some.inj leads
  unfold passGate CapacityGate.acquire at made
  unfold frontGranted CapacityGate.acquire at left
  by_cases room : sh.gate.active < sh.gate.capacity
  · simp only [room, if_true, enter] at made left
    cases streamed : t.streaming with
    | false =>
        simp only [streamed] at made
        cases made
        rw [emissions_eq_nil (by simp)]
        exact .attempting left.symm
    | true =>
        simp only [streamed, if_true] at made
        cases made
        have told : emissions (history i
            [.admitted i, .started i, .emitted i (startEvent d)]) = [startEvent d] := by
          simp [history, Event.request, emissions]
        rw [told]
        have begins : Way B ts s i t.request k F true _
            (.yielded { decision := d, reservation := r } .start)
            (startEvent d :: ([] : List String).map .delta) :=
          .telling left.symm (.inl rfl) (.inl rfl)
        exact begins
  · simp only [room, if_false] at made left
    cases made
    exact .fore (congrArg some left) (runnable_of_parked unwoken)

theorem fore_queued {d : RoutingDecision} {r : Reservation} (phase : t.phase = .queued d r)
    (leads : front B ts s i t.request sh (.queued d r) = some F)
    (unwoken : Unwoken i sh (.queued d r)) (succeeds : t.phase.succeeds k a = true)
    (made : taskStep B ts s i t sh a = some (sh', ph', evs)) :
    Way B ts s i t.request k F t.streaming sh' ph' (emissions (history i evs)) := by
  cases a with
  | wake =>
      have asleep : sh.gate.runnable i = false := unwoken
      simp [taskStep, phase, asleep] at made
  | timeout =>
      simp only [taskStep, phase] at made
      split at made
      · cases made
        rw [emissions_eq_nil (by simp)]
        exact .fore leads trivial
      · cases made
  | cancel executed =>
      rw [phase] at succeeds
      cases succeeds
  | _ => simp [taskStep, phase] at made

theorem fore_shedding {r : Reservation} (phase : t.phase = .shedding r)
    (leads : front B ts s i t.request sh (.shedding r) = some F)
    (succeeds : t.phase.succeeds k a = true)
    (made : taskStep B ts s i t sh a = some (sh', ph', evs)) :
    Way B ts s i t.request k F t.streaming sh' ph' (emissions (history i evs)) := by
  cases run_of_inCall (by rw [phase]; rfl) succeeds made
  simp only [taskStep, phase, admits_none, if_true, Option.some.injEq] at made
  cases made
  have silent : ∀ j e, .emitted j e ∉ releaseEvents i r .none := by
    unfold releaseEvents
    split <;> simp
  rw [emissions_eq_nil silent]
  exact .fore leads trivial

/-- Before the slot both paths go the same way. -/
theorem fore_next (leads : front B ts s i t.request sh t.phase = some F)
    (unwoken : Unwoken i sh t.phase) (succeeds : t.phase.succeeds k a = true)
    (made : taskStep B ts s i t sh a = some (sh', ph', evs)) :
    Way B ts s i t.request k F t.streaming sh' ph' (emissions (history i evs)) := by
  cases phase : t.phase with
  | arrived => exact fore_arrived phase (phase ▸ leads) (phase ▸ unwoken) succeeds made
  | lookup d => exact fore_lookup phase (phase ▸ leads) (phase ▸ unwoken) succeeds made
  | reserving d => exact fore_reserving phase (phase ▸ leads) (phase ▸ unwoken) succeeds made
  | granted d r => exact fore_granted phase (phase ▸ leads) (phase ▸ unwoken) succeeds made
  | queued d r => exact fore_queued phase (phase ▸ leads) (phase ▸ unwoken) succeeds made
  | shedding r => exact fore_shedding phase (phase ▸ leads) succeeds made
  | done e =>
      have running := (trans_of_taskStep made).running
      rw [phase] at running
      cases running
  | _ =>
      rw [phase] at leads
      cases leads

/-! #### Behind the slot, buffered -/

variable {req : Request} {d : RoutingDecision} {r r' : Reservation} {told : List StreamEvent}
  {breakers : BreakerRegistry} {now : Shared σ}

/-- The events of a settle tell the consumer nothing, and what follows them neither. -/
theorem emissions_settle {c : Charge} {time : ℚ} (silent : ∀ j e, .emitted j e ∉ evs) :
    emissions (history i (settleEvents i r c time .none ++ evs)) = [] := by
  apply emissions_eq_nil
  intro j e mem
  rcases List.mem_append.mp mem with settle | rest
  · exact silent_settleEvents j e settle
  · exact silent j e rest

theorem way_of_attempting (left : F = .admitted sh d r)
    (closed : (sh.breakers.get d.model.name).state = .closed)
    (succeeds : Phase.succeeds k (.attempting r (.start req.routing d)) a = true)
    (made : taskStep B ts s i
      { request := req, streaming := false, phase := .attempting r (.start req.routing d) } sh a =
        some (sh', ph', evs)) :
    Way B ts s i req k F false sh' ph' (emissions (history i evs)) := by
  cases run_of_inCall rfl succeeds made
  simp only [taskStep, admits_none, if_true, Option.some.injEq] at made
  rw [attemptStep_of_closed closed] at made
  cases made
  rw [emissions_eq_nil (by simp)]
  exact .generating left rfl

theorem way_of_generating (left : F = .admitted sh d r) (same : now = { sh with breakers })
    (succeeds : Phase.succeeds k (.generating r (.start req.routing d)) a = true)
    (made : taskStep B ts s i
      { request := req, streaming := false, phase := .generating r (.start req.routing d) } now a =
        some (sh', ph', evs)) :
    Way B ts s i req k F false sh' ph' (emissions (history i evs)) := by
  subst same
  cases a with
  | answer o =>
      have answered : o = .completion k := of_decide_eq_true succeeds
      rw [answered] at made
      cases made
      rw [emissions_eq_nil (by simp [ofCall])]
      exact .settling left rfl
  | cancel executed => cases succeeds
  | _ => simp [taskStep] at made

theorem way_of_settling (left : F = .admitted sh d r) (same : now = { sh with breakers })
    (settles : (B.settle .none sh.ledger r (chargeFor d.model k.usage) sh.now).1 = none)
    (succeeds : Phase.succeeds k (.settling r d k) a = true)
    (made : taskStep B ts s i { request := req, streaming := false, phase := .settling r d k } now a =
      some (sh', ph', evs)) :
    Way B ts s i req k F false sh' ph' (emissions (history i evs)) := by
  subst same
  cases run_of_inCall rfl succeeds made
  simp only [taskStep, admits_none, if_true, Option.some.injEq, settleStep] at made
  cases bill : B.settle .none sh.ledger r (chargeFor d.model k.usage) sh.now with
  | mk raised rest =>
      obtain ⟨r', ledger⟩ := rest
      rw [bill] at settles
      cases settles
      have billed : settled B k sh d r = { sh with ledger } := by rw [settled, bill]
      simp only [bill] at made
      split at made
      · cases made
        rw [emissions_settle (by simp)]
        apply Way.caching left
        rw [billed]
      · rename_i uncached
        cases made
        rw [emissions_settle (by simp)]
        apply Way.returned left
        have empty : sh.cache = none := Option.not_isSome_iff_eq_none.mp uncached
        simp only [concluded, billed, Shared.store, empty, Option.map_none]
        rfl

theorem way_of_caching (left : F = .admitted sh d r)
    (counted : now = Shared.finish { settled B k sh d r with breakers } k.usage
      (chargeFor d.model k.usage).cost d.downgraded)
    (succeeds : Phase.succeeds k (.caching r' d k) a = true)
    (made : taskStep B ts s i { request := req, streaming := false, phase := .caching r' d k } now a =
      some (sh', ph', evs)) :
    Way B ts s i req k F false sh' ph' (emissions (history i evs)) := by
  subst counted
  cases run_of_inCall rfl succeeds made
  simp only [taskStep, admits_none, if_true, Option.some.injEq] at made
  cases made
  rw [emissions_eq_nil (by simp)]
  exact .returned left rfl

/-! #### Behind the slot, streamed -/

variable {pieces : List String} {usage : Option Usage}

theorem way_of_pulling (left : F = .admitted sh d r)
    (used : usage = none ∨ usage = some k.usage ∧ String.join pieces = k.text)
    (succeeds : Phase.succeeds k
      (.pulling { decision := d, reservation := r, pieces, usage }) a = true)
    (made : taskStep B ts s i
      { request := req, streaming := true,
        phase := .pulling { decision := d, reservation := r, pieces, usage } } sh a =
          some (sh', ph', evs)) :
    Way B ts s i req k F true sh' ph'
      (startEvent d :: pieces.map .delta ++ emissions (history i evs)) := by
  cases a with
  | chunk c =>
      obtain ⟨early, brings⟩ := of_decide_eq_true succeeds
      simp only at early brings
      have used' : c.usage.or usage = none ∨ c.usage.or usage = some k.usage ∧
          String.join pieces ++ c.text = k.text := by
        rw [early, Option.or_none]
        exact brings
      simp only [taskStep, chunkStep, StreamState.receive] at made
      split at made
      · rename_i empty
        cases made
        rw [empty, String.append_empty] at used'
        rw [history_nil, show emissions [] = [] from rfl, List.append_nil]
        exact .telling left (.inr (.inr rfl)) used'
      · rename_i text
        cases made
        rw [emissions_emitted]
        have joined : String.join (pieces ++ [c.text]) = String.join pieces ++ c.text := by
          rw [String.join_append, String.join_cons, String.join_nil, String.append_empty]
        have told : startEvent d :: pieces.map .delta ++ [.delta c.text] =
            startEvent d :: (pieces ++ [c.text]).map .delta := by
          simp
        rw [told]
        exact .telling left (.inr (.inl rfl)) (joined ▸ used')
  | exhausted =>
      have brought : usage.isSome = true := succeeds
      rcases used with rfl | ⟨rfl, text⟩
      · cases brought
      · cases made
        rw [emissions_emitted]
        exact .ended left text
  | run f => simp [taskStep] at made
  | streamError f => cases succeeds
  | cancel executed => cases succeeds
  | _ => cases made

theorem way_of_telling {ph : Phase} (left : F = .admitted sh d r)
    (stands : ph = .yielded { decision := d, reservation := r, pieces, usage } .start ∨
      ph = .yielded { decision := d, reservation := r, pieces, usage } .delta ∨
      ph = .pulling { decision := d, reservation := r, pieces, usage })
    (used : usage = none ∨ usage = some k.usage ∧ String.join pieces = k.text)
    (succeeds : ph.succeeds k a = true)
    (made : taskStep B ts s i { request := req, streaming := true, phase := ph } sh a =
      some (sh', ph', evs)) :
    Way B ts s i req k F true sh' ph'
      (startEvent d :: pieces.map .delta ++ emissions (history i evs)) := by
  rcases stands with rfl | rfl | rfl
  · cases next_of_atYield rfl succeeds made
    cases made
    rw [emissions_eq_nil (by simp), List.append_nil]
    exact .telling left (.inr (.inr rfl)) used
  · cases next_of_atYield rfl succeeds made
    cases made
    rw [emissions_eq_nil (by simp), List.append_nil]
    exact .telling left (.inr (.inr rfl)) used
  · exact way_of_pulling left used succeeds made

theorem way_of_ended (left : F = .admitted sh d r) (text : String.join pieces = k.text)
    {st : StreamState}
    (told : st =
      { decision := d, reservation := r, pieces, usage := some k.usage, completed := true })
    (succeeds : Phase.succeeds k (.yielded st .end) a = true)
    (made : taskStep B ts s i { request := req, streaming := true, phase := .yielded st .end } sh a =
      some (sh', ph', evs)) :
    Way B ts s i req k F true sh' ph'
      (wholeStream d pieces k.usage ++ emissions (history i evs)) := by
  cases next_of_atYield rfl succeeds made
  have closing : st.finalize ts s =
      { decision := d, reservation := r, usage := k.usage, text := some k.text } := by
    rw [told, ← text]
    rfl
  simp only [taskStep, exitStream, closing] at made
  cases made
  rw [emissions_eq_nil (by simp), List.append_nil]
  exact .finalizing left text

theorem way_of_finalizing (left : F = .admitted sh d r) (text : String.join pieces = k.text)
    {fin : Finalizer}
    (args : fin = { decision := d, reservation := r, usage := k.usage, text := some k.text })
    (succeeds : Phase.succeeds k (.finalizing fin .streamed) a = true)
    (made : taskStep B ts s i
      { request := req, streaming := true, phase := .finalizing fin .streamed } sh a =
        some (sh', ph', evs)) :
    Way B ts s i req k F true sh' ph'
      (wholeStream d pieces k.usage ++ emissions (history i evs)) := by
  subst args
  cases run_of_inCall rfl succeeds made
  simp only [taskStep, admits_none, if_true, Option.some.injEq, finalizeStep] at made
  split at made
  · cases made
    have silent : emissions (history i
        (settleEvents i r (chargeFor d.model k.usage) sh.now .none)) = [] :=
      emissions_eq_nil silent_settleEvents
    rw [silent, List.append_nil]
    exact .storing left text rfl
  · rename_i uncached
    cases made
    rw [emissions_settle (by simp), List.append_nil]
    apply Way.streamed left text
    have empty : sh.cache = none := by simpa using uncached
    simp only [concluded, settled, Shared.store, empty, Option.map_none]

theorem way_of_storing (left : F = .admitted sh d r) (text : String.join pieces = k.text)
    (billed : now = settled B k sh d r) {fin : Finalizer}
    (args : fin = { decision := d, reservation := r', usage := k.usage, text := some k.text })
    (succeeds : Phase.succeeds k (.storing fin .streamed) a = true)
    (made : taskStep B ts s i
      { request := req, streaming := true, phase := .storing fin .streamed } now a =
        some (sh', ph', evs)) :
    Way B ts s i req k F true sh' ph'
      (wholeStream d pieces k.usage ++ emissions (history i evs)) := by
  subst args billed
  cases run_of_inCall rfl succeeds made
  simp only [taskStep, admits_none, if_true, Option.some.injEq] at made
  cases made
  rw [emissions_eq_nil (by simp), List.append_nil]
  exact .streamed left text rfl

/-! #### The whole way -/

theorem way_of_replaying {rest : List StreamEvent} {entry : CacheEntry} (left : F = .hit sh d entry)
    (whole : told ++ rest = replayCached d entry)
    (succeeds : Phase.succeeds k (.replaying rest) a = true)
    (made : taskStep B ts s i { request := req, streaming := true, phase := .replaying rest } sh a =
      some (sh', ph', evs)) :
    Way B ts s i req k F true sh' ph' (told ++ emissions (history i evs)) := by
  cases next_of_atYield rfl succeeds made
  cases rest with
  | nil =>
      cases made
      rw [emissions_eq_nil (by simp), whole]
      exact .replayed left
  | cons e rest =>
      cases made
      rw [emissions_emitted]
      apply Way.replaying left
      rw [List.append_assoc]
      exact whole

/-- A step keeps to the way, if the model's breaker is closed and the ledger settles. -/
theorem Way.next (way : Way B ts s i t.request k F t.streaming sh t.phase told)
    (closed : ∀ sh d r, F = .admitted sh d r → (sh.breakers.get d.model.name).state = .closed)
    (settles : ∀ sh d r, F = .admitted sh d r →
      (B.settle .none sh.ledger r (chargeFor d.model k.usage) sh.now).1 = none)
    (succeeds : t.phase.succeeds k a = true)
    (made : taskStep B ts s i t sh a = some (sh', ph', evs)) :
    Way B ts s i t.request k F t.streaming sh' ph' (told ++ emissions (history i evs)) := by
  obtain ⟨req, streaming, ph⟩ := t
  have running := (trans_of_taskStep made).running
  change Way B ts s i req k F streaming sh ph told at way
  cases way with
  | fore leads unwoken => exact fore_next leads unwoken succeeds made
  | hit left | replayed left | returned left ended | streamed left text ended => cases running
  | replaying left whole => exact way_of_replaying left whole succeeds made
  | attempting left => exact way_of_attempting left (closed _ _ _ left) succeeds made
  | generating left same => exact way_of_generating left same succeeds made
  | settling left same => exact way_of_settling left same (settles _ _ _ left) succeeds made
  | caching left counted => exact way_of_caching left counted succeeds made
  | telling left stands used => exact way_of_telling left stands used succeeds made
  | ended left text => exact way_of_ended left text rfl succeeds made
  | finalizing left text => exact way_of_finalizing left text rfl succeeds made
  | storing left text billed => exact way_of_storing left text billed rfl succeeds made

/-! #### What the front part keeps -/

/-- A settle that the network does not disturb does not raise. -/
def LedgerBackend.Steady (B : LedgerBackend σ) : Prop :=
  ∀ l r c now, r.closed = false → (B.settle .none l r c now).1 = none

theorem Ledger.steady : Ledger.backend.Steady := fun _ _ _ _ _ => rfl

theorem RedisLedger.steady (cfg : RedisConfig) : (RedisLedger.backend cfg).Steady :=
  fun l _ c now opened => (RedisLedger.settle_raises_iff cfg opened .none l c now).mpr (.inl rfl)

/-- A request that is admitted was routed to the decision, has an open reservation, and met no
breaker yet; and one that exits was refused. -/
structure Fair (d : RoutingDecision) (sh : Shared σ) (F : Front σ) : Prop where
  decision : ∀ sh' d' r, F = .admitted sh' d' r → d' = d
  opened : ∀ sh' d' r, F = .admitted sh' d' r → r.closed = false
  breakers : ∀ sh' d' r, F = .admitted sh' d' r → sh'.breakers = sh.breakers
  refused : ∀ sh' e, F = .out sh' e → e.refused = true

theorem fair_out (sh₀ : Shared σ) {e : Exit} (refused : e.refused = true) :
    Fair d sh (.out sh₀ e) := by
  constructor
  · intro sh' d' r left
    cases left
  · intro sh' d' r left
    cases left
  · intro sh' d' r left
    cases left
  · intro sh' e' left
    cases left
    exact refused

theorem fair_hit (sh₀ : Shared σ) (d₀ : RoutingDecision) (entry : CacheEntry) :
    Fair d sh (.hit sh₀ d₀ entry) := by
  constructor
  all_goals
    intros
    contradiction

theorem fair_shedding (sh₀ : Shared σ) : Fair d sh (frontShedding B s sh₀ r) := by
  apply fair_out
  cases (B.release .none sh₀.ledger r).1 with
  | none => rfl
  | some e => rfl

theorem fair_granted (opened : r.closed = false) : Fair d sh (frontGranted B s i sh d r) := by
  unfold frontGranted
  simp only
  split
  · constructor
    · intro sh' d' r' left
      cases left
      rfl
    · intro sh' d' r' left
      cases left
      exact opened
    · intro sh' d' r' left
      cases left
      rfl
    · intro sh' e left
      cases left
  · exact fair_shedding _

theorem fair_reserving : Fair d sh (frontReserving B s i req sh d) := by
  unfold frontReserving
  split
  · rename_i r ledger reserved
    have opened : r.closed = false := by
      rw [B.reserve_ok reserved]
    have granted : Fair d { sh with ledger } (frontGranted B s i { sh with ledger } d r) :=
      fair_granted opened
    exact ⟨granted.decision, granted.opened, granted.breakers, granted.refused⟩
  · exact fair_out _ rfl

theorem fair_lookup : Fair d sh (frontLookup B s i req sh d) := by
  unfold frontLookup
  split
  · exact fair_reserving
  · split
    · exact fair_hit ..
    · rename_i c' got
      have missed : Fair d { sh with cache := some c', metrics := sh.metrics.cacheMiss }
          (frontReserving B s i req
            { sh with cache := some c', metrics := sh.metrics.cacheMiss } d) :=
        fair_reserving
      exact ⟨missed.decision, missed.opened, missed.breakers, missed.refused⟩

/-- The front part leads somewhere, and to the slot as routed. -/
theorem front_leads (B : LedgerBackend σ) (ts : TextSupport) (s : Settings) (i : ℕ) (req : Request)
    (sh : Shared σ) :
    ∃ F, front B ts s i req sh .arrived = some F ∧
      ((∃ sh' e, F = .out sh' e ∧ e.refused = true) ∨
        ∃ d, route ts s req.routing [] = .ok d ∧ Fair d sh F) := by
  obtain ⟨limiter, ⟨metrics, e, refused, exits⟩ | ⟨d, routed, moves⟩⟩ :=
    arrive_cases ts s { request := req, streaming := false, phase := .arrived } sh
  · refine ⟨.out { sh with limiter, metrics } e, ?_, .inl ⟨_, _, rfl, refused⟩⟩
    rw [front, exits]
    rfl
  · rw [front, moves]
    cases sh.cache.isSome with
    | true =>
        have looks : Fair d { sh with limiter } (frontLookup B s i req { sh with limiter } d) :=
          fair_lookup
        exact ⟨_, rfl, .inr ⟨d, routed, looks.decision, looks.opened, looks.breakers, looks.refused⟩⟩
    | false =>
        have reserves : Fair d { sh with limiter }
            (frontReserving B s i req { sh with limiter } d) := fair_reserving
        exact ⟨_, rfl, .inr ⟨d, routed, reserves.decision, reserves.opened, reserves.breakers,
          reserves.refused⟩⟩

end Steps

section Runs

variable {σ : Type} {B : LedgerBackend σ} {ts : TextSupport} {s : Settings} {ledger : σ}
  {req : Request} {streaming : Bool} {k : Completion} {F : Front σ} {w w₁ w₂ w₁' w₂' : World σ}

/-- The run of one request stays on its way. -/
theorem way_of_solo (reached : Reaches (World.step B ts s) Always (World.start s ledger) w)
    (leads : front B ts s w.tasks.length req w.shared .arrived = some F)
    (closed : ∀ sh d r, F = .admitted sh d r → (sh.breakers.get d.model.name).state = .closed)
    (settles : ∀ sh d r, F = .admitted sh d r →
      (B.settle .none sh.ledger r (chargeFor d.model k.usage) sh.now).1 = none)
    (asked : World.step B ts s w (.submit req streaming) = some w₁)
    (solo : Reaches (World.step B ts s) (World.Solo w.tasks.length k) w₁ w₂) :
    ∃ ph, w₂.tasks[w.tasks.length]? = some { request := req, streaming, phase := ph } ∧
      Way B ts s w.tasks.length req k F streaming w₂.shared ph
        (emissions (history w.tasks.length w₂.log)) := by
  apply solo.invariant (I := fun w₂ =>
    ∃ ph, w₂.tasks[w.tasks.length]? = some { request := req, streaming, phase := ph } ∧
      Way B ts s w.tasks.length req k F streaming w₂.shared ph
        (emissions (history w.tasks.length w₂.log)))
  · cases asked
    refine ⟨.arrived, List.getElem?_concat_length, ?_⟩
    rw [history_of_new ⟨rfl, rfl⟩ reached _ le_rfl]
    apply Way.fore leads
    intro wt mem
    exact Nat.ne_of_lt (waiters_of_reaches reached wt mem)
  · rintro w₂ a w₃ ⟨ph, here, way⟩ alone stepped
    cases a with
    | submit request streaming | clock now mono | scale later => cases alone
    | task j a =>
        obtain ⟨rfl, succeeds⟩ := alone
        obtain ⟨t, sh, ph', evs, there, made, rfl⟩ := task_of_step stepped
        cases here.symm.trans there
        refine ⟨ph', Pool.get_set_self here _, ?_⟩
        rw [history_append, emissions_append]
        exact way.next closed settles (succeeds _ here) made

theorem tells_cached (d : RoutingDecision) (entry : CacheEntry) :
    Tells (cachedResult d entry) (replayCached d entry) := by
  by_cases empty : entry.text = ""
  · refine ⟨0, [], ?_, ?_⟩
    · rw [cachedResult, empty]
      rfl
    · rw [replayCached, if_pos empty]
      rfl
  · refine ⟨0, [entry.text], ?_, ?_⟩
    · rw [String.join_cons, String.join_nil, String.append_empty, cachedResult]
    · rw [replayCached, if_neg empty]
      rfl

theorem tells_whole {d : RoutingDecision} {pieces : List String}
    (text : String.join pieces = k.text) :
    Tells (servedResult d k) (wholeStream d pieces k.usage) :=
  ⟨Decimal.roundTo 6 d.projectedCost, pieces, text, rfl⟩

/-- Two ended runs agree, but for the breakers. -/
theorem agree_of_ways {i : ℕ} {sh sh' : Shared σ} {e e' : Exit} {told told' : List StreamEvent}
    (refuses : ∀ sh e, F = .out sh e → e.refused = true)
    (buffered : Way B ts s i req k F false sh (.done e) told)
    (streamed : Way B ts s i req k F true sh' (.done e') told') :
    (∃ breakers, sh' = { sh with breakers }) ∧ SameReport e e' told' := by
  cases buffered with
  | fore leads =>
      have out : F = .out sh e := (Option.some.inj leads).symm
      cases streamed with
      | fore leads' =>
          cases out.symm.trans (Option.some.inj leads').symm
          exact ⟨⟨sh.breakers, rfl⟩, .refused (refuses _ _ out)⟩
      | replayed left | streamed left => cases out.symm.trans left
      | telling _ stands => simp at stands
  | hit hit =>
      cases streamed with
      | fore leads' => cases (Option.some.inj leads').trans hit
      | replayed left =>
          cases hit.symm.trans left
          exact ⟨⟨sh.breakers, rfl⟩, .served (tells_cached _ _)⟩
      | streamed left => cases hit.symm.trans left
      | telling _ stands => simp at stands
  | returned admitted ended =>
      cases streamed with
      | fore leads' => cases (Option.some.inj leads').trans admitted
      | replayed left => cases admitted.symm.trans left
      | telling _ stands => simp at stands
      | streamed left text ended' =>
          cases admitted.symm.trans left
          refine ⟨⟨sh'.breakers, ?_⟩, .served (tells_whole text)⟩
          rw [ended, ended']

/-- From every reached state in which the breaker of the model a request is routed to is closed:
the request alone through `handle`, and alone through `handle_stream` to the end of its finalizer,
with a provider that gives the same text and usage at once and in chunks, end in the same shared
state but for the breakers, and report the same. -/
theorem paths_agree (B : LedgerBackend σ) (steady : B.Steady) (ts : TextSupport) (s : Settings)
    (ledger : σ) (req : Request) (k : Completion)
    (reached : Reaches (World.step B ts s) Always (World.start s ledger) w)
    (closed : ∀ d, route ts s req.routing [] = .ok d →
      (w.shared.breakers.get d.model.name).state = .closed)
    (asked : World.step B ts s w (.submit req false) = some w₁)
    (buffered : Reaches (World.step B ts s) (World.Solo w.tasks.length k) w₁ w₁') {t : Task}
    (here : w₁'.tasks[w.tasks.length]? = some t) (gone : t.phase.gone = true)
    (askedStream : World.step B ts s w (.submit req true) = some w₂)
    (streamed : Reaches (World.step B ts s) (World.Solo w.tasks.length k) w₂ w₂') {u : Task}
    (there : w₂'.tasks[w.tasks.length]? = some u) (drained : u.phase.gone = true) :
    (∃ breakers, w₂'.shared = { w₁'.shared with breakers }) ∧
      ∃ e e', t.phase = .done e ∧ u.phase = .done e' ∧
        SameReport e e' (emissions (history w.tasks.length w₂'.log)) := by
  obtain ⟨F, leads, fate⟩ := front_leads B ts s w.tasks.length req w.shared
  have closed' : ∀ sh d r, F = .admitted sh d r →
      (sh.breakers.get d.model.name).state = .closed := by
    intro sh d r left
    rcases fate with ⟨sh', e, out, -⟩ | ⟨d', routed, fair⟩
    · cases out.symm.trans left
    · rw [fair.breakers _ _ _ left, fair.decision _ _ _ left]
      exact closed d' routed
  have settles : ∀ sh d r, F = .admitted sh d r →
      (B.settle .none sh.ledger r (chargeFor d.model k.usage) sh.now).1 = none := by
    intro sh d r left
    rcases fate with ⟨sh', e, out, -⟩ | ⟨d', -, fair⟩
    · cases out.symm.trans left
    · exact steady _ _ _ _ (fair.opened _ _ _ left)
  have refuses : ∀ sh e, F = .out sh e → e.refused = true := by
    intro sh e left
    rcases fate with ⟨sh', e', out, refused⟩ | ⟨d', -, fair⟩
    · cases out.symm.trans left
      exact refused
    · exact fair.refused _ _ left
  obtain ⟨ph, here', way⟩ := way_of_solo reached leads closed' settles asked buffered
  obtain ⟨ph', there', way'⟩ := way_of_solo reached leads closed' settles askedStream streamed
  cases here'.symm.trans here
  cases there'.symm.trans there
  obtain ⟨e, rfl⟩ := Phase.exit_of_gone gone
  obtain ⟨e', rfl⟩ := Phase.exit_of_gone drained
  obtain ⟨same, reports⟩ := agree_of_ways refuses way way'
  exact ⟨same, e, e', rfl, rfl, reports⟩

end Runs

/-! ### One answer, in two chunks -/

def yo : Completion := { text := "yo", inputTokens := 1, outputTokens := 1 }

/-- Through `handle`, after it was submitted. -/
def bufferedActs : List WorldAct :=
  [.task 0 (.run .none), .task 0 (.run .none), .task 0 (.run .none), .task 0 (.run .none),
    .task 0 (.run .none), .task 0 (.answer (.completion yo)), .task 0 (.run .none),
    .task 0 (.run .none)]

/-- The result a request has returned. -/
def Phase.result? : Phase → Option InferenceResult
  | .done (.result r) => some r
  | _ => none

theorem Phase.result?_eq_some {ph : Phase} {r : InferenceResult} :
    ph.result? = some r ↔ ph = .done (.result r) := by
  constructor
  · intro returned
    unfold result? at returned
    split at returned <;> cases returned
    rfl
  · rintro rfl
    rfl

/-- Through `handle_stream`, to the end of its finalizer. -/
def streamedActs : List WorldAct :=
  [.task 0 (.run .none), .task 0 (.run .none), .task 0 (.run .none), .task 0 (.run .none),
    .task 0 .next, .task 0 (.chunk { text := "y" }), .task 0 .next, .task 0 (.chunk { text := "o" }),
    .task 0 .next, .task 0 (.chunk { usage := some yo.usage }), .task 0 .exhausted, .task 0 .next,
    .task 0 (.run .none), .task 0 (.run .none)]

theorem paths_agree_in_two_chunks :
    ∃ w w' : World Ledger, (∃ breakers, w'.shared = { w.shared with breakers }) ∧
      (∃ r, w.tasks.map (·.phase) = [.done (.result r)] ∧ r.text = "yo") ∧
      w'.tasks.map (·.phase) = [.done .streamed] := by
  have answers : execHolds (World.step Ledger.backend .ascii oneSlotCached) (World.Solo 0 yo)
      { World.start oneSlotCached ({} : Ledger) with
        tasks := [{ request := { prompt := "hi", userId := "u" }, streaming := false,
                    phase := .arrived }] }
      bufferedActs (fun w => w.tasks[0]?.any fun t => t.phase.result?.any fun r =>
        decide (w.tasks.map (·.phase) = [.done (.result r)] ∧ r.text = "yo")) = true := by
    decide +kernel
  have streams : execHolds (World.step Ledger.backend .ascii oneSlotCached) (World.Solo 0 yo)
      { World.start oneSlotCached ({} : Ledger) with
        tasks := [{ request := { prompt := "hi", userId := "u" }, streaming := true,
                    phase := .arrived }] }
      streamedActs (fun w => w.tasks[0]?.any fun t =>
        decide (t.phase.gone = true ∧ w.tasks.map (·.phase) = [.done .streamed])) = true := by
    decide +kernel
  obtain ⟨w, buffered, good⟩ := exists_reaches_of_execHolds _ _ answers
  obtain ⟨t, here, good⟩ := (Option.any_eq_true ..).mp good
  obtain ⟨w', streamed, drains⟩ := exists_reaches_of_execHolds _ _ streams
  obtain ⟨u, there, drains⟩ := (Option.any_eq_true ..).mp drains
  obtain ⟨drained, ended⟩ := of_decide_eq_true drains
  obtain ⟨r, returned, good⟩ := (Option.any_eq_true ..).mp good
  have gone : t.phase.gone = true := by
    rw [Phase.result?_eq_some.mp returned]
    rfl
  obtain ⟨same, -⟩ := paths_agree Ledger.backend Ledger.steady .ascii oneSlotCached {}
    { prompt := "hi", userId := "u" } yo .refl (fun _ _ => rfl) rfl buffered here gone rfl
    streamed there drained
  exact ⟨w, w', same, ⟨r, of_decide_eq_true good⟩, ended⟩

end LLMInference
