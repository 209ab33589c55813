import LLMInference.Cost.Memory
import LLMInference.Service.Ceiling

/-!
Concurrent misses of one cache key (`app/service.py`, `app/cache.py`).

`SingleFlight` collapses concurrent work for one key into one execution, and the service never
uses it: `handle` goes from a miss to the provider whatever else is on its way there. So there is
one generation for a key at a time only as long as nobody misses it while another request is
between its own miss and its end.

* `Task.missed`: the key of a request between its miss and its end.
* `World.Spaced`: a step is no miss of a key that some request has missed already.
* `CalmMove`, `calmMove_of_taskStep`: what a step of a buffered request does when no generation
  fails.
* `one_generation_per_miss`: spaced misses cause one generation each.
* `two_generations_per_miss`: two that are not spaced.
-/

namespace LLMInference

open Runs

/-- The key of a request between its miss and its end. -/
def Task.missed (t : Task) : Option CacheKey :=
  match t.phase with
  | .reserving d | .granted d _ | .queued d _ | .settling _ d _ | .caching _ d _ =>
      some (cacheKey d t.request.prompt)
  | .attempting _ c | .generating _ c => some (cacheKey c.current t.request.prompt)
  | _ => none

/-- The provider calls of a request since its miss. -/
def Phase.calls : Phase → ℕ
  | .generating .. | .settling .. | .caching .. => 1
  | _ => 0

/-- In `provider.generate`. -/
def Phase.generates : Phase → Bool
  | .generating .. => true
  | _ => false

/-- The request has asked the cache, if it was going to. -/
def Phase.past : Phase → Bool
  | .arrived | .lookup _ => false
  | _ => true

/-- The phases of a stream. -/
def Phase.streams : Phase → Bool
  | .yielded .. | .pulling _ | .finalizing .. | .storing .. | .replaying _ => true
  | _ => false

/-- The key a lookup is about to miss. -/
def Task.misses (t : Task) (c : InMemoryCache) (now : ℚ) : Option CacheKey :=
  match t.phase with
  | .lookup d =>
      if (c.get (cacheKey d t.request.prompt) now).1 = none then
        some (cacheKey d t.request.prompt)
      else none
  | _ => none

/-- Only `handle` is called, and no generation fails. -/
def WorldAct.unfailing : WorldAct → Bool
  | .submit _ streaming => !streaming
  | .task _ (.answer (.failure _)) => false
  | _ => true

/-- The request an event says the provider was called for. -/
def Event.caller : Event → Option ℕ
  | .invoked i .. => some i
  | _ => none

namespace World

variable {σ : Type}

/-- The key the step is about to miss. -/
def misses (w : World σ) : WorldAct → Option CacheKey
  | .task i (.run _) =>
      w.tasks[i]?.bind fun t => w.shared.cache.bind fun c => t.misses c w.shared.mono
  | _ => none

/-- The step misses no key that some request has missed and not come to its end with. -/
def Spaced (w : World σ) (a : WorldAct) : Prop :=
  ∀ key ∈ w.misses a, ∀ t ∈ w.tasks, t.missed ≠ some key

instance (w : World σ) (a : WorldAct) : Decidable (w.Spaced a) :=
  inferInstanceAs (Decidable (∀ key ∈ w.misses a, ∀ t ∈ w.tasks, t.missed ≠ some key))

/-- An event is a provider call for the key. -/
def callsFor (w : World σ) (s : Settings) (key : CacheKey) : Event → Bool
  | .invoked i model _ _ _ =>
      (w.tasks[i]?.map (·.request)).any fun req => decide (
        { model, prompt := req.prompt, maxOutputTokens := req.routing.projectedOutput s } = key)
  | _ => false

/-- The provider calls for the key so far. -/
def calls (w : World σ) (s : Settings) (key : CacheKey) : ℕ := w.log.countP (w.callsFor s key)

/-- Only `handle` runs, no generation fails, and misses are spaced. -/
def Calm (w : World σ) (a : WorldAct) : Prop := a.unfailing = true ∧ w.Spaced a

instance (w : World σ) (a : WorldAct) : Decidable (w.Calm a) :=
  inferInstanceAs (Decidable (_ ∧ _))

end World

section Steps

variable {σ : Type} {B : LedgerBackend σ} {ts : TextSupport} {s : Settings} {i : ℕ} {t : Task}
  {sh sh' : Shared σ} {a : TaskAct} {ph ph' : Phase} {evs : List Event}

/-- The breakers are closed and there is a cache. -/
structure Shared.Sound (sh : Shared σ) : Prop where
  cached : sh.cache.isSome = true
  closed : ∀ name, (sh.breakers.get name).state = .closed

/-- A step of a buffered request while no generation fails. -/
inductive CalmMove (i : ℕ) (t : Task) (sh : Shared σ) (a : TaskAct) (ph' : Phase)
    (evs : List Event) : Prop
  | kept (missed : Task.missed { t with phase := ph' } = t.missed) (calls : ph'.calls = t.phase.calls)
      (silent : ∀ e ∈ evs, e.caller = none)
  | ended (missed : Task.missed { t with phase := ph' } = none) (silent : ∀ e ∈ evs, e.caller = none)
  | missed {c : InMemoryCache} {key : CacheKey} {f : LedgerFault} (runs : a = .run f)
      (cached : sh.cache = some c) (misses : t.misses c sh.mono = some key)
      (missed : Task.missed { t with phase := ph' } = some key) (calls : ph'.calls = 0)
      (silent : ∀ e ∈ evs, e.caller = none)
  | called {r : Reservation} {c : FailoverCall} {asked : Option Bool} {b : CircuitBreaker} {now : ℚ}
      (before : t.phase = .attempting r c) (after : ph' = .generating r c)
      (call : evs = [.invoked i c.target asked b now])

theorem caller_settleEvents {r : Reservation} {c : Charge} {now : ℚ} {f : LedgerFault} :
    ∀ e ∈ settleEvents i r c now f, e.caller = none := by
  unfold settleEvents
  split <;> simp [Event.caller]

theorem caller_releaseEvents {r : Reservation} {f : LedgerFault} :
    ∀ e ∈ releaseEvents i r f, e.caller = none := by
  unfold releaseEvents
  split <;> simp [Event.caller]

theorem BreakerRegistry.closed_put {r : BreakerRegistry} {name : String} {b : CircuitBreaker}
    (closed : ∀ other, (r.get other).state = .closed) (own : b.state = .closed) :
    ∀ other, ((r.put name b).get other).state = .closed := by
  intro other
  rcases eq_or_ne other name with rfl | ne
  · rw [get_put_self]
    exact own
  · rw [get_put_ne b ne]
    exact closed other

theorem calmMove_of_arrived (sound : sh.Sound) (arrived : t.phase = .arrived)
    (made : taskStep B ts s i t sh a = some (sh', ph', evs)) :
    sh'.Sound ∧ CalmMove i t sh a ph' evs := by
  have unmissed : t.missed = none := by rw [Task.missed, arrived]
  have left : ∀ {ph : Phase}, Task.missed { t with phase := ph } = none →
      CalmMove i t sh a ph [] := fun missed => .ended missed (List.forall_mem_nil _)
  cases a with
  | run f =>
      simp only [taskStep, arrived] at made
      split at made
      · have out := Option.some.inj made
        unfold arrive at out
        split at out
        split at out
        · cases out
          exact ⟨⟨sound.cached, sound.closed⟩, left rfl⟩
        · split at out
          · cases out
            exact ⟨⟨sound.cached, sound.closed⟩, left rfl⟩
          · simp only [sound.cached, if_true] at out
            cases out
            exact ⟨⟨sound.cached, sound.closed⟩, left rfl⟩
      · cases made
  | cancel executed =>
      simp only [taskStep, arrived] at made
      cases made
      exact ⟨sound, left rfl⟩
  | _ => simp [taskStep, arrived] at made

theorem calmMove_of_lookup {d : RoutingDecision} (sound : sh.Sound) (buffered : t.streaming = false)
    (looking : t.phase = .lookup d) (made : taskStep B ts s i t sh a = some (sh', ph', evs)) :
    sh'.Sound ∧ CalmMove i t sh a ph' evs := by
  cases a with
  | run f =>
      simp only [taskStep, looking] at made
      split at made
      · obtain ⟨c, there⟩ := Option.isSome_iff_exists.mp sound.cached
        have out := Option.some.inj made
        simp only [lookupCache, there, buffered] at out
        cases got : c.get (cacheKey d t.request.prompt) sh.mono with
        | mk hit c' =>
            rw [got] at out
            cases hit with
            | some entry =>
                cases out
                exact ⟨⟨rfl, sound.closed⟩, .ended rfl (by simp [Event.caller])⟩
            | none =>
                cases out
                have misses : t.misses c sh.mono = some (cacheKey d t.request.prompt) := by
                  simp [Task.misses, looking, got]
                exact ⟨⟨rfl, sound.closed⟩, .missed rfl there misses rfl rfl (List.forall_mem_nil _)⟩
      · cases made
  | cancel executed =>
      simp only [taskStep, looking] at made
      split at made
      · cases made
        exact ⟨sound, .ended rfl (List.forall_mem_nil _)⟩
      · cases made
  | _ => simp [taskStep, looking] at made

theorem calmMove_of_generating {r : Reservation} {c : FailoverCall} (sound : sh.Sound)
    (generating : t.phase = .generating r c) (unfailing : (WorldAct.task i a).unfailing = true)
    (made : taskStep B ts s i t sh a = some (sh', ph', evs)) :
    sh'.Sound ∧ CalmMove i t sh a ph' evs := by
  cases a with
  | answer o =>
      cases o with
      | failure e => cases unfailing
      | completion k =>
          simp only [taskStep, generating] at made
          cases made
          refine ⟨⟨sound.cached, BreakerRegistry.closed_put sound.closed rfl⟩, ?_⟩
          apply CalmMove.kept
          · simp [Task.missed, generating, ofCall]
          · rw [generating]
            rfl
          · simp [ofCall, Event.caller]
  | cancel executed =>
      simp only [taskStep, generating] at made
      cases made
      exact ⟨⟨sound.cached, sound.closed⟩, .ended rfl (by simp [Event.caller])⟩
  | _ => simp [taskStep, generating] at made

theorem calmMove_of_attempting {r : Reservation} {c : FailoverCall} (sound : sh.Sound)
    (attempting : t.phase = .attempting r c)
    (made : taskStep B ts s i t sh a = some (sh', ph', evs)) :
    sh'.Sound ∧ CalmMove i t sh a ph' evs := by
  cases a with
  | run f =>
      simp only [taskStep, attempting, attemptStep_of_closed (sound.closed c.target)] at made
      split at made
      · cases made
        exact ⟨⟨sound.cached, BreakerRegistry.closed_put sound.closed (sound.closed _)⟩,
          .called attempting rfl rfl⟩
      · cases made
  | _ => simp [taskStep, attempting] at made

/-- What a step of a buffered request does while no generation fails. -/
theorem calmMove_of_taskStep (sound : sh.Sound) (buffered : t.streaming = false)
    (plain : t.phase.streams = false) (unfailing : (WorldAct.task i a).unfailing = true)
    (made : taskStep B ts s i t sh a = some (sh', ph', evs)) :
    sh'.Sound ∧ CalmMove i t sh a ph' evs := by
  have step := trans_of_taskStep made
  generalize phase : t.phase = ph at step
  rw [phase] at plain
  have calls : ∀ {ph' : Phase}, ph'.calls = ph.calls → ph'.calls = t.phase.calls :=
    fun same => same.trans (congrArg Phase.calls phase.symm)
  cases step with
  | rejected | toLookup | toReserve => exact calmMove_of_arrived sound phase made
  | hit | hitStream | miss => exact calmMove_of_lookup sound buffered phase made
  | completed | faultNext | faultRaise | otherRaise | cancelGenerating =>
      exact calmMove_of_generating sound phase unfailing made
  | allowed | deniedNext | deniedRaise => exact calmMove_of_attempting sound phase made
  | quit quiet =>
      cases ph with
      | arrived => exact calmMove_of_arrived sound phase made
      | lookup d => exact calmMove_of_lookup sound buffered phase made
      | replaying rest => cases plain
      | _ => cases quiet
  | enterBuffered entering _ =>
      refine ⟨⟨sound.cached, sound.closed⟩, ?_⟩
      cases entering with
      | atOnce _ | woken _ _ =>
          exact .kept (by simp [Task.missed, phase, FailoverCall.start]) (calls rfl)
            (by simp [Event.caller])
  | enterStreamed _ streamed => cases buffered.symm.trans streamed
  | granted _ _ =>
      refine ⟨⟨sound.cached, sound.closed⟩, ?_⟩
      refine .kept (by simp [Task.missed, phase]) (calls rfl) ?_
      split <;> simp [Event.caller]
  | park _ | repark _ =>
      refine ⟨⟨sound.cached, sound.closed⟩, ?_⟩
      exact .kept (by simp [Task.missed, phase]) (calls rfl) (List.forall_mem_nil _)
  | settleCache _ _ =>
      refine ⟨⟨sound.cached, sound.closed⟩, ?_⟩
      refine .kept (by simp [Task.missed, phase]) (calls rfl) ?_
      exact List.forall_mem_append.mpr ⟨caller_settleEvents, by simp [Event.caller]⟩
  | refused _ _ | cancelReserve _ =>
      refine ⟨⟨sound.cached, sound.closed⟩, .ended rfl ?_⟩
      split <;> simp [Event.caller]
  | settleRaise _ _ => exact ⟨⟨sound.cached, sound.closed⟩, .ended rfl caller_settleEvents⟩
  | settleReturn _ _ | cancelSettle _ =>
      refine ⟨⟨sound.cached, sound.closed⟩, .ended rfl ?_⟩
      exact List.forall_mem_append.mpr ⟨caller_settleEvents, by simp [Event.caller]⟩
  | finishShed _ _ | cancelShed _ =>
      exact ⟨⟨sound.cached, sound.closed⟩, .ended rfl caller_releaseEvents⟩
  | refundRaise _ _ | refund _ _ | cancelRefund _ =>
      refine ⟨⟨sound.cached, sound.closed⟩, .ended rfl ?_⟩
      exact List.forall_mem_append.mpr ⟨caller_releaseEvents, by simp [Event.caller]⟩
  | timeout | cancelQueued =>
      exact ⟨⟨sound.cached, sound.closed⟩, .ended rfl (by simp [Event.caller])⟩
  | storeReturn =>
      refine ⟨⟨?_, sound.closed⟩, .ended rfl (by simp [Event.caller])⟩
      exact (Option.isSome_map ..).trans sound.cached
  | cancelCaching networked =>
      rename_i r served k executed cache
      simp only [taskStep, phase, networked, if_true] at made
      injection made with out
      refine ⟨⟨?_, fun name => ?_⟩, .ended rfl (by simp [Event.caller])⟩
      · rw [← congrArg (fun out => out.1.cache) out]
        cases executed with
        | true => exact (Option.isSome_map ..).trans sound.cached
        | false => exact sound.cached
      · exact sound.closed name
  | exit exiting => cases exiting <;> cases plain
  | _ => cases plain

/-- A buffered request goes through no phase of a stream. -/
theorem Trans.plain {req : Request} {streaming : Bool}
    (step : Trans B ts s i req streaming sh ph a sh' ph' evs) (buffered : streaming = false)
    (plain : ph.streams = false) : ph'.streams = false := by
  cases step with
  | hitStream streamed | enterStreamed _ streamed => cases buffered.symm.trans streamed
  | exit exiting => cases exiting <;> cases plain
  | _ => first | rfl | cases plain

/-- A request asks the cache once. -/
theorem Trans.past {req : Request} {streaming : Bool}
    (step : Trans B ts s i req streaming sh ph a sh' ph' evs) (past : ph.past = true) :
    ph'.past = true := by
  cases step with
  | toLookup routed => cases past
  | _ => rfl

theorem Task.misses_of_past {c : InMemoryCache} {now : ℚ} (past : t.phase.past = true) :
    t.misses c now = none := by
  unfold Task.misses
  split
  · rename_i looking
    rw [looking] at past
    cases past
  · rfl

/-- After a miss the request is on its way to the provider. -/
theorem missed_of_misses {c : InMemoryCache} {key : CacheKey} {f : LedgerFault}
    (cached : sh.cache = some c) (misses : t.misses c sh.mono = some key)
    (made : taskStep B ts s i t sh (.run f) = some (sh', ph', evs)) :
    t.missed ≠ some key ∧ Task.missed { t with phase := ph' } = some key ∧ ph'.calls = 0 := by
  unfold Task.misses at misses
  split at misses
  · rename_i d looking
    split at misses
    · rename_i absent
      simp only [taskStep, looking] at made
      split at made
      · have out := Option.some.inj made
        simp only [lookupCache, cached] at out
        split at out
        · rename_i entry c' got
          rw [got] at absent
          cases absent
        · cases out
          cases misses
          refine ⟨?_, rfl, rfl⟩
          rw [Task.missed, looking]
          intro same
          cases same
      · cases made
    · cases misses
  · cases misses

/-- A key a request has missed after a step it had missed before, or misses in the step. -/
theorem CalmMove.missed_of {key : CacheKey} (move : CalmMove i t sh a ph' evs)
    (missed : Task.missed { t with phase := ph' } = some key) :
    t.missed = some key ∨
      ∃ f c, a = .run f ∧ sh.cache = some c ∧ t.misses c sh.mono = some key := by
  cases move with
  | kept same _ _ => exact .inl (same.symm.trans missed)
  | ended none _ => cases none.symm.trans missed
  | missed runs cached misses after _ _ =>
      exact .inr ⟨_, _, runs, cached, misses.trans (after.symm.trans missed)⟩
  | called before after _ =>
      left
      rw [← missed, Task.missed, before]
      simp only [Task.missed, after]

end Steps

/-! ### Whole runs -/

section Runs

variable {σ : Type} {B : LedgerBackend σ} {ts : TextSupport} {s : Settings} {w w' w₀ : World σ}
  {key : CacheKey} {i : ℕ} {t : Task} {ok : World σ → WorldAct → Prop}

/-- One request at a time is between its miss of a key and its end. -/
structure World.Single (w : World σ) : Prop where
  sound : w.shared.Sound
  plain : ∀ (i : ℕ) (t : Task), w.tasks[i]? = some t → t.streaming = false ∧ t.phase.streams = false
  single : ∀ (i j : ℕ) (t u : Task) (key : CacheKey), w.tasks[i]? = some t → w.tasks[j]? = some u →
    t.missed = some key → u.missed = some key → i = j

theorem World.Single.step (single : w.Single) {a : WorldAct} (calm : w.Calm a)
    (stepped : World.step B ts s w a = some w') : w'.Single := by
  obtain ⟨sound, plain, single⟩ := single
  obtain ⟨unfailing, spaced⟩ := calm
  cases a with
  | submit request streaming =>
      cases stepped
      have buffered : streaming = false := by simpa [WorldAct.unfailing] using unfailing
      have new : ∀ {j : ℕ} {u : Task},
          (w.tasks ++ [{ request, streaming, phase := .arrived }])[j]? = some u →
            u.missed.isSome = true → w.tasks[j]? = some u := by
        intro j u found missed
        rcases Pool.get_spawn found with old | ⟨-, rfl⟩
        · exact old
        · cases missed
      refine ⟨sound, ?_, ?_⟩
      · intro j u found
        rcases Pool.get_spawn found with old | ⟨-, rfl⟩
        · exact plain j u old
        · exact ⟨buffered, rfl⟩
      · intro i j t u key here there missed missed'
        exact single i j t u key (new here (missed ▸ rfl)) (new there (missed' ▸ rfl)) missed missed'
  | clock now mono =>
      cases stepped
      exact ⟨⟨sound.cached, sound.closed⟩, plain, single⟩
  | scale later =>
      cases worldTrans_of_step stepped with
      | scale _ => exact ⟨⟨sound.cached, sound.closed⟩, plain, single⟩
  | task i a =>
      obtain ⟨t, sh, ph, evs, here, made, rfl⟩ := task_of_step stepped
      obtain ⟨buffered, clear⟩ := plain i t here
      obtain ⟨sound', move⟩ := calmMove_of_taskStep sound buffered clear unfailing made
      have other : ∀ {j : ℕ} {u : Task} {key : CacheKey}, j ≠ i → w.tasks[j]? = some u →
          u.missed = some key → Task.missed { t with phase := ph } ≠ some key := by
        intro j u key ne there missed mine
        rcases move.missed_of mine with before | ⟨f, c, rfl, cached, misses⟩
        · exact ne (single j i u t key there here missed before)
        · have asks : w.misses (.task i (.run f)) = some key := by
            simp [World.misses, here, cached, misses]
          exact spaced key asks u (List.mem_of_getElem? there) missed
      refine ⟨sound', ?_, ?_⟩
      · intro j u found
        rcases Pool.get_set found with ⟨rfl, rfl⟩ | ⟨-, old⟩
        · exact ⟨buffered, (trans_of_taskStep made).plain buffered clear⟩
        · exact plain j u old
      · intro j k u v key found found' missed missed'
        rcases Pool.get_set found with ⟨rfl, rfl⟩ | ⟨ne, old⟩
        · rcases Pool.get_set found' with ⟨rfl, rfl⟩ | ⟨ne', old'⟩
          · rfl
          · cases other ne' old' missed' missed
        · rcases Pool.get_set found' with ⟨rfl, rfl⟩ | ⟨ne', old'⟩
          · cases other ne old missed missed'
          · exact single j k u v key old old' missed missed'

theorem single_of_reaches {ledger : σ} (cacheOn : s.cacheEnabled = true)
    (reached : Reaches (World.step B ts s) World.Calm (World.start s ledger) w) : w.Single := by
  apply reached.invariant (I := World.Single)
  · refine ⟨⟨?_, fun _ => rfl⟩, ?_, ?_⟩
    · rw [World.start, cacheOn]
      rfl
    · intro i t here
      cases here
    · intro i j t u key here
      cases here
  · exact fun _ _ _ single calm stepped => single.step calm stepped

/-- A step leaves the requests as they are. -/
theorem requests_of_step {a : WorldAct} (stepped : World.step B ts s w a = some w') {j : ℕ}
    (inside : j < w.tasks.length) :
    w'.tasks[j]?.map (·.request) = w.tasks[j]?.map (·.request) := by
  cases worldTrans_of_step stepped with
  | submit => rw [List.getElem?_append_left inside]
  | clock | scale _ => rfl
  | task here step =>
      rename_i i a t sh ph evs
      rcases eq_or_ne j i with rfl | ne
      · rw [Pool.get_set_self here, here]
        rfl
      · rw [List.getElem?_set_ne ne.symm]

/-- A step adds the calls it records. -/
theorem calls_of_step (fresh : w₀.Fresh) (before : Reaches (World.step B ts s) ok w₀ w)
    {a : WorldAct} (stepped : World.step B ts s w a = some w') {evs : List Event}
    (log : w'.log = w.log ++ evs) (key : CacheKey) :
    w'.calls s key = w.calls s key + evs.countP (w'.callsFor s key) := by
  have old : w.log.countP (w'.callsFor s key) = w.log.countP (w.callsFor s key) := by
    apply List.countP_congr
    intro e mem
    cases e with
    | invoked j model asked b now =>
        have inside : j < w.tasks.length := by
          by_contra late
          have mine : .invoked j model asked b now ∈ history j w.log := mem_history.mpr ⟨mem, rfl⟩
          rw [history_of_new fresh before j (Nat.le_of_not_lt late)] at mine
          cases mine
        simp only [World.callsFor, requests_of_step stepped inside]
    | _ => rfl
  rw [World.calls, log, List.countP_append, old, World.calls]

theorem countP_callsFor_eq_zero {evs : List Event} (silent : ∀ e ∈ evs, e.caller = none) :
    evs.countP (w.callsFor s key) = 0 := by
  apply List.countP_eq_zero.mpr
  intro e mem
  cases e with
  | invoked j model asked b now => cases silent _ mem
  | _ => simp [World.callsFor]

/-- The call of an attempt is one for the key the request has missed. -/
theorem callsFor_of_attempting (fresh : w₀.Fresh) (before : Reaches (World.step B ts s) ok w₀ w)
    (here : w.tasks[i]? = some t) {r : Reservation} {c : FailoverCall}
    (attempting : t.phase = .attempting r c) {asked : Option Bool} {b : CircuitBreaker} {now : ℚ}
    (same : w'.tasks[i]?.map (·.request) = w.tasks[i]?.map (·.request)) :
    w'.callsFor s key (.invoked i c.target asked b now) = decide (t.missed = some key) := by
  have terms := onTerms_of_reaches fresh before here
  rw [attempting] at terms
  have keyed : t.missed = some
      { model := c.target, prompt := t.request.prompt,
        maxOutputTokens := t.request.routing.projectedOutput s } := by
    rw [← terms.2.output, Task.missed, attempting]
    rfl
  simp only [World.callsFor, same, here, Option.map_some, Option.any_some, keyed,
    Option.some.injEq]

/-- A step calls the provider for no key, or once for the one its request has missed. -/
theorem calls_of_move (fresh : w₀.Fresh) (before : Reaches (World.step B ts s) ok w₀ w)
    (here : w.tasks[i]? = some t) {sh : Shared σ} {a : TaskAct} {ph : Phase} {evs : List Event}
    (same : w'.tasks[i]?.map (·.request) = w.tasks[i]?.map (·.request))
    (move : CalmMove i t sh a ph evs) (key : CacheKey) :
    (t.missed = some key → Task.missed { t with phase := ph } = some key →
      evs.countP (w'.callsFor s key) + t.phase.calls = ph.calls) ∧
    (t.missed ≠ some key → evs.countP (w'.callsFor s key) = 0) := by
  cases move with
  | kept missed calls silent =>
      rw [countP_callsFor_eq_zero silent, calls]
      exact ⟨fun _ _ => Nat.zero_add _, fun _ => rfl⟩
  | ended missed silent =>
      rw [countP_callsFor_eq_zero silent]
      refine ⟨fun _ mine => ?_, fun _ => rfl⟩
      cases missed.symm.trans mine
  | missed runs cached misses missed calls silent =>
      rw [countP_callsFor_eq_zero silent]
      refine ⟨fun mine _ => ?_, fun _ => rfl⟩
      unfold Task.misses at misses
      split at misses
      · rename_i looking
        rw [Task.missed, looking] at mine
        cases mine
      · cases misses
  | called attempting generating call =>
      rw [call, List.countP_singleton, callsFor_of_attempting fresh before here attempting same,
        attempting, generating]
      constructor
      · intro mine _
        rw [if_pos (decide_eq_true mine)]
        rfl
      · intro other
        rw [if_neg (by simpa using other)]

/-- From its miss to its end the request's own call is the only one for the key. -/
theorem calls_from_miss {ledger : σ} (cacheOn : s.cacheEnabled = true)
    (reached : Reaches (World.step B ts s) World.Calm (World.start s ledger) w)
    (here : w.tasks[i]? = some t) (missed : t.missed = some key)
    (later : Reaches (World.step B ts s) World.Calm w w') :
    ∃ t', w'.tasks[i]? = some t' ∧ t'.phase.past = true ∧
      (t'.missed = some key →
        w'.calls s key + t.phase.calls = w.calls s key + t'.phase.calls) := by
  apply later.invariant_of (I := fun w' => ∃ t', w'.tasks[i]? = some t' ∧ t'.phase.past = true ∧
    (t'.missed = some key → w'.calls s key + t.phase.calls = w.calls s key + t'.phase.calls))
  · refine ⟨t, here, ?_, fun _ => rfl⟩
    cases phase : t.phase with
    | arrived | lookup d =>
        rw [Task.missed, phase] at missed
        cases missed
    | _ => rfl
  · rintro w₁ a w₂ before ⟨t₁, there, past, counted⟩ calm stepped
    have whole := reached.trans before
    have single := single_of_reaches cacheOn whole
    cases a with
    | submit request streaming =>
        have log : w₂.log = w₁.log ++ [] := by
          rw [List.append_nil, ← Option.some.inj stepped]
        have grown := calls_of_step ⟨rfl, rfl⟩ whole stepped log key
        cases stepped
        refine ⟨t₁, Pool.get_old there _, past, fun mine => ?_⟩
        rw [grown]
        exact counted mine
    | clock now mono =>
        cases stepped
        exact ⟨t₁, there, past, counted⟩
    | scale later =>
        cases stepped
        exact ⟨t₁, there, past, counted⟩
    | task j a =>
        obtain ⟨u, sh, ph, evs, mover, made, rfl⟩ := task_of_step stepped
        have same := requests_of_step stepped (List.getElem?_eq_some_iff.mp mover).1
        have grown := calls_of_step ⟨rfl, rfl⟩ whole stepped rfl key
        obtain ⟨buffered, plain⟩ := single.plain j u mover
        obtain ⟨-, move⟩ := calmMove_of_taskStep single.sound buffered plain calm.1 made
        obtain ⟨own, others⟩ := calls_of_move ⟨rfl, rfl⟩ whole mover same move key
        rcases eq_or_ne j i with rfl | ne
        · cases mover.symm.trans there
          refine ⟨_, Pool.get_set_self there _, (trans_of_taskStep made).past past, fun mine => ?_⟩
          rcases move.missed_of mine with before | ⟨f, c, -, -, misses⟩
          · have called := own before mine
            have so_far := counted before
            simp only at called ⊢
            omega
          · cases (Task.misses_of_past past).symm.trans misses
        · refine ⟨t₁, (List.getElem?_set_ne ne).trans there, past, fun mine => ?_⟩
          have silent := others fun mine' => ne (single.single j i u t₁ key mover there mine' mine)
          have so_far := counted mine
          omega

/-- As long as no request misses a key that another has missed and not come to its end with, there
is one generation for a key at a time: two requests between their miss of a key and their end are
the same, and from a miss to that request's end its own call is the only one for the key. -/
theorem one_generation_per_miss (B : LedgerBackend σ) (ts : TextSupport) (s : Settings) (ledger : σ)
    (cacheOn : s.cacheEnabled = true)
    (reached : Reaches (World.step B ts s) World.Calm (World.start s ledger) w) :
    (∀ (i j : ℕ) (t u : Task) (key : CacheKey), w.tasks[i]? = some t → w.tasks[j]? = some u →
      t.missed = some key → u.missed = some key → i = j) ∧
    ∀ (i : ℕ) (f : LedgerFault) (key : CacheKey) (w₁ w₂ : World σ) (t : Task),
      w.misses (.task i (.run f)) = some key → w.Spaced (.task i (.run f)) →
      World.step B ts s w (.task i (.run f)) = some w₁ →
      Reaches (World.step B ts s) World.Calm w₁ w₂ → w₂.tasks[i]? = some t →
      t.missed = some key → w₂.calls s key = w.calls s key + t.phase.calls := by
  have single := single_of_reaches cacheOn reached
  refine ⟨single.single, ?_⟩
  intro i f key w₁ w₂ t misses spaced stepped later there missed
  have calm : w.Calm (.task i (.run f)) := ⟨rfl, spaced⟩
  obtain ⟨u, sh, ph, evs, here, made, rfl⟩ := task_of_step stepped
  obtain ⟨buffered, plain⟩ := single.plain i u here
  obtain ⟨-, move⟩ := calmMove_of_taskStep single.sound buffered plain rfl made
  have same := requests_of_step stepped (List.getElem?_eq_some_iff.mp here).1
  have grown := calls_of_step ⟨rfl, rfl⟩ reached stepped rfl key
  obtain ⟨-, others⟩ := calls_of_move ⟨rfl, rfl⟩ reached here same move key
  simp only [World.misses, here, Option.bind_some, Option.bind_eq_some_iff] at misses
  obtain ⟨c, cached, misses⟩ := misses
  obtain ⟨before, after, uncalled⟩ := missed_of_misses cached misses made
  have none := others before
  obtain ⟨t', there', -, counted⟩ := calls_from_miss cacheOn (reached.tail calm stepped)
    (Pool.get_set_self here _) after later
  cases there'.symm.trans there
  have total := counted missed
  simp only [uncalled] at total
  omega

end Runs

/-! ### Two requests for one prompt -/

/-- Room for two requests at the gate. -/
def twoSlotsCached : Settings := { oneSlotCached with targetConcurrencyPerReplica := 2 }

/-- Two requests ask for one prompt and both are at the cache. -/
def bothLookActs : List WorldAct :=
  [.submit { prompt := "hi", userId := "u" } false, .submit { prompt := "hi", userId := "v" } false,
    .task 0 (.run .none), .task 1 (.run .none)]

/-- Both miss, are admitted, and call the provider. -/
def stampedeActs : List WorldAct :=
  bothLookActs ++
    [.task 0 (.run .none), .task 1 (.run .none), .task 0 (.run .none), .task 1 (.run .none),
      .task 0 (.run .none), .task 1 (.run .none), .task 0 (.run .none), .task 1 (.run .none)]

/-- The key both go by. -/
def hiKey : CacheKey := { model := "small", prompt := "hi", maxOutputTokens := 384 }

/-- Two generations for one key are in flight. -/
theorem two_generations_per_miss :
    ∃ w t u, Reaches (World.step Ledger.backend .ascii twoSlotsCached)
        (fun _ a => a.unfailing = true) (World.start twoSlotsCached {}) w ∧
      w.tasks[0]? = some t ∧ w.tasks[1]? = some u ∧
      t.phase.generates = true ∧ u.phase.generates = true ∧
      t.missed = some hiKey ∧ u.missed = some hiKey ∧ w.calls twoSlotsCached hiKey = 2 := by
  have holds : execHolds (World.step Ledger.backend .ascii twoSlotsCached)
      (fun _ a => a.unfailing = true) (World.start twoSlotsCached {}) stampedeActs (fun w =>
        w.tasks[0]?.any fun t => w.tasks[1]?.any fun u =>
          decide (t.phase.generates = true ∧ u.phase.generates = true ∧ t.missed = some hiKey ∧
            u.missed = some hiKey ∧ w.calls twoSlotsCached hiKey = 2)) = true := by
    decide +kernel
  obtain ⟨w, reached, good⟩ := exists_reaches_of_execHolds _ _ holds
  obtain ⟨t, here, rest⟩ := (Option.any_eq_true ..).mp good
  obtain ⟨u, there, both⟩ := (Option.any_eq_true ..).mp rest
  exact ⟨w, t, u, reached, here, there, of_decide_eq_true both⟩

/-- The second waits with its lookup: the first makes the only call. -/
theorem one_generation_per_miss_first :
    ∃ w w' t, Reaches (World.step Ledger.backend .ascii twoSlotsCached) World.Calm w w' ∧
      w'.tasks[0]? = some t ∧ t.phase.generates = true ∧
      w'.calls twoSlotsCached hiKey = w.calls twoSlotsCached hiKey + 1 := by
  have looks : execHolds (World.step Ledger.backend .ascii twoSlotsCached) World.Calm
      (World.start twoSlotsCached {}) bothLookActs (fun w =>
        decide (w.misses (.task 0 (.run .none)) = some hiKey ∧ w.Spaced (.task 0 (.run .none))) &&
        (World.step Ledger.backend .ascii twoSlotsCached w (.task 0 (.run .none))).any fun w₁ =>
          execHolds (World.step Ledger.backend .ascii twoSlotsCached) World.Calm w₁
            [.task 0 (.run .none), .task 0 (.run .none), .task 0 (.run .none)] fun w₂ =>
              w₂.tasks[0]?.any fun t =>
                decide (t.phase.generates = true ∧ t.missed = some hiKey ∧ t.phase.calls = 1)) =
      true := by
    decide +kernel
  obtain ⟨w, reached, good⟩ := exists_reaches_of_execHolds _ _ looks
  obtain ⟨miss, rest⟩ := Bool.and_eq_true_iff.mp good
  obtain ⟨misses, spaced⟩ := of_decide_eq_true miss
  obtain ⟨w₁, stepped, rest⟩ := (Option.any_eq_true ..).mp rest
  obtain ⟨w₂, later, rest⟩ := exists_reaches_of_execHolds _ _ rest
  obtain ⟨t, there, rest⟩ := (Option.any_eq_true ..).mp rest
  obtain ⟨generates, missed, once⟩ := of_decide_eq_true rest
  have counted := (one_generation_per_miss Ledger.backend .ascii twoSlotsCached {} rfl reached).2
    0 .none hiKey w₁ w₂ t misses spaced stepped later there missed
  rw [once] at counted
  exact ⟨w, w₂, t, (Reaches.refl.tail ⟨rfl, spaced⟩ stepped).trans later, there, generates, counted⟩

end LLMInference
