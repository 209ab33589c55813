import LLMInference.Cost.Memory
import LLMInference.Service.History

/-!
Where a cached answer comes from (`app/service.py`, `app/cache.py`).

Two paths write the cache: `handle` after its settle, and the finalizer of a stream. Both write
under the decision that served, and only what was generated to its end.

* `Generated`: how a request comes by a whole text.
* `Phase.Narrated`: what its history says about the answer a request is making.
* `cacheMove_of_taskStep`: what a step can do to the cache.
* `Stored`: an entry is the answer of a request that stored it.
* `honest_provenance`: what is served from the cache, and at what cost.
-/

namespace LLMInference

open Runs

/-- The events of a stream, in order. -/
def emissions (h : List Event) : List StreamEvent :=
  h.filterMap fun
    | .emitted _ e => some e
    | _ => none

/-- The events of a stream that ran to its end. -/
def wholeStream (d : RoutingDecision) (pieces : List String) (u : Usage) : List StreamEvent :=
  startEvent d :: pieces.map .delta ++ [endEvent d u]

/-- The provider was called for request `i`, with the decision's model. -/
def Invoked (i : ℕ) (d : RoutingDecision) (h : List Event) : Prop :=
  ∃ asked breaker now, .invoked i d.model.name asked breaker now ∈ h

/-- Request `i` generated a text to its end under the decision: the provider returned it, or all of
it was delivered. -/
inductive Generated (i : ℕ) (d : RoutingDecision) (h : List Event) : String → Usage → Prop
  | buffered {k : Completion} (returned : .generated i d k ∈ h) : Generated i d h k.text k.usage
  | streamed {pieces : List String} {u : Usage} (delivered : emissions h = wholeStream d pieces u) :
      Generated i d h (String.join pieces) u

/-- What its history says about the answer request `i` is making. -/
def Phase.Narrated (ts : TextSupport) (s : Settings) (i : ℕ) (h : List Event) : Phase → Prop
  | .arrived | .lookup _ => h = []
  | .reserving _ | .granted .. | .queued .. => emissions h = []
  | .generating _ c => Invoked i c.current h
  | .settling _ d k | .caching _ d k => Invoked i d h ∧ .generated i d k ∈ h
  | .yielded st .start =>
      st.completed = false ∧ st.pieces = [] ∧ emissions h = [startEvent st.decision]
  | .yielded st .delta | .pulling st =>
      st.completed = false ∧ Invoked i st.decision h ∧
        emissions h = startEvent st.decision :: st.pieces.map .delta
  | .yielded st .end =>
      Invoked i st.decision h ∧
        emissions h = wholeStream st.decision st.pieces (st.finalUsage ts s)
  | .yielded st (.error _) => st.completed = false
  | .finalizing fin _ | .storing fin _ =>
      ∀ text, fin.text = some text →
        Invoked i fin.decision h ∧ Generated i fin.decision h text fin.usage
  | _ => True

section History

variable {i : ℕ} {d : RoutingDecision} {h evs : List Event}

theorem emissions_append (h evs : List Event) :
    emissions (h ++ evs) = emissions h ++ emissions evs :=
  List.filterMap_append ..

/-- No event of a stream. -/
theorem emissions_eq_nil (silent : ∀ j e, .emitted j e ∉ evs) : emissions (history i evs) = [] := by
  apply List.filterMap_eq_nil_iff.mpr
  intro e mem
  have here := (mem_history.mp mem).1
  cases e with
  | emitted j e => exact absurd here (silent j e)
  | _ => rfl

theorem emissions_emitted (e : StreamEvent) : emissions (history i [.emitted i e]) = [e] := by
  simp [history, Event.request, emissions]

theorem silent_settleEvents {r : Reservation} {c : Charge} {now : ℚ} {f : LedgerFault} (j : ℕ)
    (e : StreamEvent) : .emitted j e ∉ settleEvents i r c now f := by
  unfold settleEvents
  split <;> simp

theorem Invoked.append (invoked : Invoked i d h) : Invoked i d (h ++ evs) := by
  obtain ⟨asked, breaker, now, mem⟩ := invoked
  exact ⟨asked, breaker, now, List.mem_append_left _ mem⟩

theorem Generated.append {text : String} {u : Usage} (generated : Generated i d h text u)
    (silent : ∀ j e, .emitted j e ∉ evs) : Generated i d (h ++ history i evs) text u := by
  cases generated with
  | buffered returned => exact .buffered (List.mem_append_left _ returned)
  | streamed delivered =>
      apply Generated.streamed
      rw [emissions_append, emissions_eq_nil silent, List.append_nil, delivered]

end History

section Steps

variable {σ : Type} {B : LedgerBackend σ} {ts : TextSupport} {s : Settings} {i : ℕ}
  {sh sh' : Shared σ} {h evs : List Event}

/-- The finalizer gets a text only from a stream that ran to its end. -/
theorem narrated_exit {st : StreamState} {ph : Phase} {a : TaskAct} {x : Exit}
    (exiting : Exiting st ph a x) (narrated : ph.Narrated ts s i h) :
    Phase.Narrated ts s i h (.finalizing (st.finalize ts s) x) := by
  intro text kept
  have whole : st.completed = true ∧ text = String.join st.pieces := by
    cases done : st.completed with
    | false => simp [StreamState.finalize, done] at kept
    | true =>
        simp only [StreamState.finalize, done, if_true, Option.some.injEq] at kept
        exact ⟨rfl, kept.symm⟩
  obtain ⟨completed, rfl⟩ := whole
  have closing : ∀ {st : StreamState} {y : YieldPoint}, st.completed = true →
      Phase.Narrated ts s i h (.yielded st y) →
      Invoked i st.decision h ∧
        Generated i st.decision h (String.join st.pieces) (st.finalUsage ts s) := by
    intro st y completed narrated
    cases y with
    | «end» => exact ⟨narrated.1, .streamed narrated.2⟩
    | start | delta => cases narrated.1.symm.trans completed
    | error f => cases Eq.trans (Eq.symm narrated) completed
  cases exiting with
  | streamed | failed | closed => exact closing completed narrated
  | cancelled => cases narrated.1.symm.trans completed

/-- A request's steps tell its history what they say. -/
theorem Trans.narrated {req : Request} {streaming : Bool} {ph ph' : Phase} {a : TaskAct}
    (step : Trans B ts s i req streaming sh ph a sh' ph' evs) (narrated : ph.Narrated ts s i h) :
    ph'.Narrated ts s i (h ++ history i evs) := by
  cases step with
  | toLookup routed => exact List.append_eq_nil_iff.mpr ⟨narrated, rfl⟩
  | toReserve routed | miss same =>
      cases narrated
      rfl
  | granted admits reserved =>
      show emissions _ = []
      rw [emissions_append, narrated, emissions_eq_nil]
      · rfl
      · intro j e
        split <;> simp
  | enterBuffered entering buffered => exact trivial
  | enterStreamed entering streamed =>
      have before : emissions h = [] := by
        cases entering with
        | atOnce _ | woken _ _ => exact narrated
      refine ⟨rfl, rfl, ?_⟩
      rw [emissions_append, before]
      simp [history, Event.request, emissions]
  | park full | repark full =>
      show emissions _ = []
      rw [emissions_append, narrated]
      rfl
  | allowed yes =>
      exact ⟨_, _, _, List.mem_append_right _ (mem_history.mpr ⟨List.mem_cons_self, rfl⟩)⟩
  | completed =>
      exact ⟨Invoked.append narrated,
        List.mem_append_right _ (mem_history.mpr ⟨List.mem_cons_self, rfl⟩)⟩
  | settleCache admits bill =>
      exact ⟨narrated.1.append, List.mem_append_left _ narrated.2⟩
  | begin =>
      obtain ⟨completed, empty, told⟩ := narrated
      refine ⟨completed, ?_, ?_⟩
      · exact ⟨_, _, _, List.mem_append_right _ (mem_history.mpr ⟨List.mem_cons_self, rfl⟩)⟩
      · rw [emissions_append, told, empty, emissions_eq_nil (by simp)]
        rfl
  | resume =>
      rw [history_nil, List.append_nil]
      exact narrated
  | chunkText text =>
      obtain ⟨completed, invoked, told⟩ := narrated
      refine ⟨completed, invoked.append, ?_⟩
      rw [emissions_append, told, emissions_emitted, StreamState.receive, if_neg text,
        List.map_append]
      rfl
  | chunkEmpty text =>
      obtain ⟨completed, invoked, told⟩ := narrated
      refine ⟨completed, invoked.append, ?_⟩
      rw [emissions_append, told, StreamState.receive, if_pos text]
      exact List.append_nil _
  | exhausted =>
      obtain ⟨-, invoked, told⟩ := narrated
      refine ⟨invoked.append, ?_⟩
      rw [emissions_append, told, emissions_emitted]
      rfl
  | streamFault fault | streamOther other => exact narrated.1
  | exit exiting =>
      rw [history_nil, List.append_nil]
      exact narrated_exit exiting narrated
  | finalizeStore admits bill =>
      intro text kept
      obtain ⟨invoked, generated⟩ := narrated text kept
      exact ⟨invoked.append, generated.append silent_settleEvents⟩
  | _ => exact trivial

theorem narrated_of_reaches {ok : World σ → WorldAct → Prop} {w₀ w : World σ} (fresh : w₀.Fresh)
    (reached : Reaches (World.step B ts s) ok w₀ w) :
    ∀ (i : ℕ) (t : Task), w.tasks[i]? = some t →
      t.phase.Narrated ts s i (history i w.log) := by
  apply each_history (Q := fun i t h => t.phase.Narrated ts s i h) fresh reached
  · exact fun _ _ _ => rfl
  · exact fun _ _ _ _ _ _ _ _ _ _ step narrated => step.narrated narrated

end Steps

/-! ### The cache -/

/-- The arguments of the `_cache_store` a request is in. -/
def Task.storing (t : Task) : Option (RoutingDecision × String × Usage) :=
  match t.phase with
  | .caching _ served k => some (served, k.text, k.usage)
  | .storing fin _ => some (fin.decision, fin.text.getD "", fin.usage)
  | _ => none

section Cache

variable {σ : Type} {B : LedgerBackend σ} {ts : TextSupport} {s : Settings} {i : ℕ} {t : Task}
  {sh sh' : Shared σ} {a : TaskAct} {ph' : Phase} {evs : List Event} {w w' start : World σ}
  {d : RoutingDecision}

/-- What a step of a request can do to the cache. -/
inductive CacheMove (s : Settings) (t : Task) (sh : Shared σ) : Option InMemoryCache → Prop
  | same : CacheMove s t sh sh.cache
  | looked (key : CacheKey) : CacheMove s t sh (sh.cache.map fun c => (c.get key sh.mono).2)
  | stored {d : RoutingDecision} {text : String} {u : Usage} (args : t.storing = some (d, text, u)) :
      CacheMove s t sh (sh.store s d t.request.prompt text u).cache

theorem cacheMove_of_lookup (looking : t.phase = .lookup d)
    (made : taskStep B ts s i t sh a = some (sh', ph', evs)) : CacheMove s t sh sh'.cache := by
  cases a with
  | run f =>
      simp only [taskStep, looking] at made
      split at made
      · have same := congrArg (fun out => out.1.cache) (Option.some.inj made)
        rw [← same, cache_lookupCache]
        exact .looked _
      · cases made
  | cancel executed =>
      simp only [taskStep, looking] at made
      split at made
      · cases made
        exact .same
      · cases made
  | _ => simp [taskStep, looking] at made

theorem cacheMove_of_caching {r : Reservation} {k : Completion} (caching : t.phase = .caching r d k)
    (made : taskStep B ts s i t sh a = some (sh', ph', evs)) : CacheMove s t sh sh'.cache := by
  have args : t.storing = some (d, k.text, k.usage) := by rw [Task.storing, caching]
  cases a with
  | run f =>
      simp only [taskStep, caching] at made
      split at made
      · cases made
        exact .stored args
      · cases made
  | cancel executed =>
      simp only [taskStep, caching] at made
      split at made
      · cases made
        cases executed with
        | true => exact .stored args
        | false => exact .same
      · cases made
  | _ => simp [taskStep, caching] at made

theorem cacheMove_of_taskStep (made : taskStep B ts s i t sh a = some (sh', ph', evs)) :
    CacheMove s t sh sh'.cache := by
  have step := trans_of_taskStep made
  generalize phase : t.phase = ph at step
  cases step with
  | hit _ | hitStream _ | miss _ => exact cacheMove_of_lookup phase made
  | storeReturn | cancelCaching _ => exact cacheMove_of_caching phase made
  | storeClose => exact .stored (by rw [Task.storing, phase])
  | _ => exact .same

/-- What is stored was generated to its end. -/
theorem generated_of_storing {h : List Event} {text : String} {u : Usage}
    (narrated : t.phase.Narrated ts s i h) (kept : ∀ fin x, t.phase = .storing fin x →
      fin.text.isSome = true) (args : t.storing = some (d, text, u)) :
    Invoked i d h ∧ Generated i d h text u := by
  unfold Task.storing at args
  split at args
  · rename_i phase
    rw [phase] at narrated
    cases args
    exact ⟨narrated.1, .buffered narrated.2⟩
  · rename_i fin x phase
    obtain ⟨text, whole⟩ := Option.isSome_iff_exists.mp (kept fin x phase)
    rw [phase] at narrated
    cases args
    rw [whole]
    exact narrated text whole
  · cases args

theorem kept_of_storing {ok : World σ → WorldAct → Prop} (fresh : start.Fresh)
    (reached : Reaches (World.step B ts s) ok start w) (here : w.tasks[i]? = some t) :
    ∀ fin x, t.phase = .storing fin x → fin.text.isSome = true := by
  refine each_task (Q := fun _ t => ∀ fin x, t.phase = .storing fin x → fin.text.isSome = true)
    fresh reached ?_ ?_ i t here
  · intro i request streaming fin x phase
    cases phase
  · intro sh i t a sh' ph evs made _ fin x phase
    cases phase
    exact text_of_storing made

/-- The entry is what some request generated for the key's prompt, with the key's model and under
its ceiling, and stored at `storedAt`. -/
inductive Stored (B : LedgerBackend σ) (ts : TextSupport) (s : Settings) (start w : World σ)
    (key : CacheKey) (entry : CacheEntry) (storedAt : ℚ) : Prop
  | intro {before after : World σ} {j : ℕ} {u : Task} {a : TaskAct} {served : RoutingDecision}
      (earlier : Reaches (World.step B ts s) Always start before)
      (there : before.tasks[j]? = some u) (prompt : u.request.prompt = key.prompt)
      (model : served.model.name = key.model) (named : entry.model = key.model)
      (ceiling : served.projectedOutputTokens = key.maxOutputTokens)
      (invoked : Invoked j served (history j before.log))
      (generated : Generated j served (history j before.log) entry.text
        { inputTokens := entry.inputTokens, outputTokens := entry.outputTokens })
      (clock : before.shared.mono = storedAt)
      (stores : World.step B ts s before (.task j a) = some after)
      (later : Reaches (World.step B ts s) Always after w)

/-- Every entry was stored, a time to live before it expires. -/
def Sourced (B : LedgerBackend σ) (ts : TextSupport) (s : Settings) (start w : World σ) : Prop :=
  ∀ c, w.shared.cache = some c → ∀ key entry expiresAt, (key, entry, expiresAt) ∈ c.data →
    Stored B ts s start w key entry (expiresAt - s.cacheTtlS)

theorem Stored.step {key : CacheKey} {entry : CacheEntry} {storedAt : ℚ} {a : WorldAct}
    (stored : Stored B ts s start w key entry storedAt) (stepped : World.step B ts s w a = some w') :
    Stored B ts s start w' key entry storedAt := by
  cases stored with
  | intro earlier there prompt model named ceiling invoked generated clock stores later =>
      exact .intro earlier there prompt model named ceiling invoked generated clock stores
        (later.tail trivial stepped)

theorem sourced_of_reaches (fresh : start.Fresh)
    (empty : ∀ c, start.shared.cache = some c → c.data = [])
    (reached : Reaches (World.step B ts s) Always start w) : Sourced B ts s start w := by
  apply reached.invariant_of (I := fun w => Sourced B ts s start w)
  · intro c there key entry expiresAt mem
    rw [empty c there] at mem
    cases mem
  · intro w a w' before sourced allowed stepped
    have same : w'.shared.cache = w.shared.cache → Sourced B ts s start w' := by
      intro same c there key entry expiresAt mem
      exact (sourced c (same.symm.trans there) key entry expiresAt mem).step stepped
    cases a with
    | submit request streaming | clock now mono =>
        cases stepped
        exact same rfl
    | scale later =>
        cases worldTrans_of_step stepped with
        | scale _ => exact same rfl
    | task i a =>
        obtain ⟨t, sh, ph, evs, here, made, rfl⟩ := task_of_step stepped
        have move := cacheMove_of_taskStep made
        intro c there key entry expiresAt mem
        change sh.cache = some c at there
        rw [there] at move
        generalize moved : some c = cache at move
        cases move with
        | same => exact (sourced c moved.symm key entry expiresAt mem).step stepped
        | looked asked =>
            obtain ⟨old, found, rfl⟩ := Option.map_eq_some_iff.mp moved.symm
            have kept := InMemoryCache.mem_get mem
            exact (sourced old found key entry expiresAt kept).step stepped
        | stored args =>
            rename_i d text u
            obtain ⟨old, found, rfl⟩ := Option.map_eq_some_iff.mp moved.symm
            rcases InMemoryCache.mem_set mem with kept | new
            · exact (sourced old found key entry expiresAt kept).step stepped
            · cases new
              have narrated := narrated_of_reaches fresh before i t here
              obtain ⟨invoked, generated⟩ := generated_of_storing narrated
                (kept_of_storing fresh before here) args
              rw [add_sub_cancel_right]
              exact .intro before here rfl rfl rfl rfl invoked generated rfl stepped .refl

/-! ### Serving from the cache -/

/-- The request is served the entry: at once, or as a stream that stands after its first event. -/
inductive ServedFrom (i : ℕ) (t : Task) (d : RoutingDecision) (entry : CacheEntry) :
    Phase → List Event → Prop
  | buffered (buffered : t.streaming = false) :
      ServedFrom i t d entry (.done (.result (cachedResult d entry)))
        [.returned i (cachedResult d entry)]
  | streamed {first : StreamEvent} {rest : List StreamEvent} (streamed : t.streaming = true)
      (events : replayCached d entry = first :: rest) :
      ServedFrom i t d entry (.replaying rest) [.emitted i first]

/-- All that happened to the request so far is that it was told the entry, or a part of it. -/
structure ToldOnly (i : ℕ) (d : RoutingDecision) (entry : CacheEntry) (h : List Event) : Prop where
  only : ∀ e ∈ h, (∃ x, e = .emitted i x) ∨ e = .returned i (cachedResult d entry)
  part : emissions h <+: replayCached d entry

/-- The rest of the entry is still to be told, or the request is over. -/
def Replaying (i : ℕ) (d : RoutingDecision) (entry : CacheEntry) (t : Task) (h : List Event) :
    Prop :=
  (∀ e ∈ h, (∃ x, e = .emitted i x) ∨ e = .returned i (cachedResult d entry)) ∧
    ∃ rest, (t.phase = .replaying rest ∨ t.phase.gone = true) ∧
      emissions h ++ rest = replayCached d entry

variable {entry : CacheEntry} {h : List Event}

theorem Replaying.toldOnly (replaying : Replaying i d entry t h) : ToldOnly i d entry h := by
  obtain ⟨only, rest, -, told⟩ := replaying
  exact ⟨only, rest, told⟩

theorem ServedFrom.replaying {ph : Phase} (served : ServedFrom i t d entry ph evs) :
    Replaying i d entry { t with phase := ph } (history i evs) := by
  cases served with
  | buffered buffered =>
      refine ⟨?_, replayCached d entry, .inr rfl, ?_⟩
      · intro e mem
        exact .inr (List.mem_singleton.mp (mem_history.mp mem).1)
      · rw [emissions_eq_nil (by simp), List.nil_append]
  | streamed streamed events =>
      refine ⟨?_, _, .inl rfl, ?_⟩
      · intro e mem
        exact .inl ⟨_, List.mem_singleton.mp (mem_history.mp mem).1⟩
      · rw [emissions_emitted, events]
        rfl

/-- The steps of a request that is served from the cache touch nothing that is shared. -/
theorem Replaying.next (replaying : Replaying i d entry t h)
    (made : taskStep B ts s i t sh a = some (sh', ph', evs)) :
    sh' = sh ∧ Replaying i d entry { t with phase := ph' } (h ++ history i evs) := by
  obtain ⟨only, rest, phase | gone, told⟩ := replaying
  · have step := trans_of_taskStep made
    rw [phase] at step
    cases step with
    | replay =>
        refine ⟨rfl, ?_, _, .inl rfl, ?_⟩
        · intro e mem
          rcases List.mem_append.mp mem with old | new
          · exact only e old
          · exact .inl ⟨_, List.mem_singleton.mp (mem_history.mp new).1⟩
        · rw [emissions_append, emissions_emitted, List.append_assoc]
          exact told
    | quit quiet =>
        refine ⟨rfl, ?_, rest, .inr rfl, ?_⟩
        · rw [history_nil, List.append_nil]
          exact only
        · rw [history_nil, List.append_nil]
          exact told
    | enterBuffered entering _ | enterStreamed entering _ => cases entering
    | exit exiting => cases exiting
  · cases (trans_of_taskStep made).running.symm.trans gone

/-- A lookup that does not lead to the reservation found an entry. -/
theorem servedFrom_of_lookup {f : LedgerFault} (looking : t.phase = .lookup d)
    (made : taskStep B ts s i t sh (.run f) = some (sh', ph', evs)) (hit : ph' ≠ .reserving d) :
    ∃ c entry, sh.cache = some c ∧ (c.get (cacheKey d t.request.prompt) sh.mono).1 = some entry ∧
      ServedFrom i t d entry ph' evs ∧ sh'.ledger = sh.ledger ∧ sh'.gate = sh.gate ∧
      sh'.breakers = sh.breakers := by
  simp only [taskStep, looking] at made
  split at made
  · have out := Option.some.inj made
    unfold lookupCache at out
    split at out
    · cases out
      cases hit rfl
    · rename_i c there
      split at out
      · rename_i entry c' got
        refine ⟨c, entry, there, congrArg Prod.fst got, ?_⟩
        split at out
        · rename_i streamed
          cases out
          exact ⟨.streamed streamed rfl, rfl, rfl, rfl⟩
        · rename_i buffered
          cases out
          exact ⟨.buffered (Bool.eq_false_of_not_eq_true buffered), rfl, rfl, rfl⟩
      · cases out
        cases hit rfl
  · cases made

/-- A request that is served from the cache is told exactly what an earlier request generated to
its end for the same prompt, with the same model and under the same ceiling, and stored less than
the time to live ago. Serving it, from the lookup to its last event, leaves the ledger, the gate
and the providers' breakers alone and calls no provider. -/
theorem honest_provenance (B : LedgerBackend σ) (ts : TextSupport) (s : Settings) (ledger : σ)
    {f : LedgerFault} {u : Task}
    (reached : Reaches (World.step B ts s) Always (World.start s ledger) w)
    (here : w.tasks[i]? = some t) (looking : t.phase = .lookup d)
    (stepped : World.step B ts s w (.task i (.run f)) = some w')
    (after : w'.tasks[i]? = some u) (hit : u.phase ≠ .reserving d) :
    ∃ entry storedAt evs,
      w'.log = w.log ++ evs ∧ ServedFrom i t d entry u.phase evs ∧
      Stored B ts s (World.start s ledger) w (cacheKey d t.request.prompt) entry storedAt ∧
      w.shared.mono - storedAt < s.cacheTtlS ∧
      w'.shared.ledger = w.shared.ledger ∧ w'.shared.gate = w.shared.gate ∧
      w'.shared.breakers = w.shared.breakers ∧
      ∀ w₁, Reaches (World.step B ts s) Always w' w₁ →
        ToldOnly i d entry (history i w₁.log) ∧
        ∀ a w₂, World.step B ts s w₁ (.task i a) = some w₂ → w₂.shared = w₁.shared := by
  have silent : history i w.log = [] := by
    have narrated := narrated_of_reaches ⟨rfl, rfl⟩ reached i t here
    rw [looking] at narrated
    exact narrated
  have sourced : Sourced B ts s (World.start s ledger) w := by
    apply sourced_of_reaches ⟨rfl, rfl⟩ _ reached
    intro c there
    simp only [World.start] at there
    split at there
    · cases there
      rfl
    · cases there
  obtain ⟨t', sh, ph, evs, there, made, rfl⟩ := task_of_step stepped
  cases there.symm.trans here
  cases (Pool.get_set_self here _).symm.trans after
  obtain ⟨c, entry, cached, got, served, ledger', gate, breakers⟩ :=
    servedFrom_of_lookup looking made hit
  obtain ⟨expiresAt, mem, alive⟩ := InMemoryCache.get_some got
  refine ⟨entry, expiresAt - s.cacheTtlS, evs, rfl, served, sourced c cached _ _ _ mem, ?_, ledger',
    gate, breakers, ?_⟩
  · linarith
  · intro w₁ later
    have start : Replaying i d entry { t with phase := ph } (history i (w.log ++ evs)) := by
      rw [history_append, silent, List.nil_append]
      exact served.replaying
    obtain ⟨u, there, replaying⟩ := follow (Q := Replaying i d entry) after later start
      fun _ _ _ _ _ _ _ _ _ made replaying => (replaying.next made).2
    refine ⟨replaying.toldOnly, ?_⟩
    intro a w₂ stepped
    obtain ⟨u', sh, ph, evs, found, made, rfl⟩ := task_of_step stepped
    cases found.symm.trans there
    exact (replaying.next made).1

end Cache

/-! ### The same prompt twice -/

/-- A minute after the first request was answered, another with the same prompt is at its lookup. -/
def askedAgainActs : List WorldAct :=
  cachingActs ++
    [.task 0 (.run .none), .clock 60 60, .submit { prompt := "hi", userId := "v" } false,
      .task 1 (.run .none)]

theorem honest_provenance_asked_again :
    ∃ w w' t u d entry evs, Reaches (World.step Ledger.backend .ascii oneSlotCached) Always
        (World.start oneSlotCached {}) w ∧
      World.step Ledger.backend .ascii oneSlotCached w (.task 1 (.run .none)) = some w' ∧
      w'.tasks[1]? = some u ∧ ServedFrom 1 t d entry u.phase evs ∧
      w'.shared.ledger = w.shared.ledger := by
  have holds : execHolds (World.step Ledger.backend .ascii oneSlotCached) Always
      (World.start oneSlotCached {}) askedAgainActs (fun w =>
        (w.tasks[1]?.any fun t => match t.phase with
          | .lookup _ => true
          | _ => false) &&
        (World.step Ledger.backend .ascii oneSlotCached w (.task 1 (.run .none))).any fun w' =>
          w'.tasks[1]?.any fun u => u.phase.gone) = true := by
    decide +kernel
  obtain ⟨w, reached, good⟩ := exists_reaches_of_execHolds _ _ holds
  obtain ⟨looks, ends⟩ := Bool.and_eq_true_iff.mp good
  obtain ⟨t, here, looking⟩ := (Option.any_eq_true ..).mp looks
  obtain ⟨w', stepped, ends⟩ := (Option.any_eq_true ..).mp ends
  obtain ⟨u, there, gone⟩ := (Option.any_eq_true ..).mp ends
  split at looking
  · rename_i d phase
    have hit : u.phase ≠ .reserving d := by
      intro reserving
      rw [reserving] at gone
      cases gone
    obtain ⟨entry, storedAt, evs, -, served, -, -, ledger, -⟩ :=
      honest_provenance Ledger.backend .ascii oneSlotCached {} reached here phase stepped there hit
    exact ⟨w, w', t, u, d, entry, evs, reached, stepped, there, served, ledger⟩
  · cases looking

end LLMInference
