import LLMInference.Service.Slots

/-!
The bill of a stream that ends anywhere (`app/service.py`).

The consumer may close a stream at any `yield`, its task may be cancelled while it awaits a chunk,
and the provider may raise. The finalizer then works with what the generator has gathered. A
`StreamRecord` is kept outside of the service: the chunks a request was given, whether they came to
an end, and what it wrote to the cache.

* `cache_of_taskStep`, `cacheRecorded`: the record has every write to the cache.
* `Story.step`: what the generator, and then the finalizer, know of the record.
* `interrupted_stream_bill`: one settle, for what was received, whatever the end.
-/

namespace LLMInference

open Runs

/-! ### The record -/

/-- The entry of `_cache_store`. -/
def entryFor (d : RoutingDecision) (text : String) (u : Usage) : CacheEntry :=
  { text, inputTokens := u.inputTokens, outputTokens := u.outputTokens, model := d.model.name }

/-- The `cache.set` of a step, if it makes one. -/
def Task.stores (t : Task) (a : TaskAct) : Option (CacheKey × CacheEntry) :=
  match t.phase, a with
  | .storing fin _, .run _ =>
      some (cacheKey fin.decision t.request.prompt,
        entryFor fin.decision (fin.text.getD "") fin.usage)
  | .caching _ served k, .run _ | .caching _ served k, .cancel true =>
      some (cacheKey served t.request.prompt, entryFor served k.text k.usage)
  | _, _ => none

/-- What a request has received, and what it has written to the cache. -/
structure StreamRecord where
  chunks : List StreamChunk := []
  exhausted : Bool := false
  writes : List (CacheKey × CacheEntry) := []
  deriving DecidableEq

/-- The record after a step of the request. -/
def StreamRecord.note (r : StreamRecord) (t : Task) (a : TaskAct) : StreamRecord where
  chunks := match a with
    | .chunk c => r.chunks ++ [c]
    | _ => r.chunks
  exhausted := match a with
    | .exhausted => true
    | _ => r.exhausted
  writes := r.writes ++ (t.stores a).toList

/-- The record of request `i` after a step of the service. -/
def World.note {σ : Type} (i : ℕ) (w : World σ) (a : WorldAct) (r : StreamRecord) : StreamRecord :=
  match a with
  | .task j a =>
      if j = i then
        match w.tasks[i]? with
        | some t => r.note t a
        | none => r
      else r
  | _ => r

/-- The last usage that was reported. -/
def lastReported (cs : List StreamChunk) : Option Usage := (cs.filterMap (·.usage)).getLast?

/-- The text of the chunks. -/
def receivedText (cs : List StreamChunk) : String := String.join (cs.map (·.text))

/-- What a step of request `i` adds to the record is what it does to the cache; where it adds
nothing, it reads the cache at most. -/
def CacheRecorded {σ : Type} (B : LedgerBackend σ) (ts : TextSupport) (s : Settings) (i : ℕ) :
    Prop :=
  ∀ (w w' : World σ) (r : StreamRecord) (a : TaskAct), World.step B ts s w (.task i a) = some w' →
    ((w.note i (.task i a) r).writes = r.writes ∧
      (w'.shared.cache = w.shared.cache ∨
        ∃ key, w'.shared.cache = w.shared.cache.map fun c => (c.get key w.shared.mono).2)) ∨
    ∃ key entry, (w.note i (.task i a) r).writes = r.writes ++ [(key, entry)] ∧
      w'.shared.cache = w.shared.cache.map fun c => c.set key entry s.cacheTtlS w.shared.mono

/-- What is due for the chunks: the last usage, or what was delivered. -/
def dueUsage (ts : TextSupport) (s : Settings) (d : RoutingDecision) (cs : List StreamChunk) :
    Usage :=
  (lastReported cs).getD
    { inputTokens := d.inputTokens
      outputTokens := countTokens ts (receivedText cs) s.charsPerToken }

section Record

variable {σ : Type} {B : LedgerBackend σ} {ts : TextSupport} {s : Settings} {i : ℕ} {t : Task}
  {sh sh' : Shared σ} {a : TaskAct} {ph' : Phase} {evs : List Event}

/-- Nothing but the recorded writes changes the cache, and what reading it does. -/
theorem cache_of_taskStep (made : taskStep B ts s i t sh a = some (sh', ph', evs)) :
    match t.stores a with
    | some (key, entry) => sh'.cache = sh.cache.map fun c => c.set key entry s.cacheTtlS sh.mono
    | none =>
        sh'.cache = sh.cache ∨ ∃ key, sh'.cache = sh.cache.map fun c => (c.get key sh.mono).2 := by
  have looked : ∀ {d f}, t.phase = .lookup d → a = .run f →
      sh'.cache = sh.cache.map fun c => (c.get (cacheKey d t.request.prompt) sh.mono).2 := by
    rintro d f phase rfl
    simp only [taskStep, phase] at made
    split at made
    · have read : (lookupCache i t sh d).1.cache =
          sh.cache.map fun c => (c.get (cacheKey d t.request.prompt) sh.mono).2 :=
        cache_lookupCache d
      rwa [Option.some.inj made] at read
    · cases made
  have step := trans_of_taskStep made
  obtain ⟨req, streaming, ph⟩ := t
  cases step with
  | hit _ | hitStream _ | miss _ => exact .inr ⟨_, looked rfl rfl⟩
  | cancelCaching networked =>
      rename_i executed _
      simp only [taskStep, networked, if_true, Option.some.injEq] at made
      cases executed with
      | false => exact .inl (congrArg (fun out => out.1.cache) made.symm)
      | true => exact congrArg (fun out => out.1.cache) made.symm
  | enterBuffered entering _ | enterStreamed entering _ => cases entering <;> exact .inl rfl
  | exit exiting => cases exiting <;> exact .inl rfl
  | quit quiet => cases ph <;> first | exact .inl rfl | cases quiet
  | storeReturn | storeClose => rfl
  | _ => exact .inl rfl

theorem cacheRecorded (B : LedgerBackend σ) (ts : TextSupport) (s : Settings) (i : ℕ) :
    CacheRecorded B ts s i := by
  intro w w' r a stepped
  obtain ⟨t, sh, ph, evs, here, made, rfl⟩ := task_of_step stepped
  have noted : w.note i (.task i a) r = r.note t a := by
    simp only [World.note, if_true, here]
  have changed := cache_of_taskStep made
  rw [noted]
  cases stored : t.stores a with
  | none =>
      rw [stored] at changed
      exact .inl ⟨by simp [StreamRecord.note, stored], changed⟩
  | some write =>
      rw [stored] at changed
      exact .inr ⟨write.1, write.2, by simp [StreamRecord.note, stored], changed⟩

/-- There is a cache after a step when there was one before. -/
theorem cached_of_taskStep (made : taskStep B ts s i t sh a = some (sh', ph', evs)) :
    sh'.cache.isSome = sh.cache.isSome := by
  have changed := cache_of_taskStep made
  split at changed
  · rw [changed, Option.isSome_map]
  · rcases changed with same | ⟨key, read⟩
    · rw [same]
    · rw [read, Option.isSome_map]

end Record

/-! ### Bills and ends -/

/-- The charge of a settle of request `i`. -/
def Event.bill (i : ℕ) : Event → Option Charge
  | .billed j c => if j = i then some c else none
  | _ => none

/-- The end event that request `i` is told. -/
def Event.ending (i : ℕ) : Event → Option StreamEvent
  | .emitted j (.end model input output cost downgraded cached) =>
      if j = i then some (.end model input output cost downgraded cached) else none
  | _ => none

/-- The settles of request `i`. -/
def chargesOf (i : ℕ) (log : List Event) : List Charge := log.filterMap (Event.bill i)

/-- The end events of request `i`. -/
def endingsOf (i : ℕ) (log : List Event) : List StreamEvent := log.filterMap (Event.ending i)

section Logs

variable {i : ℕ} {log log' : List Event}

@[simp] theorem chargesOf_append :
    chargesOf i (log ++ log') = chargesOf i log ++ chargesOf i log' :=
  List.filterMap_append

@[simp] theorem endingsOf_append :
    endingsOf i (log ++ log') = endingsOf i log ++ endingsOf i log' :=
  List.filterMap_append

theorem filterMap_history {β : Type} {f : Event → Option β}
    (about : ∀ e, e.request ≠ some i → f e = none) :
    (history i log).filterMap f = log.filterMap f := by
  rw [history, List.filterMap_filter]
  apply List.filterMap_congr
  intro e _
  by_cases mine : e.request = some i
  · simp [mine]
  · simp [mine, about e mine]

@[simp] theorem chargesOf_history : chargesOf i (history i log) = chargesOf i log := by
  refine filterMap_history fun e other => ?_
  cases e with
  | billed j c => exact if_neg fun eq => other (congrArg some eq)
  | _ => rfl

@[simp] theorem endingsOf_history : endingsOf i (history i log) = endingsOf i log := by
  refine filterMap_history fun e other => ?_
  cases e with
  | emitted j told =>
      cases told with
      | «end» _ _ _ _ _ _ => exact if_neg fun eq => other (congrArg some eq)
      | _ => rfl
  | _ => rfl

theorem chargesOf_settleEvents (r : Reservation) (c : Charge) (now : ℚ) (f : LedgerFault) :
    chargesOf i (settleEvents i r c now f) = [c] := by
  unfold settleEvents
  split <;> simp [chargesOf, Event.bill]

theorem endingsOf_settleEvents (r : Reservation) (c : Charge) (now : ℚ) (f : LedgerFault) :
    endingsOf i (settleEvents i r c now f) = [] := by
  unfold settleEvents
  split <;> simp [endingsOf, Event.ending]

end Logs

/-! ### What a stream knows -/

/-- Nothing has happened yet. -/
structure Blank (i : ℕ) (r : StreamRecord) (h : List Event) : Prop where
  record : r = {}
  uncharged : chargesOf i h = []
  unended : endingsOf i h = []

/-- The generator's variables are what the record says. -/
structure Mirrors (st : StreamState) (r : StreamRecord) : Prop where
  usage : st.usage = lastReported r.chunks
  text : String.join st.pieces = receivedText r.chunks
  completed : st.completed = r.exhausted
  unwritten : r.writes = []

/-- The stream goes by the decision of the router, holds its slot, and ends only after all chunks,
with what is due. -/
structure OnStream (ts : TextSupport) (s : Settings) (i : ℕ) (req : Request) (r : StreamRecord)
    (h : List Event) (d : RoutingDecision) : Prop where
  routed : route ts s req.routing [] = .ok d
  admitted : .admitted i ∈ h
  ended : ∀ e ∈ endingsOf i h, r.exhausted = true ∧ e = endEvent d (dueUsage ts s d r.chunks)

/-- The finalizer works with what is due, and has the text of a stream that was exhausted. -/
structure Settles (ts : TextSupport) (s : Settings) (fin : Finalizer) (r : StreamRecord) :
    Prop where
  usage : fin.usage = dueUsage ts s fin.decision r.chunks
  text : fin.text = if r.exhausted then some (receivedText r.chunks) else none
  unwritten : r.writes = []

/-- What is written for a stream. -/
def dueWrites (ts : TextSupport) (s : Settings) (req : Request) (d : RoutingDecision)
    (r : StreamRecord) : List (CacheKey × CacheEntry) :=
  if s.cacheEnabled && r.exhausted then
    [(cacheKey d req.prompt, entryFor d (receivedText r.chunks) (dueUsage ts s d r.chunks))]
  else []

/-- The stream is over: it has one bill, and its write. -/
structure Settled (ts : TextSupport) (s : Settings) (i : ℕ) (req : Request) (r : StreamRecord)
    (h : List Event) (d : RoutingDecision) : Prop where
  stream : OnStream ts s i req r h d
  billed : chargesOf i h = [chargeFor d.model (dueUsage ts s d r.chunks)]
  written : r.writes = dueWrites ts s req d r

/-- A request, its record and its history, at each phase. -/
def Story (ts : TextSupport) (s : Settings) (i : ℕ) (t : Task) (r : StreamRecord) (h : List Event) :
    Prop :=
  match t.phase with
  | .arrived => Blank i r h
  | .lookup d | .reserving d | .granted d _ | .queued d _ =>
      route ts s t.request.routing [] = .ok d ∧ Blank i r h
  | .yielded st y =>
      OnStream ts s i t.request r h st.decision ∧ Mirrors st r ∧ chargesOf i h = [] ∧
        (y ≠ .end → r.exhausted = false)
  | .pulling st =>
      OnStream ts s i t.request r h st.decision ∧ Mirrors st r ∧ chargesOf i h = [] ∧
        r.exhausted = false
  | .finalizing fin _ =>
      OnStream ts s i t.request r h fin.decision ∧ Settles ts s fin r ∧ chargesOf i h = []
  | .storing fin _ =>
      OnStream ts s i t.request r h fin.decision ∧ Settles ts s fin r ∧ r.exhausted = true ∧
        s.cacheEnabled = true ∧ chargesOf i h = [chargeFor fin.decision.model fin.usage]
  | .done _ => r.chunks = [] ∨ ∃ d, Settled ts s i t.request r h d
  | _ => r.chunks = []

section Steps

variable {σ : Type} {B : LedgerBackend σ} {ts : TextSupport} {s : Settings} {i : ℕ} {t : Task}
  {sh sh' : Shared σ} {a : TaskAct} {ph' : Phase} {evs h : List Event} {r : StreamRecord}
  {st : StreamState}

theorem Mirrors.finalUsage (mirrors : Mirrors st r) :
    st.finalUsage ts s = dueUsage ts s st.decision r.chunks := by
  rw [StreamState.finalUsage, dueUsage, mirrors.usage, mirrors.text]

/-- The finalizer gets what the generator has gathered. -/
theorem Mirrors.settles (mirrors : Mirrors st r) : Settles ts s (st.finalize ts s) r where
  usage := mirrors.finalUsage
  text := by rw [StreamState.finalize, mirrors.completed, mirrors.text]
  unwritten := mirrors.unwritten

theorem lastReported_append (cs : List StreamChunk) (c : StreamChunk) :
    lastReported (cs ++ [c]) = c.usage.or (lastReported cs) := by
  rw [lastReported, List.filterMap_append, lastReported]
  cases usage : c.usage with
  | none => simp [usage]
  | some u => simp [usage]

theorem receivedText_append (cs : List StreamChunk) (c : StreamChunk) :
    receivedText (cs ++ [c]) = receivedText cs ++ c.text := by
  simp [receivedText, String.join_append]

/-- One more chunk. -/
theorem Mirrors.receive (mirrors : Mirrors st r) (c : StreamChunk)
    (writes : List (CacheKey × CacheEntry)) (none : writes = []) :
    Mirrors (st.receive c) { r with chunks := r.chunks ++ [c], writes := r.writes ++ writes } where
  usage := by rw [StreamState.receive, mirrors.usage, lastReported_append]
  text := by
    rw [receivedText_append, ← mirrors.text, StreamState.receive]
    by_cases empty : c.text = ""
    · simp [empty]
    · simp [empty, String.join_append]
  completed := mirrors.completed
  unwritten := by rw [none, mirrors.unwritten]; rfl

/-- A step that writes nothing and receives nothing leaves the record alone. -/
theorem note_eq (unwritten : t.stores a = none) (unfed : ∀ c, a ≠ .chunk c)
    (going : a ≠ .exhausted) : r.note t a = r := by
  have same : r.writes ++ (t.stores a).toList = r.writes := by
    rw [unwritten, Option.toList_none, List.append_nil]
  cases a with
  | chunk c => exact absurd rfl (unfed c)
  | exhausted => exact absurd rfl going
  | _ => exact congrArg (fun writes => ({ r with writes } : StreamRecord)) same

/-- Only a stream that awaits a chunk is given one. -/
theorem chunks_note (made : taskStep B ts s i t sh a = some (sh', ph', evs))
    (idle : ∀ st, t.phase ≠ .pulling st) : (r.note t a).chunks = r.chunks := by
  cases a with
  | chunk c =>
      have stays : taskStep B ts s i t sh (.chunk c) = none := by
        simp only [taskStep]
      cases stays.symm.trans made
  | _ => rfl

/-- The finalizer goes on to the cache exactly when there is a text and a cache. -/
theorem gone_of_finalizing {fin : Finalizer} {x : Exit} (phase : t.phase = .finalizing fin x)
    (made : taskStep B ts s i t sh a = some (sh', ph', evs)) :
    ph'.gone = !(fin.text.isSome && sh.cache.isSome) := by
  cases a with
  | run f =>
      simp only [taskStep, phase, finalizeStep] at made
      split at made
      · split at made
        · rename_i both
          cases Option.some.inj made
          rw [both]
          rfl
        · rename_i both
          cases Option.some.inj made
          rw [Bool.not_eq_true] at both
          rw [both]
          rfl
      · cases made
  | _ => simp [taskStep, phase] at made

theorem Blank.none (blank : Blank i r h) : r.chunks = [] := by
  rw [blank.record]

theorem Blank.grow (blank : Blank i r h) (uncharged : chargesOf i evs = [])
    (unended : endingsOf i evs = []) : Blank i r (h ++ history i evs) where
  record := blank.record
  uncharged := by simp [blank.uncharged, uncharged]
  unended := by simp [blank.unended, unended]

theorem chargesOf_grow {cs : List Charge} (before : chargesOf i h = cs)
    (uncharged : chargesOf i evs = []) : chargesOf i (h ++ history i evs) = cs := by
  rw [chargesOf_append, chargesOf_history, before, uncharged, List.append_nil]

section OnStream

variable {req : Request} {d : RoutingDecision} {r' : StreamRecord}

theorem OnStream.grow (on : OnStream ts s i req r h d) (unended : endingsOf i evs = [])
    (chunks : r'.chunks = r.chunks) (exhausted : r'.exhausted = r.exhausted) :
    OnStream ts s i req r' (h ++ history i evs) d where
  routed := on.routed
  admitted := List.mem_append_left _ on.admitted
  ended := by simpa [unended, chunks, exhausted] using on.ended

/-- Before the chunks are exhausted nothing has been told that could be wrong. -/
theorem OnStream.goOn (on : OnStream ts s i req r h d) (going : r.exhausted = false)
    (unended : endingsOf i evs = []) : OnStream ts s i req r' (h ++ history i evs) d where
  routed := on.routed
  admitted := List.mem_append_left _ on.admitted
  ended := by
    have none : endingsOf i h = [] := by
      rw [List.eq_nil_iff_forall_not_mem]
      intro e mem
      cases going.symm.trans (on.ended e mem).1
    simp [none, unended]

/-- Past the gate, nothing has been received. -/
theorem Blank.enter {res : Reservation} (blank : Blank i r h)
    (routed : route ts s req.routing [] = .ok d)
    (entered : evs = [.admitted i, .started i, .emitted i (startEvent d)]) :
    OnStream ts s i req r (h ++ history i evs) d ∧
      Mirrors { decision := d, reservation := res } r ∧
      chargesOf i (h ++ history i evs) = [] ∧ (YieldPoint.start ≠ .end → r.exhausted = false) := by
  subst entered
  obtain ⟨rfl, uncharged, unended⟩ := blank
  refine ⟨⟨routed, ?_, ?_⟩, ⟨rfl, rfl, rfl, rfl⟩, chargesOf_grow uncharged rfl, fun _ => rfl⟩
  · exact List.mem_append_right _ (mem_history.mpr ⟨List.mem_cons_self, rfl⟩)
  · have none : endingsOf i [.admitted i, .started i, .emitted i (startEvent d)] = [] := rfl
    simp [unended, none]

/-- The end that is told is the one that is due. -/
theorem OnStream.exhaust (on : OnStream ts s i req r h st.decision) (mirrors : Mirrors st r)
    (going : r.exhausted = false) (chunks : r'.chunks = r.chunks)
    (exhausted : r'.exhausted = true) :
    OnStream ts s i req r'
      (h ++ history i [.emitted i (endEvent st.decision (st.finalUsage ts s))]) st.decision where
  routed := on.routed
  admitted := List.mem_append_left _ on.admitted
  ended := by
    intro e mem
    rw [endingsOf_append, endingsOf_history, List.mem_append] at mem
    rcases mem with old | new
    · cases going.symm.trans (on.ended e old).1
    · refine ⟨exhausted, ?_⟩
      rw [chunks, ← mirrors.finalUsage]
      simpa [endingsOf, Event.ending, endEvent] using new

end OnStream

section Settles

variable {fin : Finalizer}

theorem Settles.isSome_text (settles : Settles ts s fin r) : fin.text.isSome = r.exhausted := by
  rw [settles.text]
  cases r.exhausted <;> rfl

/-- Where nothing is to be stored, nothing is due to be written. -/
theorem Settles.unstored {req : Request} (settles : Settles ts s fin r)
    (cached : sh.cache.isSome = s.cacheEnabled)
    (neither : (fin.text.isSome && sh.cache.isSome) = false) :
    r.writes = dueWrites ts s req fin.decision r := by
  rw [settles.isSome_text, cached, Bool.and_comm] at neither
  rw [settles.unwritten, dueWrites, neither]
  rfl

/-- Where the text is stored, its write is the one that is due. -/
theorem Settles.stored {req : Request} (settles : Settles ts s fin r)
    (exhausted : r.exhausted = true) (enabled : s.cacheEnabled = true) :
    r.writes ++ [(cacheKey fin.decision req.prompt,
        entryFor fin.decision (fin.text.getD "") fin.usage)] =
      dueWrites ts s req fin.decision r := by
  have text : fin.text.getD "" = receivedText r.chunks := by
    rw [settles.text, exhausted]
    rfl
  rw [settles.unwritten, text, settles.usage, dueWrites, exhausted, enabled]
  rfl

end Settles

/-- The steps of a request keep its story. -/
theorem Story.step (made : taskStep B ts s i t sh a = some (sh', ph', evs))
    (cached : sh.cache.isSome = s.cacheEnabled) (story : Story ts s i t r h) :
    Story ts s i { t with phase := ph' } (r.note t a) (h ++ history i evs) := by
  have step := trans_of_taskStep made
  have unfed : (∀ st, t.phase ≠ .pulling st) → r.chunks = [] → (r.note t a).chunks = [] :=
    fun idle none => (chunks_note made idle).trans none
  have gone : ∀ {fin x}, t.phase = .finalizing fin x →
      ph'.gone = !(fin.text.isSome && sh.cache.isSome) := fun phase => gone_of_finalizing phase made
  obtain ⟨req, streaming, ph⟩ := t
  cases step with
  | rejected _ => exact .inl (unfed (by simp) story.none)
  | toLookup routed | toReserve routed =>
      refine ⟨routed, ?_⟩
      rw [note_eq rfl (by simp) (by simp)]
      exact story.grow rfl rfl
  | miss _ | park _ | repark _ =>
      refine ⟨story.1, ?_⟩
      rw [note_eq rfl (by simp) (by simp)]
      exact story.2.grow rfl rfl
  | granted _ _ =>
      refine ⟨story.1, ?_⟩
      rw [note_eq rfl (by simp) (by simp)]
      exact story.2.grow (by split <;> rfl) (by split <;> rfl)
  | hit _ | refused _ _ | cancelReserve _ | cancelQueued =>
      exact .inl (unfed (by simp) story.2.none)
  | hitStream _ | timeout => exact unfed (by simp) story.2.none
  | enterBuffered entering _ =>
      cases entering with
      | atOnce _ | woken _ _ => exact unfed (by simp) story.2.none
  | enterStreamed entering _ =>
      cases entering with
      | atOnce _ | woken _ _ =>
          obtain ⟨routed, blank⟩ := story
          rw [note_eq rfl (by simp) (by simp)]
          exact blank.enter routed rfl
  | begin | resume =>
      obtain ⟨on, mirrors, uncharged, going⟩ := story
      rw [note_eq rfl (by simp) (by simp)]
      exact ⟨on.grow rfl rfl rfl, mirrors, chargesOf_grow uncharged rfl, going (by simp)⟩
  | @chunkText _ c =>
      obtain ⟨on, mirrors, uncharged, going⟩ := story
      exact ⟨on.goOn going rfl, mirrors.receive c _ rfl, chargesOf_grow uncharged rfl,
        fun _ => going⟩
  | @chunkEmpty _ c =>
      obtain ⟨on, mirrors, uncharged, going⟩ := story
      exact ⟨on.goOn going rfl, mirrors.receive c _ rfl, chargesOf_grow uncharged rfl, going⟩
  | exhausted =>
      obtain ⟨on, mirrors, uncharged, going⟩ := story
      refine ⟨on.exhaust mirrors going rfl rfl, ⟨mirrors.usage, mirrors.text, rfl, ?_⟩,
        chargesOf_grow uncharged rfl, fun other => absurd rfl other⟩
      rw [StreamRecord.note, mirrors.unwritten]
      rfl
  | streamFault _ | streamOther _ =>
      obtain ⟨on, mirrors, uncharged, going⟩ := story
      rw [note_eq rfl (by simp) (by simp)]
      exact ⟨on.grow rfl rfl rfl, mirrors, chargesOf_grow uncharged rfl, fun _ => going⟩
  | exit exiting =>
      cases exiting with
      | streamed | failed | closed | cancelled =>
          obtain ⟨on, mirrors, uncharged, -⟩ := story
          rw [note_eq rfl (by simp) (by simp)]
          exact ⟨on.grow rfl rfl rfl, mirrors.settles, chargesOf_grow uncharged rfl⟩
  | @finalizeStore fin =>
      obtain ⟨on, settles, uncharged⟩ := story
      have both : (fin.text.isSome && sh.cache.isSome) = true := by
        rw [← Bool.not_eq_false']
        exact (gone rfl).symm
      obtain ⟨text, there⟩ := Bool.and_eq_true_iff.mp both
      rw [note_eq rfl (by simp) (by simp)]
      refine ⟨on.grow (endingsOf_settleEvents _ _ _ _) rfl rfl, ⟨settles.usage, settles.text,
        settles.unwritten⟩, settles.isSome_text ▸ text, cached ▸ there, ?_⟩
      rw [chargesOf_append, chargesOf_history, uncharged, chargesOf_settleEvents]
      rfl
  | @finalizeClose fin =>
      obtain ⟨on, settles, uncharged⟩ := story
      have neither : (fin.text.isSome && sh.cache.isSome) = false := by
        rw [← Bool.not_eq_true']
        exact (gone rfl).symm
      rw [note_eq rfl (by simp) (by simp)]
      refine .inr ⟨fin.decision, on.grow ?_ rfl rfl, ?_, settles.unstored cached neither⟩
      · rw [endingsOf_append, endingsOf_settleEvents]
        rfl
      · rw [chargesOf_append, chargesOf_history, uncharged, chargesOf_append,
          chargesOf_settleEvents, ← settles.usage]
        rfl
  | @storeClose fin =>
      obtain ⟨on, settles, exhausted, enabled, charged⟩ := story
      refine .inr ⟨fin.decision, on.grow rfl rfl rfl, ?_, settles.stored exhausted enabled⟩
      rw [chargesOf_grow charged rfl, settles.usage]
      rfl
  | quit quiet =>
      have none : r.chunks = [] := by
        cases ph with
        | arrived => exact story.none
        | lookup d => exact story.2.none
        | replaying rest => exact story
        | _ => cases quiet
      refine .inl (unfed ?_ none)
      rintro st rfl
      cases quiet
  | allowed _ | deniedNext _ _ | deniedRaise _ | completed | faultNext _ _ _ | faultRaise _
  | otherRaise _ | settleRaise _ _ | settleCache _ _ | replay => exact unfed (by simp) story
  | _ => exact .inl (unfed (by simp) story)

end Steps

/-! ### Whole runs -/

/-- The record of request `i` goes with the service. -/
structure Recorded {σ : Type} (ts : TextSupport) (s : Settings) (i : ℕ) (w : World σ)
    (r : StreamRecord) : Prop where
  cached : w.shared.cache.isSome = s.cacheEnabled
  early : w.tasks.length ≤ i → r = {}
  story : ∀ t, w.tasks[i]? = some t → Story ts s i t r (history i w.log)

section Runs

variable {σ : Type} {B : LedgerBackend σ} {ts : TextSupport} {s : Settings} {i : ℕ} {t : Task}
  {w w' : World σ} {r : StreamRecord} {a : WorldAct}

theorem Recorded.step (recorded : Recorded ts s i w r)
    (new : w.tasks.length ≤ i → history i w.log = []) (stepped : World.step B ts s w a = some w') :
    Recorded ts s i w' (w.note i a r) := by
  obtain ⟨cached, early, story⟩ := recorded
  cases a with
  | submit request streaming =>
      cases stepped
      refine ⟨cached, fun late => early ?_, ?_⟩
      · simp only [List.length_append, List.length_singleton] at late
        omega
      · intro t here
        rcases lt_or_ge i w.tasks.length with inside | late
        · rw [List.getElem?_append_left inside] at here
          exact story t here
        · rw [List.getElem?_append_right late, List.getElem?_singleton] at here
          split at here
          · cases here
            show Blank i r (history i w.log)
            rw [new late, early late]
            exact ⟨rfl, rfl, rfl⟩
          · cases here
  | clock now mono =>
      cases stepped
      exact ⟨cached, early, story⟩
  | scale later =>
      cases worldTrans_of_step stepped with
      | scale _ => exact ⟨cached, early, story⟩
  | task j a =>
      obtain ⟨t, sh, ph, evs, here, made, rfl⟩ := task_of_step stepped
      have inside := (List.getElem?_eq_some_iff.mp here).1
      have still : sh.cache.isSome = s.cacheEnabled := (cached_of_taskStep made).trans cached
      by_cases mine : j = i
      · subst mine
        have noted : w.note j (.task j a) r = r.note t a := by
          simp only [World.note, if_true, here]
        rw [noted]
        refine ⟨still, fun late => ?_, ?_⟩
        · rw [List.length_set] at late
          omega
        · intro u there
          cases (Pool.get_set_self here _).symm.trans there
          rw [history_append]
          exact (story t here).step made cached
      · have noted : w.note i (.task j a) r = r := by
          simp only [World.note, mine, if_false]
        rw [noted]
        refine ⟨still, fun late => early ?_, ?_⟩
        · rwa [List.length_set] at late
        · intro u there
          rw [List.getElem?_set_ne mine] at there
          rw [history_append, (trans_of_taskStep made).history_eq_nil (Ne.symm mine),
            List.append_nil]
          exact story u there

theorem recorded_of_reaches {ledger : σ} {p : World σ × StreamRecord}
    (reached : Reaches (recording (World.step B ts s) (World.note i)) Always
      (World.start s ledger, {}) p) : Recorded ts s i p.1 p.2 := by
  refine reached.invariant_of (I := fun p => Recorded ts s i p.1 p.2) ?_ ?_
  · refine ⟨?_, fun _ => rfl, ?_⟩
    · rw [World.start]
      cases s.cacheEnabled <;> rfl
    · intro t here
      cases here
  · rintro ⟨w, r⟩ a ⟨w', r'⟩ before recorded - taken
    obtain ⟨stepped, noted⟩ := recording_eq_some.mp taken
    have service : Reaches (World.step B ts s) Always (World.start s ledger) w :=
      before.forget fun _ _ _ => trivial
    have after : Recorded ts s i w' (w.note i a r) :=
      recorded.step (history_of_new ⟨rfl, rfl⟩ service i) stepped
    rwa [← show r' = w.note i a r from noted] at after

/-- A stream that was given some chunk is over, wherever it ended: it was settled once, at the price
of the model it was routed to, for the last usage it was given, or for its input and the text it was
given; it has written the cache exactly when its chunks came to an end, where what is recorded is
what its steps do to the cache; the end it was told, if it was told one, reports that cost; and its
slot is returned once. -/
theorem interrupted_stream_bill (B : LedgerBackend σ) (ts : TextSupport) (s : Settings) (ledger : σ)
    (reached : Reaches (recording (World.step B ts s) (World.note i)) Always
      (World.start s ledger, {}) (w, r))
    (here : w.tasks[i]? = some t) (delivered : ∃ c ∈ r.chunks, c.text ≠ "")
    (gone : t.phase.gone = true) :
    ∃ d, route ts s t.request.routing [] = .ok d ∧
      chargesOf i w.log = [chargeFor d.model (dueUsage ts s d r.chunks)] ∧
      r.writes = dueWrites ts s t.request d r ∧ CacheRecorded B ts s i ∧
      (∀ e ∈ endingsOf i w.log, e = endEvent d (dueUsage ts s d r.chunks)) ∧
      w.log.count (.slotReleased i) = 1 := by
  have service : Reaches (World.step B ts s) Always (World.start s ledger) w :=
    reached.forget fun _ _ _ => trivial
  have story := (recorded_of_reaches reached).story t here
  obtain ⟨x, ended⟩ := Phase.exit_of_gone gone
  simp only [Story, ended] at story
  rcases story with none | ⟨d, stream, charged, written⟩
  · obtain ⟨c, mem, -⟩ := delivered
    rw [none] at mem
    cases mem
  · refine ⟨d, stream.routed, by rwa [chargesOf_history] at charged, written,
      cacheRecorded B ts s i, ?_, ?_⟩
    · intro e told
      rw [← endingsOf_history] at told
      exact (stream.ended e told).2
    · obtain ⟨balance, once, -⟩ := slotStory_of_reaches service i t here
      rw [Phase.holdsSlot_of_gone gone] at balance
      have taken := List.count_pos_iff.mpr stream.admitted
      rw [← count_history rfl]
      simp only [Bool.false_eq_true, if_false] at balance
      omega

end Runs

/-- A stream is cancelled after its first text. -/
def cancelledActs : List WorldAct :=
  [.submit { prompt := "hi", userId := "u" } true,
    .task 0 (.run .none), .task 0 (.run .none), .task 0 (.run .none), .task 0 (.run .none),
    .task 0 .next, .task 0 (.chunk { text := "yo" }), .task 0 .next, .task 0 (.cancel false),
    .task 0 (.run .none)]

theorem interrupted_stream_bill_cancelled :
    ∃ w, Reaches (recording (World.step Ledger.backend .ascii oneSlotCached) (World.note 0)) Always
        (World.start oneSlotCached {}, {}) (w, { chunks := [{ text := "yo" }] }) ∧
      ∃ d, chargesOf 0 w.log =
          [chargeFor d.model (dueUsage .ascii oneSlotCached d [{ text := "yo" }])] ∧
        w.log.count (.slotReleased 0) = 1 := by
  have holds : execHolds (recording (World.step Ledger.backend .ascii oneSlotCached) (World.note 0))
      Always (World.start oneSlotCached {}, {}) cancelledActs (fun p =>
        (p.1.tasks[0]?.any fun t => t.phase.gone) &&
          decide (p.2 = { chunks := [{ text := "yo" }] })) = true := by
    decide +kernel
  obtain ⟨⟨w, r⟩, reached, good⟩ := exists_reaches_of_execHolds _ _ holds
  obtain ⟨ended, recorded⟩ := Bool.and_eq_true_iff.mp good
  obtain ⟨t, here, gone⟩ := (Option.any_eq_true ..).mp ended
  cases of_decide_eq_true recorded
  obtain ⟨d, -, charged, -, -, -, released⟩ :=
    interrupted_stream_bill Ledger.backend .ascii oneSlotCached {} reached here
      ⟨_, List.mem_singleton_self _, by decide⟩ gone
  exact ⟨w, reached, d, charged, released⟩

end LLMInference
