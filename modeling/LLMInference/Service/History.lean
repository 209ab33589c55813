import LLMInference.Lib.Runs
import LLMInference.Service.Trans

/-!
What the steps of the service do to its history.

`history i` is the part of the log that is about request `i`. Only the steps of request
`i` add to it, so a relation between a request's phase and its own history is proved from
the steps of one request, whatever the others do (`each_history`).

* `worldTrans_of_step`: the inversion lemma of the whole service.
* `Trans.names`: a step of request `i` records nothing about another request.
* `each_history`, `each_task`: the invariant rules for one request.
-/

namespace LLMInference

open Runs

/-- The request an event is about. -/
def Event.request : Event → Option ℕ
  | .pruned .. => none
  | .granted i _ | .billed i _ | .settled i .. | .released i | .shed i | .generated i ..
  | .failed i _ | .admitted i | .slotReleased i | .started i | .finished i | .invoked i ..
  | .faulted i .. | .emitted i _ | .returned i _ => some i

/-- The events about request `i`, in order. -/
def history (i : ℕ) (log : List Event) : List Event :=
  log.filter fun e => decide (e.request = some i)

@[simp] theorem history_nil (i : ℕ) : history i [] = [] := rfl

@[simp] theorem history_append (i : ℕ) (log log' : List Event) :
    history i (log ++ log') = history i log ++ history i log' :=
  List.filter_append ..

@[simp] theorem mem_history {i : ℕ} {log : List Event} {e : Event} :
    e ∈ history i log ↔ e ∈ log ∧ e.request = some i := by
  simp [history]

/-- Events about request `i` are counted in its history. -/
theorem count_history {i : ℕ} {e : Event} (about : e.request = some i) (log : List Event) :
    (history i log).count e = log.count e :=
  List.count_filter (by simpa using about)

/-- Events about nobody and events about others leave a history alone. -/
theorem history_eq_nil {j : ℕ} {evs : List Event} (others : ∀ e ∈ evs, e.request ≠ some j) :
    history j evs = [] := by
  rw [history, List.filter_eq_nil_iff]
  intro e mem
  simpa using others e mem

theorem request_settleEvents {i : ℕ} {r : Reservation} {c : Charge} {now : ℚ} {f : LedgerFault}
    {e : Event} (mem : e ∈ settleEvents i r c now f) : e.request = some i := by
  unfold settleEvents at mem
  split at mem
  · simp only [List.mem_cons, List.not_mem_nil, or_false] at mem
    rcases mem with rfl | rfl <;> rfl
  · rw [List.mem_singleton] at mem
    exact mem ▸ rfl

theorem request_releaseEvents {i : ℕ} {r : Reservation} {f : LedgerFault} {e : Event}
    (mem : e ∈ releaseEvents i r f) : e.request = some i := by
  unfold releaseEvents at mem
  split at mem
  · exact List.mem_singleton.mp mem ▸ rfl
  · cases mem

theorem count_settleEvents {i : ℕ} {r : Reservation} {c : Charge} {now : ℚ} {f : LedgerFault}
    {e : Event} (bill : e ≠ .billed i c) (effect : e ≠ .settled i r.userId c now) :
    (settleEvents i r c now f).count e = 0 := by
  apply List.count_eq_zero.mpr
  intro mem
  unfold settleEvents at mem
  split at mem <;> simp [bill, effect] at mem

theorem count_releaseEvents {i : ℕ} {r : Reservation} {f : LedgerFault} {e : Event}
    (effect : e ≠ .released i) : (releaseEvents i r f).count e = 0 := by
  apply List.count_eq_zero.mpr
  intro mem
  unfold releaseEvents at mem
  split at mem <;> simp [effect] at mem

section Steps

variable {σ : Type} {B : LedgerBackend σ} {ts : TextSupport} {s : Settings}

/-- The events of a step of request `i` are about `i`, or about nobody. -/
theorem Trans.names {i : ℕ} {req : Request} {streaming : Bool} {sh sh' : Shared σ} {ph ph' : Phase}
    {a : TaskAct} {evs : List Event} (step : Trans B ts s i req streaming sh ph a sh' ph' evs) :
    ∀ e ∈ evs, e.request = some i ∨ e.request = none := by
  have own : ∀ {es : List Event}, (∀ e ∈ es, e.request = some i) →
      ∀ e ∈ es, e.request = some i ∨ e.request = none :=
    fun about e mem => .inl (about e mem)
  cases step
  case granted | refused | cancelReserve => split <;> simp [Event.request]
  case settleRaise | finalizeStore => exact own fun _ => request_settleEvents
  case finishShed | cancelShed => exact own fun _ => request_releaseEvents
  case settleCache | settleReturn | finalizeClose | cancelSettle =>
    refine own (List.forall_mem_append.mpr ⟨fun _ => request_settleEvents, ?_⟩)
    simp [Event.request]
  case refund | refundRaise | cancelRefund =>
    refine own (List.forall_mem_append.mpr ⟨fun _ => request_releaseEvents, ?_⟩)
    simp [Event.request]
  all_goals simp [Event.request]

/-- An event about a request in a step of request `i` is about `i`. -/
theorem Trans.eq_of_names {i j : ℕ} {req : Request} {streaming : Bool} {sh sh' : Shared σ}
    {ph ph' : Phase} {a : TaskAct} {evs : List Event}
    (step : Trans B ts s i req streaming sh ph a sh' ph' evs) {e : Event} (mem : e ∈ evs)
    (about : e.request = some j) : j = i := by
  rcases step.names e mem with mine | nobody
  · exact Option.some.inj (about.symm.trans mine)
  · cases about.symm.trans nobody

/-- No step starts from the end. -/
theorem Trans.running {i : ℕ} {req : Request} {streaming : Bool} {sh sh' : Shared σ}
    {ph ph' : Phase} {a : TaskAct} {evs : List Event}
    (step : Trans B ts s i req streaming sh ph a sh' ph' evs) : ph.gone = false := by
  cases step
  case enterBuffered entering | enterStreamed entering => cases entering <;> rfl
  case exit exiting => cases exiting <;> rfl
  case quit quiet => cases ph <;> first | rfl | cases quiet
  all_goals rfl

/-- The finalizer stores only what has a text. -/
theorem text_of_storing {i : ℕ} {t : Task} {a : TaskAct} {sh sh' : Shared σ} {fin : Finalizer}
    {x : Exit} {evs : List Event} (made : taskStep B ts s i t sh a = some (sh', .storing fin x, evs)) :
    fin.text.isSome = true := by
  have step := trans_of_taskStep made
  generalize phase : t.phase = ph at step
  cases step with
  | finalizeStore admits bill =>
      simp only [taskStep, phase, admits, if_true, finalizeStep, Option.some.injEq] at made
      split at made
      · rename_i stored
        cases made
        exact (Bool.and_eq_true_iff.mp stored).1
      · cases congrArg (fun out => out.2.1) made

/-- A new service: no request yet. -/
def World.Fresh (w : World σ) : Prop := w.tasks = [] ∧ w.log = []

/-- The steps of the service. -/
inductive WorldTrans (B : LedgerBackend σ) (ts : TextSupport) (s : Settings) (w : World σ) :
    WorldAct → World σ → Prop
  | submit {request : Request} {streaming : Bool} :
      WorldTrans B ts s w (.submit request streaming)
        { w with tasks := w.tasks ++ [{ request, streaming, phase := .arrived }] }
  | clock {now mono : ℚ} :
      WorldTrans B ts s w (.clock now mono) { w with shared := { w.shared with now, mono } }
  | scale {later : ℚ} {autoscaler : Autoscaler} {gate : CapacityGate}
      (resized : gate = w.shared.gate ∨ ∃ capacity, gate = w.shared.gate.resize capacity) :
      WorldTrans B ts s w (.scale later)
        { w with
          shared := { w.shared with
            metrics := w.shared.metrics.setQueueDepth w.shared.gate.waiting, autoscaler, gate } }
  | task {i : ℕ} {a : TaskAct} {t : Task} {sh : Shared σ} {ph : Phase} {evs : List Event}
      (here : w.tasks[i]? = some t)
      (step : Trans B ts s i t.request t.streaming w.shared t.phase a sh ph evs) :
      WorldTrans B ts s w (.task i a)
        { shared := sh, tasks := w.tasks.set i { t with phase := ph }, log := w.log ++ evs }

/-- A step of request `i` is a step of its task. -/
theorem task_of_step {w w' : World σ} {i : ℕ} {a : TaskAct}
    (stepped : World.step B ts s w (.task i a) = some w') :
    ∃ t sh ph evs, w.tasks[i]? = some t ∧ taskStep B ts s i t w.shared a = some (sh, ph, evs) ∧
      w' = { shared := sh, tasks := w.tasks.set i { t with phase := ph }, log := w.log ++ evs } := by
  simp only [World.step] at stepped
  split at stepped
  · cases stepped
  · rename_i t here
    split at stepped
    · cases stepped
    · rename_i sh ph evs made
      cases stepped
      exact ⟨t, sh, ph, evs, here, made, rfl⟩

/-- Every step of the service is one of these. -/
theorem worldTrans_of_step {w w' : World σ} {a : WorldAct}
    (stepped : World.step B ts s w a = some w') : WorldTrans B ts s w a w' := by
  cases a with
  | submit request streaming =>
      cases stepped
      exact .submit
  | clock now mono =>
      cases stepped
      exact .clock
  | scale later =>
      cases stepped
      unfold World.scale
      simp only
      split
      · exact .scale (.inl rfl)
      · refine .scale ?_
        split
        · exact .inr ⟨_, rfl⟩
        · exact .inl rfl
  | task i a =>
      obtain ⟨t, sh, ph, evs, here, made, rfl⟩ := task_of_step stepped
      exact .task here (trans_of_taskStep made)

/-- What a new request has, and its own steps keep, holds of every request in every reached
state. -/
theorem each_task {ok : World σ → WorldAct → Prop} {w₀ w : World σ} {Q : ℕ → Task → Prop}
    (fresh : w₀.Fresh) (reached : Reaches (World.step B ts s) ok w₀ w)
    (start : ∀ i request streaming, Q i { request, streaming, phase := .arrived })
    (kept : ∀ sh i t a sh' ph evs, taskStep B ts s i t sh a = some (sh', ph, evs) →
      Q i t → Q i { t with phase := ph }) :
    ∀ i t, w.tasks[i]? = some t → Q i t := by
  refine reached.invariant (I := fun w => Pool.Each Q w.tasks) ?_ ?_
  · rw [fresh.1]
    exact Pool.Each.nil _
  · intro w a w' each _ stepped
    cases a with
    | submit request streaming =>
        cases stepped
        exact each.spawn (start _ _ _) fun _ _ _ keeps => keeps
    | clock now mono =>
        cases stepped
        exact each
    | scale later =>
        cases stepped
        exact each
    | task i a =>
        obtain ⟨t, sh, ph, evs, here, made, rfl⟩ := task_of_step stepped
        exact each.step (kept _ _ _ _ _ _ _ made (each i t here)) fun _ _ _ _ keeps => keeps

/-- A step of request `i` adds nothing to the others' histories. -/
theorem Trans.history_eq_nil {i j : ℕ} {req : Request} {streaming : Bool} {sh sh' : Shared σ}
    {ph ph' : Phase} {a : TaskAct} {evs : List Event}
    (step : Trans B ts s i req streaming sh ph a sh' ph' evs) (ne : j ≠ i) :
    history j evs = [] :=
  LLMInference.history_eq_nil fun _ mem about => ne (step.eq_of_names mem about)

/-- Requests to come have no history. -/
theorem history_of_new {ok : World σ → WorldAct → Prop} {w₀ w : World σ} (fresh : w₀.Fresh)
    (reached : Reaches (World.step B ts s) ok w₀ w) :
    ∀ i, w.tasks.length ≤ i → history i w.log = [] := by
  refine reached.invariant (I := fun w => ∀ i, w.tasks.length ≤ i → history i w.log = []) ?_ ?_
  · intro i _
    rw [fresh.2]
    rfl
  · intro w a w' unnamed _ stepped
    cases worldTrans_of_step stepped with
    | submit =>
        intro i late
        apply unnamed i
        simp only [List.length_append, List.length_singleton] at late
        omega
    | clock => exact unnamed
    | scale _ => exact unnamed
    | task here step =>
        intro j late
        rw [List.length_set] at late
        have inside := (List.getElem?_eq_some_iff.mp here).1
        rw [history_append, unnamed j late, step.history_eq_nil (by omega)]
        rfl

/-- What the steps of request `i` keep about it and its history holds for the rest of the run. -/
theorem follow {ok : World σ → WorldAct → Prop} {w w' : World σ} {i : ℕ} {t : Task}
    {Q : Task → List Event → Prop} (here : w.tasks[i]? = some t)
    (later : Reaches (World.step B ts s) ok w w') (start : Q t (history i w.log))
    (kept : ∀ w₁ u a sh ph evs, Reaches (World.step B ts s) ok w w₁ → ok w₁ (.task i a) →
      w₁.tasks[i]? = some u → taskStep B ts s i u w₁.shared a = some (sh, ph, evs) →
      Q u (history i w₁.log) → Q { u with phase := ph } (history i w₁.log ++ history i evs)) :
    ∃ u, w'.tasks[i]? = some u ∧ Q u (history i w'.log) := by
  apply later.invariant_of (I := fun w => ∃ u, w.tasks[i]? = some u ∧ Q u (history i w.log))
  · exact ⟨t, here, start⟩
  · rintro w₁ a w₂ before ⟨u, there, holds⟩ allowed stepped
    cases a with
    | submit request streaming =>
        cases stepped
        exact ⟨u, Pool.get_old there _, holds⟩
    | clock now mono =>
        cases stepped
        exact ⟨u, there, holds⟩
    | scale later =>
        cases stepped
        exact ⟨u, there, holds⟩
    | task j a =>
        obtain ⟨v, sh, ph, evs, mover, made, rfl⟩ := task_of_step stepped
        by_cases mine : j = i
        · subst mine
          cases mover.symm.trans there
          refine ⟨_, Pool.get_set_self there _, ?_⟩
          rw [history_append]
          exact kept _ _ _ _ _ _ before allowed there made holds
        · refine ⟨u, (List.getElem?_set_ne mine).trans there, ?_⟩
          rw [history_append, (trans_of_taskStep made).history_eq_nil (Ne.symm mine), List.append_nil]
          exact holds

/-- The history of a request that is over does not change any more. -/
theorem history_of_gone {ok : World σ → WorldAct → Prop} {w w' : World σ} {i : ℕ} {t : Task}
    (here : w.tasks[i]? = some t) (gone : t.phase.gone = true)
    (later : Reaches (World.step B ts s) ok w w') : history i w'.log = history i w.log := by
  have still : ∃ u, w'.tasks[i]? = some u ∧
      u.phase.gone = true ∧ history i w'.log = history i w.log := by
    apply follow (Q := fun u h => u.phase.gone = true ∧ h = history i w.log) here later ⟨gone, rfl⟩
    rintro w₁ u a sh ph evs - - - made ⟨gone, -⟩
    cases (trans_of_taskStep made).running.symm.trans gone
  obtain ⟨u, -, -, same⟩ := still
  exact same

/-- A relation between a request and its own history that a new request has, and that the
request's own steps keep, holds of every request in every reached state. -/
theorem each_story {ok : World σ → WorldAct → Prop} {w₀ w : World σ}
    {Q : ℕ → Task → List Event → Prop} (fresh : w₀.Fresh)
    (reached : Reaches (World.step B ts s) ok w₀ w)
    (start : ∀ i request streaming, Q i { request, streaming, phase := .arrived } [])
    (kept : ∀ w i t a sh ph evs, Reaches (World.step B ts s) ok w₀ w → ok w (.task i a) →
      w.tasks[i]? = some t → taskStep B ts s i t w.shared a = some (sh, ph, evs) →
      Q i t (history i w.log) → Q i { t with phase := ph } (history i w.log ++ history i evs)) :
    ∀ i t, w.tasks[i]? = some t → Q i t (history i w.log) := by
  refine reached.invariant_of
    (I := fun w => Pool.Each (fun i t => Q i t (history i w.log)) w.tasks) ?_ ?_
  · rw [fresh.1]
    exact Pool.Each.nil _
  · intro w a w' before each allowed stepped
    cases a with
    | submit request streaming =>
        cases stepped
        refine each.spawn ?_ fun _ _ _ keeps => keeps
        rw [history_of_new fresh before _ le_rfl]
        exact start _ _ _
    | clock now mono =>
        cases stepped
        exact each
    | scale later =>
        cases stepped
        exact each
    | task i a =>
        obtain ⟨t, sh, ph, evs, here, made, rfl⟩ := task_of_step stepped
        refine each.step ?_ ?_
        · rw [history_append]
          exact kept _ _ _ _ _ _ _ before allowed here made (each _ _ here)
        · intro j u ne _ keeps
          rw [history_append, (trans_of_taskStep made).history_eq_nil ne, List.append_nil]
          exact keeps

/-- The same, with the step given by its case. -/
theorem each_history {ok : World σ → WorldAct → Prop} {w₀ w : World σ}
    {Q : ℕ → Task → List Event → Prop} (fresh : w₀.Fresh)
    (reached : Reaches (World.step B ts s) ok w₀ w)
    (start : ∀ i request streaming, Q i { request, streaming, phase := .arrived } [])
    (kept : ∀ w i t a sh ph evs, Reaches (World.step B ts s) ok w₀ w → ok w (.task i a) →
      w.tasks[i]? = some t →
      Trans B ts s i t.request t.streaming w.shared t.phase a sh ph evs →
      Q i t (history i w.log) → Q i { t with phase := ph } (history i w.log ++ history i evs)) :
    ∀ i t, w.tasks[i]? = some t → Q i t (history i w.log) := by
  exact each_story fresh reached start fun w i t a sh ph evs before allowed here made =>
    kept w i t a sh ph evs before allowed here (trans_of_taskStep made)

end Steps

/-- One replica of concurrency one, and nothing in front of the gate: the settings of the
concrete runs below. -/
def oneSlot : Settings :=
  { targetConcurrencyPerReplica := 1, cacheEnabled := false, rateLimitEnabled := false }

/-- The same with the response cache, so that a request suspends after its settle. -/
def oneSlotCached : Settings := { oneSlot with cacheEnabled := true }

/-- The request is charged and is writing its answer to the cache. -/
def cachingActs : List WorldAct :=
  [.submit { prompt := "hi", userId := "u" } false,
    .task 0 (.run .none), .task 0 (.run .none), .task 0 (.run .none), .task 0 (.run .none),
    .task 0 (.run .none),
    .task 0 (.answer (.completion { text := "yo", inputTokens := 1, outputTokens := 1 })),
    .task 0 (.run .none)]

end LLMInference
