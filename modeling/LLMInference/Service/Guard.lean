import LLMInference.Cost.Memory
import LLMInference.Service.History

/-!
Whether the circuit breaker guards every call of a provider (`app/service.py`,
`app/breaker.py`).

`Event.Guarded` is what the breaker should see of an event: a call was admitted by the
model's breaker, which was not open with its recovery time still running, and a server fault
was counted. `handle` asks the breaker in its failover loop; `handle_stream` never does.

* `Trans.guards`: which events of a step are guarded.
* `guarded_iff_buffered`: in every reached state every call and every fault so far was guarded
  exactly when no streamed request has called its provider.
-/

namespace LLMInference

open Runs

/-- A call was admitted, a fault is counted. -/
def Event.Guarded : Event → Prop
  | .invoked _ _ asked breaker now => asked = some true ∧ ¬ breaker.Shut now
  | .faulted _ _ before after => after = before + 1
  | _ => True

/-- Neither a call nor a fault. -/
def Event.quiet : Event → Bool
  | .invoked .. | .faulted .. => false
  | _ => true

/-- A provider was called. -/
def Called (h : List Event) : Prop :=
  ∃ i model asked breaker now, .invoked i model asked breaker now ∈ h

/-- What the phase says of the path a request is on, and of its calls so far. -/
def OnPath (t : Task) (h : List Event) : Prop :=
  match t.phase with
  | .attempting .. | .generating .. => t.streaming = false
  | .yielded _ .start => t.streaming = true
  | .yielded .. | .pulling _ => t.streaming = true ∧ Called h
  | _ => True

/-- A stream begins unguarded, and stays so. -/
structure GuardStory (t : Task) (h : List Event) : Prop where
  path : OnPath t h
  guarded : (∀ e ∈ h, e.Guarded) ↔ (t.streaming = true → ¬ Called h)

section Steps

variable {σ : Type} {B : LedgerBackend σ} {ts : TextSupport} {s : Settings} {i : ℕ} {t : Task}
  {h : List Event} {sh sh' : Shared σ} {ph' : Phase} {a : TaskAct} {evs : List Event}

theorem Called.append (called : Called h) (evs : List Event) : Called (h ++ evs) := by
  obtain ⟨i, model, asked, breaker, now, mem⟩ := called
  exact ⟨i, model, asked, breaker, now, List.mem_append_left _ mem⟩

theorem guarded_of_quiet (quiet : evs.all Event.quiet = true) : ∀ e ∈ evs, e.Guarded := by
  intro e mem
  have still := List.all_eq_true.mp quiet e mem
  cases e with
  | invoked _ _ _ _ _ | faulted _ _ _ _ => cases still
  | _ => trivial

theorem uncalled_of_quiet (quiet : evs.all Event.quiet = true) : ¬ Called evs := by
  rintro ⟨i, model, asked, breaker, now, mem⟩
  cases List.all_eq_true.mp quiet _ mem

theorem quiet_settleEvents (i : ℕ) (r : Reservation) (c : Charge) (now : ℚ) (f : LedgerFault) :
    (settleEvents i r c now f).all Event.quiet = true := by
  unfold settleEvents
  split <;> rfl

theorem quiet_releaseEvents (i : ℕ) (r : Reservation) (f : LedgerFault) :
    (releaseEvents i r f).all Event.quiet = true := by
  unfold releaseEvents
  split <;> rfl

/-- What a breaker admits is not shut. -/
theorem not_shut_of_allows {b : CircuitBreaker} {now : ℚ} (yes : (b.allows now).1 = true) :
    ¬ b.Shut now :=
  fun shut => Bool.noConfusion ((CircuitBreaker.allows_of_shut shut).symm.trans yes)

/-- A step records guarded events only and, if streamed, no call; or it is the call of a
stream, or a fault of one that has called. -/
theorem Trans.guards (step : Trans B ts s i t.request t.streaming sh t.phase a sh' ph' evs)
    (path : OnPath t h) :
    ((∀ e ∈ evs, e.Guarded) ∧ (t.streaming = true → ¬ Called evs)) ∨
      (t.streaming = true ∧ ∃ model breaker now, evs = [.invoked i model none breaker now]) ∨
      (t.streaming = true ∧ Called h ∧ ¬ Called evs) := by
  obtain ⟨req, streaming, ph⟩ := t
  simp only at step
  have calm : ∀ {es : List Event}, es.all Event.quiet = true →
      ((∀ e ∈ es, e.Guarded) ∧ (streaming = true → ¬ Called es)) ∨
        (streaming = true ∧ ∃ model breaker now, es = [.invoked i model none breaker now]) ∨
        (streaming = true ∧ Called h ∧ ¬ Called es) :=
    fun quiet => .inl ⟨guarded_of_quiet quiet, fun _ => uncalled_of_quiet quiet⟩
  cases step
  case allowed yes =>
    refine .inl ⟨?_, ?_⟩
    · simp [Event.Guarded, not_shut_of_allows yes]
    · exact fun streamed => Bool.noConfusion (path.symm.trans streamed)
  case begin => exact .inr (.inl ⟨path, _, _, _, rfl⟩)
  case streamFault => exact .inr (.inr ⟨path.1, path.2, by simp [Called]⟩)
  case faultNext | faultRaise =>
    refine .inl ⟨?_, fun _ => by simp [Called]⟩
    simp [Event.Guarded, CircuitBreaker.consecutiveFailures_recordFailure]
  case granted | refused | cancelReserve =>
    apply calm
    split <;> rfl
  case settleRaise | settleCache | settleReturn | finalizeStore | finalizeClose | cancelSettle =>
    apply calm
    simp [quiet_settleEvents, Event.quiet]
  case finishShed | refund | refundRaise | cancelShed | cancelRefund =>
    apply calm
    simp [quiet_releaseEvents, Event.quiet]
  all_goals exact calm rfl

/-- The phases keep to the path. -/
theorem Trans.path (step : Trans B ts s i t.request t.streaming sh t.phase a sh' ph' evs)
    (path : OnPath t h) : OnPath { t with phase := ph' } (h ++ history i evs) := by
  obtain ⟨req, streaming, ph⟩ := t
  simp only at step
  cases step
  case enterBuffered buffered _ => exact buffered
  case enterStreamed streamed _ => exact streamed
  case allowed | deniedNext | faultNext => exact path
  case begin =>
    exact ⟨path, i, _, _, _, _,
      List.mem_append_right _ (mem_history.mpr ⟨List.mem_singleton_self _, rfl⟩)⟩
  case resume | chunkText | chunkEmpty | exhausted | streamFault | streamOther =>
    exact ⟨path.1, path.2.append _⟩
  all_goals exact trivial

theorem GuardStory.step (story : GuardStory t h)
    (step : Trans B ts s i t.request t.streaming sh t.phase a sh' ph' evs) :
    GuardStory { t with phase := ph' } (h ++ history i evs) := by
  obtain ⟨path, guarded⟩ := story
  refine ⟨step.path path, ?_⟩
  have own : ∀ e ∈ history i evs, e ∈ evs := fun e mem => (mem_history.mp mem).1
  rcases step.guards path with ⟨safe, silent⟩ | ⟨streamed, model, breaker, now, rfl⟩ |
    ⟨streamed, called, -⟩
  · constructor
    · intro all streamed called
      have before := guarded.mp (fun e mem => all e (List.mem_append_left _ mem)) streamed
      obtain ⟨j, model, asked, breaker, now, mem⟩ := called
      rcases List.mem_append.mp mem with old | new
      · exact before ⟨j, model, asked, breaker, now, old⟩
      · exact silent streamed ⟨j, model, asked, breaker, now, own _ new⟩
    · intro uncalled e mem
      rcases List.mem_append.mp mem with old | new
      · exact guarded.mpr (fun streamed called => uncalled streamed (called.append _)) e old
      · exact safe e (own e new)
  · have mem : Event.invoked i model none breaker now ∈
        h ++ history i [.invoked i model none breaker now] :=
      List.mem_append_right _ (mem_history.mpr ⟨List.mem_singleton_self _, rfl⟩)
    refine iff_of_false ?_ ?_
    · exact fun all => by cases (all _ mem).1
    · exact fun uncalled => uncalled streamed ⟨i, model, none, breaker, now, mem⟩
  · refine iff_of_false ?_ ?_
    · intro all
      exact guarded.mp (fun e mem => all e (List.mem_append_left _ mem)) streamed called
    · exact fun uncalled => uncalled streamed (called.append _)

/-- In every reached state all provider calls so far were admitted by their model's breaker,
none of them while it was open and recovering, and all server faults so far were counted,
exactly when no streamed request has called its provider. -/
theorem guarded_iff_buffered (B : LedgerBackend σ) (ts : TextSupport) (s : Settings) (ledger : σ)
    {w : World σ} (reached : Reaches (World.step B ts s) Always (World.start s ledger) w) :
    (∀ e ∈ w.log, e.Guarded) ↔
      ∀ i t, w.tasks[i]? = some t → t.streaming = true → ¬ Called (history i w.log) := by
  have stories : ∀ i t, w.tasks[i]? = some t → GuardStory t (history i w.log) := by
    refine each_history (Q := fun _ t h => GuardStory t h) ⟨rfl, rfl⟩ reached ?_ ?_
    · exact fun _ _ _ => ⟨trivial, iff_of_true (List.forall_mem_nil _) fun _ => by simp [Called]⟩
    · exact fun _ _ _ _ _ _ _ _ _ _ step story => story.step step
  constructor
  · intro all i t here
    exact (stories i t here).guarded.mp fun e mem => all e (mem_history.mp mem).1
  · intro uncalled e mem
    cases about : e.request with
    | none =>
        cases e with
        | pruned => trivial
        | _ => cases about
    | some i =>
        have mine : e ∈ history i w.log := mem_history.mpr ⟨mem, about⟩
        cases here : w.tasks[i]? with
        | none =>
            rw [history_of_new ⟨rfl, rfl⟩ reached i (List.getElem?_eq_none_iff.mp here)] at mine
            cases mine
        | some t => exact (stories i t here).guarded.mpr (uncalled i t here) e mine

end Steps

/-! ### One fault, and a stream behind it -/

/-- A breaker that opens at the first fault, and no failover. -/
def strict : Settings := { oneSlot with breakerFailureThreshold := 1, fallbackEnabled := false }

/-- A buffered request meets a server fault. -/
def faultActs : List WorldAct :=
  [.submit { prompt := "hi", userId := "u" } false,
    .task 0 (.run .none), .task 0 (.run .none), .task 0 (.run .none), .task 0 (.run .none),
    .task 0 (.answer (.failure (.unavailable "down"))), .task 0 (.run .none)]

/-- A stream begins one second later. -/
def streamActs : List WorldAct :=
  [.clock 1 1, .submit { prompt := "hi", userId := "v" } true,
    .task 1 (.run .none), .task 1 (.run .none), .task 1 (.run .none), .task 1 .next]

theorem guarded_after_fault :
    ∃ w, Reaches (World.step Ledger.backend .ascii strict) Always (World.start strict {}) w ∧
      (w.shared.breakers.get "small").Shut 1 ∧ ∀ e ∈ w.log, e.Guarded := by
  have holds : execHolds (World.step Ledger.backend .ascii strict) Always (World.start strict {})
      faultActs (fun w => decide ((w.shared.breakers.get "small").Shut 1 ∧
        ∀ t ∈ w.tasks, t.streaming = false)) = true := by
    decide +kernel
  obtain ⟨w, reached, good⟩ := exists_reaches_of_execHolds _ _ holds
  obtain ⟨shut, buffered⟩ := of_decide_eq_true good
  refine ⟨w, reached, shut, (guarded_iff_buffered Ledger.backend .ascii strict {} reached).mpr ?_⟩
  intro i t here streamed
  cases (buffered t (List.mem_of_getElem? here)).symm.trans streamed

/-- Request `i` calls the provider, unasked, while its breaker is shut. -/
def Event.blindCall (i : ℕ) (name : String) : Event → Bool
  | .invoked j provider none breaker now =>
      decide (j = i ∧ provider = name ∧ breaker.Shut now)
  | _ => false

/-- A stream calls a provider whose breaker is open and has not recovered: nobody asked it. -/
theorem stream_ignores_the_breaker :
    ∃ w, Reaches (World.step Ledger.backend .ascii strict) Always (World.start strict {}) w ∧
      ∃ breaker now, .invoked 1 "small" none breaker now ∈ w.log ∧ breaker.Shut now := by
  have holds : execHolds (World.step Ledger.backend .ascii strict) Always (World.start strict {})
      (faultActs ++ streamActs) (fun w => w.log.any (Event.blindCall 1 "small")) = true := by
    decide +kernel
  obtain ⟨w, reached, good⟩ := exists_reaches_of_execHolds _ _ holds
  obtain ⟨e, mem, call⟩ := List.any_eq_true.mp good
  unfold Event.blindCall at call
  split at call
  · rename_i breaker now
    obtain ⟨rfl, rfl, shut⟩ := of_decide_eq_true call
    exact ⟨w, reached, breaker, now, mem, shut⟩
  · cases call

end LLMInference
