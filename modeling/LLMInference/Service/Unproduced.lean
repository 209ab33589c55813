import LLMInference.Service.Budget

/-!
A generation that raised before it delivered anything (`app/service.py`).

`handle` releases the hold of a generation that failed. The finalizer of a stream settles however
the stream ended: without a reported usage it settles the projected input tokens and what was
delivered. So a stream that fails before its first chunk is charged for its prompt.

* `Ledger.FreeOf`: nothing that counts is held under an identifier.
* `Trans.others`: a step of a request leaves what counts for the others alone.
* `unproduced_is_free_iff`: which failed generations are free.
-/

namespace LLMInference

open Runs

namespace Ledger

/-- The ledger without what it holds under `id`. -/
def without (l : Ledger) (id : ℕ) : Ledger :=
  { l with spend := fun u => (l.spend u).filter fun e => decide (e.entryId ≠ id) }

/-- `spent` reports of the user what it would report without the reservation. -/
def FreeOf (l : Ledger) (id : ℕ) (u : String) (now : ℚ) : Prop :=
  (l.spent u now).1 = ((l.without id).spent u now).1

/-- The entries of a user that count at `now`, but for those under `id`. -/
def others (l : Ledger) (id : ℕ) (u : String) (now : ℚ) : List Entry :=
  (l.inWindow u now).filter fun e => decide (e.entryId ≠ id)

section Others

variable {l : Ledger} {r : Reservation} {c : Charge} {id : ℕ} {u : String} {now : ℚ}

theorem inWindow_without : (l.without id).inWindow u now = l.others id u now := by
  unfold others inWindow without
  rw [List.filter_filter, List.filter_filter]
  apply List.filter_congr
  intro e _
  exact Bool.and_comm ..

theorem freeOf_iff :
    l.FreeOf id u now ↔ amounts (l.inWindow u now) = amounts (l.others id u now) := by
  rw [FreeOf, spent, spent, inWindow_without]

theorem others_eq_inWindow (absent : ∀ e ∈ l.spend u, e.entryId ≠ id) :
    l.others id u now = l.inWindow u now := by
  apply List.filter_eq_self.mpr
  intro e mem
  exact decide_eq_true (absent e (List.mem_filter.mp mem).1)

theorem others_prune (pruned : String) :
    (l.prune pruned now).others id u now = l.others id u now := by
  rw [others, inWindow_prune pruned u le_rfl, others]

theorem others_held (e : Entry) (userId : String) (mine : e.entryId = id) :
    (l.setSpend userId (l.inWindow userId now ++ [e])).others id u now = l.others id u now := by
  unfold others
  by_cases own : u = userId
  · subst own
    have gone : ([e].filter (l.young now)).filter (fun e => decide (e.entryId ≠ id)) = [] := by
      apply List.filter_eq_nil_iff.mpr
      intro x mem
      rw [List.mem_singleton.mp (List.mem_filter.mp mem).1, decide_eq_true_eq]
      exact fun other => other mine
    rw [inWindow_held e le_rfl, List.filter_append, gone, List.append_nil]
  · rw [inWindow_setSpend_ne own]

theorem others_settle (opened : r.closed = false)
    (distinct : ((l.spend r.userId).map (·.entryId)).Nodup) :
    (l.settle r c now).2.others r.id u now = l.others r.id u now := by
  unfold others
  by_cases own : u = r.userId
  · subst own
    have gone : ([({ timestamp := now, amount := c.cost, entryId := r.id } : Entry)].filter
        (l.young now)).filter (fun e => decide (e.entryId ≠ r.id)) = [] := by
      apply List.filter_eq_nil_iff.mpr
      intro x mem
      rw [List.mem_singleton.mp (List.mem_filter.mp mem).1, decide_eq_true_eq]
      exact fun other => other rfl
    rw [inWindow_settle opened distinct, List.filter_append, gone, List.append_nil,
      List.filter_filter]
    simp only [Bool.and_self]
  · rw [inWindow_settle_ne own]

theorem others_release (opened : r.closed = false)
    (distinct : ((l.spend r.userId).map (·.entryId)).Nodup) :
    (l.release r).2.others r.id u now = l.others r.id u now := by
  unfold others
  by_cases own : u = r.userId
  · subst own
    rw [inWindow_release opened distinct, List.filter_filter]
    simp only [Bool.and_self]
  · rw [inWindow_release_ne own]

/-- After a release nothing is held under the reservation. -/
theorem freeOf_release (opened : r.closed = false)
    (distinct : ((l.spend r.userId).map (·.entryId)).Nodup) :
    (l.release r).2.FreeOf r.id r.userId now := by
  rw [freeOf_iff, others_release opened distinct, inWindow_release opened distinct]
  rfl

/-- After a settle the charge is. -/
theorem freeOf_settle_iff (opened : r.closed = false)
    (distinct : ((l.spend r.userId).map (·.entryId)).Nodup) :
    (l.settle r c now).2.FreeOf r.id r.userId now ↔ c.cost = 0 ∨ l.windowSeconds < 0 := by
  have counted : amounts ([({ timestamp := now, amount := c.cost, entryId := r.id } : Entry)].filter
      (l.young now)) = 0 ↔ c.cost = 0 ∨ l.windowSeconds < 0 := by
    by_cases young : now - l.windowSeconds ≤ now
    · have window : ¬ l.windowSeconds < 0 := not_lt.mpr (by linarith)
      rw [List.filter_singleton, Ledger.young, decide_eq_true young, cond_true, amounts_singleton,
        or_iff_left window]
    · have window : l.windowSeconds < 0 := by linarith
      rw [List.filter_singleton, Ledger.young, decide_eq_false young]
      exact iff_of_true rfl (.inr window)
  rw [freeOf_iff, others_settle opened distinct, inWindow_settle opened distinct, amounts_append,
    ← counted]
  exact add_eq_left

end Others

end Ledger

namespace Phase

/-- The provider has just raised and nothing was delivered before; `due` is what the request is
going to settle. -/
inductive Barren : Phase → ℚ → Prop
  | buffered {r : Reservation} {e : GenerateError} : Barren (.refunding r (.generation e)) 0
  | streamed {st : StreamState} {f : ProviderFailure} (pieces : st.pieces = [])
      (usage : st.usage = none) :
      Barren (.yielded st (.error f)) (st.decision.model.cost st.decision.inputTokens 0)

/-- On the way from there to the end of the request. -/
inductive Fruitless : Phase → ℚ → Prop
  | barren {ph : Phase} {due : ℚ} (barren : ph.Barren due) : Fruitless ph due
  | finalizing {fin : Finalizer} {x : Exit} (text : fin.text = none) :
      Fruitless (.finalizing fin x) (chargeFor fin.decision.model fin.usage).cost

/-- The hold of a generation is open; a stream that awaits a chunk has not completed. -/
def Pending : Phase → Prop
  | .granted _ r | .queued _ r | .attempting r _ | .generating r _ | .refunding r (.generation _) =>
      r.closed = false
  | .pulling st | .yielded st .start | .yielded st .delta | .yielded st (.error _) =>
      st.completed = false
  | _ => True

end Phase

section Steps

variable {ts : TextSupport} {s : Settings} {i : ℕ} {t : Task} {req : Request} {streaming : Bool}
  {ph ph' : Phase} {a : TaskAct} {evs : List Event} {due : ℚ}

theorem Trans.pending {σ : Type} {B : LedgerBackend σ} {sh sh' : Shared σ}
    (step : Trans B ts s i req streaming sh ph a sh' ph' evs) (pending : ph.Pending) :
    ph'.Pending := by
  cases step with
  | granted _ reserved =>
      cases B.reserve_ok reserved
      rfl
  | enterBuffered entering _ =>
      cases entering with
      | atOnce _ | woken _ _ => exact pending
  | enterStreamed entering _ => rfl
  | _ => first | exact pending | exact trivial

variable {sh sh' : Shared Ledger}

/-- A stream that has produced nothing leaves the finalizer the projected input to settle, and
nothing to store. -/
theorem StreamState.fruitless_finalize (ts : TextSupport) (s : Settings) {st : StreamState}
    (pieces : st.pieces = []) (usage : st.usage = none) (completed : st.completed = false)
    (x : Exit) : Phase.Fruitless (.finalizing (st.finalize ts s) x)
      (st.decision.model.cost st.decision.inputTokens 0) := by
  have text : (st.finalize ts s).text = none := by
    rw [finalize, completed]
    rfl
  have used : (st.finalize ts s).usage =
      { inputTokens := st.decision.inputTokens, outputTokens := 0 } := by
    simp [finalize, finalUsage, pieces, usage, countTokens]
  have settles := Phase.Fruitless.finalizing (x := x) text
  rw [used] at settles
  exact settles

/-- A fruitless request stays so until it is over. -/
theorem Phase.Fruitless.next (fruitless : t.phase.Fruitless due) (pending : t.phase.Pending)
    (made : taskStep Ledger.backend ts s i t sh a = some (sh', ph', evs)) :
    ph'.Fruitless due ∨ ph'.gone = true := by
  have step := trans_of_taskStep made
  generalize phase : t.phase = ph at step fruitless pending
  cases fruitless with
  | barren barren =>
      cases barren with
      | buffered =>
          cases step with
          | refundRaise _ _ | refund _ _ | cancelRefund _ => exact .inr rfl
          | enterBuffered entering _ | enterStreamed entering _ => cases entering
          | exit exiting => cases exiting
          | quit quiet => cases quiet
      | streamed pieces usage =>
          cases step with
          | exit exiting =>
              cases exiting with
              | failed | closed =>
                  exact .inl (StreamState.fruitless_finalize ts s pieces usage pending _)
          | enterBuffered entering _ | enterStreamed entering _ => cases entering
          | quit quiet => cases quiet
  | finalizing text =>
      cases step with
      | finalizeStore _ _ =>
          have stored := text_of_storing made
          cases text ▸ stored
      | finalizeClose _ _ => exact .inr rfl
      | enterBuffered entering _ | enterStreamed entering _ => cases entering
      | exit exiting => cases exiting
      | quit quiet => cases quiet

/-- What the last step of a fruitless request leaves under its reservation. -/
theorem Phase.Fruitless.last {log : List Event} (fruitless : t.phase.Fruitless due)
    (pending : t.phase.Pending) (books : Books False i t (history i log))
    (kept : Kept sh.ledger log)
    (step : Trans Ledger.backend ts s i t.request t.streaming sh t.phase a sh' ph' evs)
    (gone : ph'.gone = true) :
    sh'.ledger.FreeOf i t.request.userId sh.now ↔ due = 0 ∨ sh.ledger.windowSeconds < 0 := by
  have released : ∀ {r}, Releasing t.phase r → r.closed = false →
      sh'.ledger = (sh.ledger.release r).2 → sh'.ledger.FreeOf i t.request.userId sh.now := by
    intro r releasing opened ledger
    obtain ⟨ks, held⟩ := releasing.held opened books
    rw [ledger, ← held.id, ← held.user]
    exact Ledger.freeOf_release opened (kept.distinct _)
  have settled : ∀ {r c}, Settling t.phase r c → sh'.ledger = (sh.ledger.settle r c sh.now).2 →
      (sh'.ledger.FreeOf i t.request.userId sh.now ↔
        c.cost = 0 ∨ sh.ledger.windowSeconds < 0) := by
    intro r c settling ledger
    obtain ⟨ks, held⟩ := settling.held books
    rw [ledger, ← held.id, ← held.user]
    exact Ledger.freeOf_settle_iff held.opened (kept.distinct _)
  generalize phase : t.phase = ph at step fruitless pending released settled
  cases fruitless with
  | barren barren =>
      cases barren with
      | buffered =>
          cases step with
          | refundRaise admits refund | refund admits refund =>
              cases eq_none_of_admits admits
              have ledger := congrArg (fun out => out.2.2) refund.symm
              exact iff_of_true (released .failed pending ledger) (.inl rfl)
          | cancelRefund networked => cases networked
          | enterBuffered entering _ | enterStreamed entering _ => cases entering
          | exit exiting => cases exiting
          | quit quiet => cases quiet
      | streamed pieces usage =>
          cases step with
          | exit exiting => cases gone
          | enterBuffered entering _ | enterStreamed entering _ => cases entering
          | quit quiet => cases quiet
  | finalizing text =>
      cases step with
      | finalizeStore _ _ => cases gone
      | finalizeClose admits bill =>
          cases eq_none_of_admits admits
          have ledger := congrArg (fun out => out.2.2) bill.symm
          exact settled .streamed ledger
      | enterBuffered entering _ | enterStreamed entering _ => cases entering
      | exit exiting => cases exiting
      | quit quiet => cases quiet

/-- A step of request `i` leaves what counts for the others alone. -/
theorem Trans.others {log : List Event} (books : Books False i t (history i log))
    (kept : Kept sh.ledger log)
    (step : Trans Ledger.backend ts s i t.request t.streaming sh t.phase a sh' ph' evs) (u : String) :
    sh'.ledger.others i u sh.now = sh.ledger.others i u sh.now := by
  cases step.ledger_cases with
  | same ledger quiet => rw [ledger]
  | refused ledger =>
      rw [ledger]
      exact Ledger.others_prune _
  | held reserving fits ledger =>
      rw [ledger]
      exact Ledger.others_held _ _ rfl
  | charged settling opened ledger quiet =>
      obtain ⟨ks, held⟩ := settling.held books
      rw [ledger, ← held.id]
      exact Ledger.others_settle opened (kept.distinct _)
  | refunded releasing opened ledger quiet =>
      obtain ⟨ks, held⟩ := releasing.held opened books
      rw [ledger, ← held.id]
      exact Ledger.others_release opened (kept.distinct _)

theorem LedgerMove.window {l l' : Ledger} {now : ℚ} (move : LedgerMove s i req now l l' ph evs) :
    l'.windowSeconds = l.windowSeconds := by
  cases move with
  | same ledger quiet => rw [ledger]
  | refused ledger => rw [ledger, Ledger.prune, Ledger.setSpend_windowSeconds]
  | held reserving fits ledger => rw [ledger, Ledger.setSpend_windowSeconds]
  | charged settling opened ledger quiet =>
      rw [ledger, Ledger.settle]
      split <;> rfl
  | refunded releasing opened ledger quiet =>
      rw [ledger, Ledger.release]
      split <;> rfl

end Steps

/-! ### Whole runs -/

/-- Only request `i` runs. -/
def World.Alone {σ : Type} (i : ℕ) (_ : World σ) : WorldAct → Prop
  | .task j _ => j = i
  | _ => False

section Runs

variable {ts : TextSupport} {s : Settings} {i : ℕ} {t : Task} {w w₀ w₁ w₂ w₃ : World Ledger}
  {a : TaskAct} {due windowSeconds : ℚ} {ok : World Ledger → WorldAct → Prop}

theorem pending_of_reaches {σ : Type} {B : LedgerBackend σ} {w₀ w : World σ}
    {ok : World σ → WorldAct → Prop} (fresh : w₀.Fresh)
    (reached : Reaches (World.step B ts s) ok w₀ w) (here : w.tasks[i]? = some t) :
    t.phase.Pending := by
  refine each_task (Q := fun _ t => t.phase.Pending) fresh reached ?_ ?_ i t here
  · exact fun _ _ _ => trivial
  · exact fun _ _ _ _ _ _ _ made pending => (trans_of_taskStep made).pending pending

theorem window_of_reaches (reached : Reaches (World.step Ledger.backend ts s) ok
    (World.start s { windowSeconds }) w) : w.shared.ledger.windowSeconds = windowSeconds := by
  apply reached.invariant (I := fun w => w.shared.ledger.windowSeconds = windowSeconds) rfl
  intro w a w' window _ stepped
  cases worldTrans_of_step stepped with
  | submit | clock | scale _ => exact window
  | task here step => exact step.ledger_cases.window.trans window

/-- A fruitless request stays so until it is over. -/
theorem fruitless_of_reaches (reached : Reaches (World.step Ledger.backend ts s) Always
      (World.start s { windowSeconds }) w₁) (here : w₁.tasks[i]? = some t)
    (fruitless : t.phase.Fruitless due)
    (later : Reaches (World.step Ledger.backend ts s) Always w₁ w₂) :
    ∃ t₂, w₂.tasks[i]? = some t₂ ∧ (t₂.phase.Fruitless due ∨ t₂.phase.gone = true) := by
  apply follow (Q := fun u _ => u.phase.Fruitless due ∨ u.phase.gone = true) here later
    (.inl fruitless)
  rintro w u a sh ph evs before - there made (fruitless | gone)
  · exact fruitless.next (pending_of_reaches ⟨rfl, rfl⟩ (reached.trans before) there) made
  · cases (trans_of_taskStep made).running.symm.trans gone

/-- While only request `i` runs, time stands still and what counts for the others stays. -/
theorem others_of_alone (reached : Reaches (World.step Ledger.backend ts s) Always
      (World.start s { windowSeconds }) w₁)
    (alone : Reaches (World.step Ledger.backend ts s) (World.Alone i) w₁ w₂) :
    w₂.shared.now = w₁.shared.now ∧ ∀ u, w₂.shared.ledger.others i u w₁.shared.now =
      w₁.shared.ledger.others i u w₁.shared.now := by
  apply alone.invariant_of (I := fun w => w.shared.now = w₁.shared.now ∧
    ∀ u, w.shared.ledger.others i u w₁.shared.now = w₁.shared.ledger.others i u w₁.shared.now)
  · exact ⟨rfl, fun _ => rfl⟩
  · rintro w a w' before ⟨now, same⟩ mine stepped
    have whole := reached.trans (before.weaken fun _ _ _ => trivial)
    cases worldTrans_of_step stepped with
    | submit | clock | scale _ => cases mine
    | task here step =>
        cases mine
        have books : Books False _ _ (history _ _) :=
          books_of_reaches whole (fun none => none.elim) _ _ here
        refine ⟨step.now.trans now, fun u => ?_⟩
        have kept := step.others books (kept_of_reaches whole) u
        rw [now] at kept
        exact kept.trans (same u)

/-- No entry has the number of a request to come. -/
theorem absent_of_new (reached : Reaches (World.step Ledger.backend ts s) ok
      (World.start s { windowSeconds }) w) (u : String) :
    ∀ e ∈ w.shared.ledger.spend u, e.entryId ≠ w.tasks.length := by
  rintro e mem new
  have none := history_of_new ⟨rfl, rfl⟩ reached _ le_rfl
  rw [← new] at none
  rcases (kept_of_reaches reached).entries u e mem with ⟨r, granted, -⟩ | ⟨c, now, settled, -⟩
  · have some : .granted e.entryId r ∈ history e.entryId w.log := mem_history.mpr ⟨granted, rfl⟩
    rw [none] at some
    cases some
  · have some : .settled e.entryId u c now ∈ history e.entryId w.log :=
      mem_history.mpr ⟨settled, rfl⟩
    rw [none] at some
    cases some

/-- When a request whose provider raised before it delivered anything is over, its user's spent
total is what it would be without the request exactly if the finalizer had nothing to charge for
the prompt (or the window is empty). If only the request ran since it was submitted, that is the
total it found. -/
theorem unproduced_is_free_iff (ts : TextSupport) (s : Settings) (windowSeconds : ℚ)
    (reached : Reaches (World.step Ledger.backend ts s) Always (World.start s { windowSeconds }) w₁)
    (here : w₁.tasks[i]? = some t) (barren : t.phase.Barren due)
    (later : Reaches (World.step Ledger.backend ts s) Always w₁ w₂)
    (stepped : World.step Ledger.backend ts s w₂ (.task i a) = some w₃) {u : Task}
    (there : w₃.tasks[i]? = some u) (gone : u.phase.gone = true) :
    (w₃.shared.ledger.FreeOf i u.request.userId w₃.shared.now ↔ due = 0 ∨ windowSeconds < 0) ∧
      ∀ w₀ w request streaming,
        Reaches (World.step Ledger.backend ts s) Always (World.start s { windowSeconds }) w₀ →
        w₀.tasks.length = i → World.step Ledger.backend ts s w₀ (.submit request streaming) = some w →
        Reaches (World.step Ledger.backend ts s) (World.Alone i) w w₃ →
        ((w₃.shared.ledger.spent u.request.userId w₃.shared.now).1 =
            (w₀.shared.ledger.spent u.request.userId w₀.shared.now).1 ↔
          due = 0 ∨ windowSeconds < 0) := by
  have free : w₃.shared.ledger.FreeOf i u.request.userId w₃.shared.now ↔
      due = 0 ∨ windowSeconds < 0 := by
    obtain ⟨t₂, held, still⟩ := fruitless_of_reaches reached here (.barren barren) later
    have whole := reached.trans later
    obtain ⟨t', sh, ph, evs, found, made, rfl⟩ := task_of_step stepped
    cases found.symm.trans held
    cases (Pool.get_set_self held _).symm.trans there
    have step := trans_of_taskStep made
    rcases still with fruitless | done
    · have pending := pending_of_reaches ⟨rfl, rfl⟩ whole held
      have last := fruitless.last pending (books_of_reaches whole (fun none => none.elim) _ _ held)
        (kept_of_reaches whole) step gone
      rw [window_of_reaches whole, ← step.now] at last
      exact last
    · cases step.running.symm.trans done
  refine ⟨free, ?_⟩
  intro w₀ w request streaming before rfl submitted alone
  cases submitted
  have start := before.tail (a := .submit request streaming) trivial rfl
  obtain ⟨now, others⟩ := others_of_alone start alone
  rw [← free, Ledger.freeOf_iff, now, others]
  have absent : w₀.shared.ledger.others w₀.tasks.length u.request.userId w₀.shared.now =
      w₀.shared.ledger.inWindow u.request.userId w₀.shared.now :=
    Ledger.others_eq_inWindow (absent_of_new before u.request.userId)
  show _ ↔ _ = amounts (w₀.shared.ledger.others _ _ _)
  rw [absent]
  rfl

end Runs

/-! ### A failure before the first chunk -/

/-- The provider rejects the call of the only request. -/
def rejectedActs (streaming : Bool) : List WorldAct :=
  [.submit { prompt := "hi", userId := "u" } streaming, .task 0 (.run .none), .task 0 (.run .none),
    .task 0 (.run .none)] ++
  (if streaming then
    [.task 0 .next, .task 0 (.streamError (.timeout "slow"))]
  else [.task 0 (.run .none), .task 0 (.answer (.failure (.other "BadRequest" "no")))])

theorem unproduced_is_free_iff_buffered :
    ∃ w u, Reaches (World.step Ledger.backend .ascii oneSlot) Always (World.start oneSlot {}) w ∧
      w.tasks[0]? = some u ∧ u.phase.gone = true ∧
      w.shared.ledger.FreeOf 0 u.request.userId w.shared.now := by
  have holds : execHolds (World.step Ledger.backend .ascii oneSlot) Always
      (World.start oneSlot {}) (rejectedActs false) (fun w =>
        (w.tasks[0]?.any fun t => match t.phase with
          | .refunding _ (.generation _) => true
          | _ => false) &&
        (World.step Ledger.backend .ascii oneSlot w (.task 0 (.run .none))).any fun w =>
          w.tasks[0]?.any fun u => u.phase.gone) = true := by
    decide +kernel
  obtain ⟨w, reached, good⟩ := exists_reaches_of_execHolds _ _ holds
  obtain ⟨raised, ended⟩ := Bool.and_eq_true_iff.mp good
  obtain ⟨t, here, failed⟩ := (Option.any_eq_true ..).mp raised
  obtain ⟨w', stepped, ended⟩ := (Option.any_eq_true ..).mp ended
  obtain ⟨u, there, gone⟩ := (Option.any_eq_true ..).mp ended
  split at failed
  · rename_i r e phase
    have barren : t.phase.Barren 0 := by
      rw [phase]
      exact .buffered
    exact ⟨w', u, reached.tail trivial stepped, there, gone,
      (unproduced_is_free_iff .ascii oneSlot (24 * 3600) reached here barren .refl stepped there
        gone).1.mpr (.inl rfl)⟩
  · cases failed

/-- The stream delivered nothing, and its user has spent the price of the prompt. -/
theorem failed_stream_pays_for_its_prompt :
    ∃ w t, Reaches (World.step Ledger.backend .ascii oneSlot) Always (World.start oneSlot {}) w ∧
      w.tasks[0]? = some t ∧ t.phase = .done (.streamFailed (.timeout "slow")) ∧
      (∀ text, .emitted 0 (.delta text) ∉ w.log) ∧
      ((World.start oneSlot ({} : Ledger)).shared.ledger.spent "u" 0).1 = 0 ∧
      (w.shared.ledger.spent "u" w.shared.now).1 = 1 / 4000000 := by
  have holds : execHolds (World.step Ledger.backend .ascii oneSlot) Always
      (World.start oneSlot {})
      (rejectedActs true ++ [.task 0 .next, .task 0 (.run .none)]) (fun w =>
        (w.tasks[0]?.any fun t => decide (t.phase = .done (.streamFailed (.timeout "slow")))) &&
        (w.log.all fun e => decide (e.deed ≠ .delta)) &&
        decide ((w.shared.ledger.spent "u" w.shared.now).1 = 1 / 4000000)) = true := by
    decide +kernel
  obtain ⟨w, reached, good⟩ := exists_reaches_of_execHolds _ _ holds
  obtain ⟨rest, spent⟩ := Bool.and_eq_true_iff.mp good
  obtain ⟨failed, silent⟩ := Bool.and_eq_true_iff.mp rest
  obtain ⟨t, here, done⟩ := (Option.any_eq_true ..).mp failed
  refine ⟨w, t, reached, here, of_decide_eq_true done, fun text mem => ?_, rfl,
    of_decide_eq_true spent⟩
  exact absurd rfl (of_decide_eq_true (List.all_eq_true.mp silent _ mem))

end LLMInference
