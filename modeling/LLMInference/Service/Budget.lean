import LLMInference.Cost.Window
import LLMInference.Service.Billing
import LLMInference.Service.Terms

/-!
The per-user limit through failover, on the in-memory ledger.

The hold is taken for the routed model; a request that fails over is billed for the model that
served, and its settle compares with nothing. `World.KeepsRoom` is what the settle of a
failed-over request would have to respect, and `limit_holds_iff_room` shows that nothing else
can take the user's live window total over the limit.

* `OnHold`: what a request holds, in terms of its routing.
* `World.Stamped`: the log's ledger times are not ahead of the clock.
* `live_of_settle`: a settle replaces the hold by the bill, exactly.
-/

namespace LLMInference

open Runs

/-- The user's live window total at the clock: what `spent` would answer. -/
def World.live (w : World Ledger) (user : String) : ℚ :=
  amounts (w.shared.ledger.inWindow user w.shared.now)

/-- Requests of one user under one limit, in buffered form; a clock that does not go back;
completions within what the provider was given; and settles within the window of the hold. -/
def World.OneLimit (s : Settings) (user : String) (limit : ℚ) (w : World Ledger) :
    WorldAct → Prop
  | .submit req streaming => req.userId = user → streaming = false ∧ req.userLimit s = limit
  | .clock now _ => w.shared.now ≤ now
  | .scale _ => True
  | .task i a => ∀ t, w.tasks[i]? = some t → t.request.userId = user →
      match t.phase, a with
      | .generating _ c, .answer (.completion k) =>
          k.inputTokens ≤ c.current.inputTokens ∧
            k.outputTokens ≤ c.current.projectedOutputTokens
      | .settling r _ _, _ => w.shared.now ≤ r.createdAt + w.shared.ledger.windowSeconds
      | _, _ => True

/-- A request of the user that settles was served by the decision it was reserved for, or its
bill exceeds its hold by no more than the user's window has room for. -/
def World.KeepsRoom (ts : TextSupport) (s : Settings) (user : String) (limit : ℚ)
    (w : World Ledger) : WorldAct → Prop
  | .task i _ => ∀ t, w.tasks[i]? = some t → t.request.userId = user →
      match t.phase with
      | .settling r served k =>
          route ts s t.request.routing [] = .ok served ∨
            w.live user + (chargeFor served.model k.usage).cost - r.amount ≤ limit + epsilon
      | _ => True
  | _ => True

/-- What a request holds: its reservation is for the primary decision, and a completion it
settles kept to the limits. -/
structure OnHold (ts : TextSupport) (s : Settings) (user : String) (i : ℕ) (t : Task)
    (h : List Event) : Prop where
  routed : match t.phase with
    | .lookup d | .reserving d | .granted d _ | .queued d _ =>
        route ts s t.request.routing [] = .ok d
    | _ => True
  streamed : match t.phase with
    | .yielded .. | .pulling _ | .finalizing .. | .storing .. => t.streaming = true
    | _ => True
  limits : match t.phase with
    | .settling _ served k => t.request.userId = user →
        k.inputTokens ≤ served.inputTokens ∧ k.outputTokens ≤ served.projectedOutputTokens
    | _ => True
  amount : ∀ r, .granted i r ∈ h →
    ∃ d, route ts s t.request.routing [] = .ok d ∧ r.amount = d.projectedCost

/-- The clock readings the ledger's events carry are not ahead of `now`. -/
def Event.StampedBy (now : ℚ) : Event → Prop
  | .pruned _ time => time ≤ now
  | .granted _ r => r.createdAt ≤ now
  | _ => True

section Steps

variable {σ : Type} {B : LedgerBackend σ} {ts : TextSupport} {s : Settings} {i : ℕ} {t : Task}
  {h evs : List Event} {sh sh' : Shared σ} {ph' : Phase} {a : TaskAct} {user : String}

/-- No step of a request moves the clock. -/
theorem Trans.now {req : Request} {streaming : Bool} {ph : Phase}
    (step : Trans B ts s i req streaming sh ph a sh' ph' evs) : sh'.now = sh.now := by
  cases step <;> rfl

theorem granted_of_ungranted {P : Reservation → Prop} (old : ∀ r, .granted i r ∈ h → P r)
    (none : ∀ r, .granted i r ∉ evs) : ∀ r, .granted i r ∈ h ++ history i evs → P r := by
  intro r mem
  rcases List.mem_append.mp mem with before | new
  · exact old r before
  · exact absurd (mem_history.mp new).1 (none r)

theorem granted_notMem_settleEvents (r' : Reservation) {r : Reservation} {c : Charge} {now : ℚ}
    {f : LedgerFault} {rest : List Event} (none : .granted i r' ∉ rest) :
    .granted i r' ∉ settleEvents i r c now f ++ rest := by
  unfold settleEvents
  split <;> simpa using none

theorem granted_notMem_releaseEvents (r' : Reservation) {r : Reservation} {f : LedgerFault}
    {rest : List Event} (none : .granted i r' ∉ rest) :
    .granted i r' ∉ releaseEvents i r f ++ rest := by
  unfold releaseEvents
  split <;> simpa using none

theorem Trans.onHold (step : Trans B ts s i t.request t.streaming sh t.phase a sh' ph' evs)
    (limits : ∀ r c k, t.phase = .generating r c → a = .answer (.completion k) →
      t.request.userId = user →
        k.inputTokens ≤ c.current.inputTokens ∧ k.outputTokens ≤ c.current.projectedOutputTokens)
    (hold : OnHold ts s user i t h) :
    OnHold ts s user i { t with phase := ph' } (h ++ history i evs) := by
  obtain ⟨routed, streamed, kept, amount⟩ := hold
  obtain ⟨req, streaming, ph⟩ := t
  simp only at step
  cases step with
  | toLookup found | toReserve found =>
      exact ⟨found, trivial, trivial, granted_of_ungranted amount (by simp)⟩
  | miss _ => exact ⟨routed, trivial, trivial, granted_of_ungranted amount (by simp)⟩
  | granted admits reserved =>
      cases B.reserve_ok reserved
      refine ⟨routed, trivial, trivial, ?_⟩
      intro r mem
      rcases List.mem_append.mp mem with old | new
      · exact amount r old
      · have here := (mem_history.mp new).1
        split at here
        · simp only [List.mem_append, List.mem_singleton, reduceCtorEq, false_or] at here
          cases here
          exact ⟨_, routed, rfl⟩
        · simp only [List.nil_append, List.mem_singleton] at here
          cases here
          exact ⟨_, routed, rfl⟩
  | refused _ _ | cancelReserve _ =>
      refine ⟨trivial, trivial, trivial, granted_of_ungranted amount ?_⟩
      intro r
      split <;> simp
  | enterBuffered entering _ =>
      cases entering <;>
        exact ⟨trivial, trivial, trivial, granted_of_ungranted amount (by simp)⟩
  | enterStreamed entering stream =>
      cases entering <;>
        exact ⟨trivial, stream, trivial, granted_of_ungranted amount (by simp)⟩
  | park _ | repark _ => exact ⟨routed, trivial, trivial, granted_of_ungranted amount (by simp)⟩
  | completed =>
      exact ⟨trivial, trivial, limits _ _ _ rfl rfl, granted_of_ungranted amount (by simp)⟩
  | finishShed _ _ | cancelShed _ =>
      refine ⟨trivial, trivial, trivial, granted_of_ungranted amount ?_⟩
      intro r
      rw [← List.append_nil (releaseEvents _ _ _)]
      exact granted_notMem_releaseEvents r List.not_mem_nil
  | settleRaise _ _ =>
      refine ⟨trivial, trivial, trivial, granted_of_ungranted amount ?_⟩
      intro r
      rw [← List.append_nil (settleEvents _ _ _ _ _)]
      exact granted_notMem_settleEvents r List.not_mem_nil
  | settleCache _ _ | settleReturn _ _ | cancelSettle _ | finalizeClose _ _ =>
      refine ⟨trivial, trivial, trivial, granted_of_ungranted amount ?_⟩
      exact fun r => granted_notMem_settleEvents r (by simp)
  | finalizeStore _ _ =>
      refine ⟨trivial, streamed, trivial, granted_of_ungranted amount ?_⟩
      intro r
      rw [← List.append_nil (settleEvents _ _ _ _ _)]
      exact granted_notMem_settleEvents r List.not_mem_nil
  | refundRaise _ _ | refund _ _ | cancelRefund _ =>
      refine ⟨trivial, trivial, trivial, granted_of_ungranted amount ?_⟩
      exact fun r => granted_notMem_releaseEvents r (by simp)
  | begin | resume | chunkText _ | chunkEmpty _ | exhausted | streamFault _ | streamOther _ =>
      exact ⟨trivial, streamed, trivial, granted_of_ungranted amount (by simp)⟩
  | exit exiting =>
      cases exiting <;> exact ⟨trivial, streamed, trivial, granted_of_ungranted amount (by simp)⟩
  | _ => exact ⟨trivial, trivial, trivial, granted_of_ungranted amount (by simp)⟩

end Steps

theorem Event.StampedBy.later {now later : ℚ} {e : Event} (stamped : e.StampedBy now)
    (le : now ≤ later) : e.StampedBy later := by
  cases e with
  | pruned u time => exact stamped.trans le
  | granted i r => exact stamped.trans le
  | _ => trivial

theorem Event.stampedBy_of_quiet {now : ℚ} {e : Event} (quiet : e.onLedger = false) :
    e.StampedBy now := by
  cases e with
  | pruned u time => cases quiet
  | granted i r => cases quiet
  | _ => trivial

/-- The ledger moves of a step carry its clock reading. -/
theorem LedgerMove.stamped {s : Settings} {i : ℕ} {req : Request} {now : ℚ} {l l' : Ledger}
    {ph : Phase} {evs : List Event} (move : LedgerMove s i req now l l' ph evs) :
    ∀ e ∈ evs, e.StampedBy now := by
  have calm : ∀ {es : List Event}, (∀ e ∈ es, e.onLedger = false) → ∀ e ∈ es, e.StampedBy now :=
    fun quiet e mem => Event.stampedBy_of_quiet (quiet e mem)
  cases move with
  | same _ quiet => exact calm quiet
  | refused _ => simp [Event.StampedBy]
  | held _ _ _ => simp [Event.StampedBy]
  | charged _ _ _ quiet =>
      exact List.forall_mem_cons.mpr ⟨trivial, List.forall_mem_cons.mpr ⟨trivial, calm quiet⟩⟩
  | refunded _ _ _ quiet => exact List.forall_mem_cons.mpr ⟨trivial, calm quiet⟩

/-! ### One step -/

/-- What a step needs to know of the state before it. -/
structure Budgeted (s : Settings) (user : String) (limit : ℚ) (w : World Ledger) : Prop where
  tasks : Pool.Each (fun _ t =>
    t.request.userId = user → t.streaming = false ∧ t.request.userLimit s = limit) w.tasks
  stamped : ∀ e ∈ w.log, e.StampedBy w.shared.now
  nonneg : ∀ e ∈ w.shared.ledger.spend user, 0 ≤ e.amount
  live : w.live user ≤ limit + epsilon

/-- What the earlier invariants say of a reached state. -/
structure Known (ts : TextSupport) (s : Settings) (user : String) (w : World Ledger) : Prop where
  kept : Kept w.shared.ledger w.log
  books : ∀ i t, w.tasks[i]? = some t → Books False i t (history i w.log)
  deals : ∀ i t, w.tasks[i]? = some t → Deal ts s i t (history i w.log)
  holds : ∀ i t, w.tasks[i]? = some t → OnHold ts s user i t (history i w.log)

section Step

variable {ts : TextSupport} {s : Settings} {user : String} {limit : ℚ} {w w' : World Ledger}
  {i : ℕ} {t : Task} {r : Reservation} {served : RoutingDecision} {k : Completion}
  {sh sh' : Shared Ledger} {ph' : Phase} {a : TaskAct} {evs : List Event}

/-- The settle of an open reservation, on the ledger. -/
theorem Trans.ledger_of_settling {req : Request} {streaming : Bool}
    (step : Trans Ledger.backend ts s i req streaming sh (.settling r served k) a sh' ph' evs) :
    sh'.ledger = (sh.ledger.settle r (chargeFor served.model k.usage) sh.now).2 := by
  generalize phase : Phase.settling r served k = ph at step
  cases step with
  | settleRaise _ bill | settleCache _ bill | settleReturn _ bill =>
      cases phase
      exact congrArg (fun out => out.2.2) bill.symm
  | cancelSettle networked => cases networked
  | quit quiet =>
      cases phase
      cases quiet
  | enterBuffered entering _ | enterStreamed entering _ => cases entering <;> cases phase
  | exit exiting => cases exiting <;> cases phase
  | _ => cases phase

/-- A hold whose settle comes in time is still on the books, and counts. -/
theorem Known.entry (known : Known ts s user w) (stamped : ∀ e ∈ w.log, e.StampedBy w.shared.now)
    {ks : List Deed} (held : Held i t r ks (history i w.log))
    (inTime : w.shared.now ≤ r.createdAt + w.shared.ledger.windowSeconds) :
    r.entry ∈ w.shared.ledger.inWindow r.userId w.shared.now ∧
      0 ≤ w.shared.ledger.windowSeconds := by
  have granted := (mem_history.mp held.event).1
  have before : r.createdAt ≤ w.shared.now := stamped _ granted
  constructor
  · rcases known.kept.holds i r granted held.unclosed with present | pruned
    · apply List.mem_filter.mpr
      refine ⟨present, decide_eq_true ?_⟩
      show w.shared.now - w.shared.ledger.windowSeconds ≤ r.createdAt
      linarith
    · obtain ⟨early, late, now, log, -, prune, old⟩ := pruned
      have past : now ≤ w.shared.now := by
        apply stamped (.pruned r.userId now)
        rw [log]
        exact List.mem_append_right _ prune
      linarith
  · linarith

/-- A settle in time replaces the hold by the bill. -/
theorem live_of_settle (known : Known ts s user w) (budgeted : Budgeted s user limit w)
    (here : w.tasks[i]? = some t) (phase : t.phase = .settling r served k)
    (mine : t.request.userId = user)
    (inTime : w.shared.now ≤ r.createdAt + w.shared.ledger.windowSeconds)
    (step : Trans Ledger.backend ts s i t.request t.streaming w.shared t.phase a sh' ph' evs) :
    amounts (sh'.ledger.inWindow user sh'.now) =
      w.live user + (chargeFor served.model k.usage).cost - r.amount := by
  have held : Held i t r [.shed, .failed] (history i w.log) := by
    have books := known.books i t here
    rw [Books, phase] at books
    exact books
  obtain ⟨entry, window⟩ := known.entry budgeted.stamped held inTime
  have user_eq : r.userId = user := held.user.trans mine
  subst user_eq
  have distinct := known.kept.distinct r.userId
  have ids : ((w.shared.ledger.inWindow r.userId w.shared.now).map (·.entryId)).Nodup :=
    distinct.sublist (List.filter_sublist.map _)
  have young : w.shared.ledger.young w.shared.now
      { timestamp := w.shared.now, amount := (chargeFor served.model k.usage).cost,
        entryId := r.id } = true :=
    decide_eq_true (sub_le_self _ window)
  have rest : amounts ((w.shared.ledger.inWindow r.userId w.shared.now).filter
      fun e => decide (e.entryId ≠ r.id)) + r.amount = w.live r.userId :=
    amounts_filter_ne ids entry
  rw [phase] at step
  rw [step.now, step.ledger_of_settling, Ledger.inWindow_settle held.opened distinct,
    amounts_append, List.filter_cons_of_pos young, List.filter_nil, amounts_singleton]
  show amounts _ + (chargeFor served.model k.usage).cost = _
  linarith

/-- A settle keeps the limit exactly when it keeps to the room there is. -/
theorem settle_iff_room (priced : s.Priced) (known : Known ts s user w)
    (budgeted : Budgeted s user limit w) (here : w.tasks[i]? = some t)
    (phase : t.phase = .settling r served k) (mine : t.request.userId = user)
    (terms : w.OneLimit s user limit (.task i a))
    (step : Trans Ledger.backend ts s i t.request t.streaming w.shared t.phase a sh' ph' evs) :
    amounts (sh'.ledger.inWindow user sh'.now) ≤ limit + epsilon ↔
      (route ts s t.request.routing [] = .ok served ∨
        w.live user + (chargeFor served.model k.usage).cost - r.amount ≤ limit + epsilon) := by
  have inTime : w.shared.now ≤ r.createdAt + w.shared.ledger.windowSeconds := by
    have all := terms t here mine
    rw [phase] at all
    cases a <;> exact all
  rw [live_of_settle known budgeted here phase mine inTime step]
  constructor
  · exact .inr
  · rintro (primary | room)
    · have deal : Routed ts s t.request.routing [] served := by
        have deals := known.deals i t here
        rw [Deal, phase] at deals
        exact deals.1
      have hold := known.holds i t here
      have limits := hold.limits
      rw [phase] at limits
      obtain ⟨input, output⟩ := limits mine
      have granted : .granted i r ∈ history i w.log := by
        have books := known.books i t here
        rw [Books, phase] at books
        exact books.event
      obtain ⟨d, routed, amount⟩ := hold.amount r granted
      cases primary.symm.trans routed
      have bill := deal.bill_le priced input output
      have before := budgeted.live
      linarith
    · exact room

/-- Any other step keeps the limit, and the amounts non-negative. -/
theorem Budgeted.task (priced : s.Priced) (known : Known ts s user w)
    (budgeted : Budgeted s user limit w) (here : w.tasks[i]? = some t)
    (step : Trans Ledger.backend ts s i t.request t.streaming w.shared t.phase a sh' ph' evs)
    (settles : ∀ r served k, t.phase = .settling r served k → t.request.userId = user →
      amounts (sh'.ledger.inWindow user sh'.now) ≤ limit + epsilon) :
    Budgeted s user limit
      { shared := sh', tasks := w.tasks.set i { t with phase := ph' }, log := w.log ++ evs } := by
  obtain ⟨tasks, stamped, nonneg, live⟩ := budgeted
  have now := step.now
  have move := step.ledger_cases
  have both : (∀ e ∈ sh'.ledger.spend user, 0 ≤ e.amount) ∧
      amounts (sh'.ledger.inWindow user sh'.now) ≤ limit + epsilon := by
    rw [now] at settles ⊢
    have young : ∀ e ∈ w.shared.ledger.inWindow user w.shared.now, 0 ≤ e.amount :=
      fun e mem => nonneg e (List.mem_filter.mp mem).1
    cases move with
    | same ledger _ =>
        rw [ledger]
        exact ⟨nonneg, live⟩
    | refused ledger =>
        rw [ledger]
        constructor
        · exact fun e mem => nonneg e ((Ledger.spend_prune_sublist _ _ _).subset mem)
        · rw [Ledger.inWindow_prune _ _ le_rfl]
          exact live
    | held reserving fits ledger =>
        rename_i d
        rw [ledger]
        by_cases mine : t.request.userId = user
        · have routed : route ts s t.request.routing [] = .ok d := by
            have hold := (known.holds i t here).routed
            rw [reserving] at hold
            exact hold
          have sound := route_sound routed
          have positive : 0 ≤ d.projectedCost :=
            sound.cost ▸ ModelSpec.cost_nonneg (priced _ sound.mem) _ _
          rw [(tasks i t here mine).2, mine] at fits
          subst mine
          have all : ∀ e ∈ w.shared.ledger.inWindow t.request.userId w.shared.now ++
              [{ timestamp := w.shared.now, amount := d.projectedCost, entryId := i }],
              0 ≤ e.amount := by
            intro e mem
            rcases List.mem_append.mp mem with old | new
            · exact young e old
            · exact List.mem_singleton.mp new ▸ positive
          constructor
          · rw [Ledger.setSpend_self]
            exact all
          · rw [Ledger.inWindow_setSpend_self]
            apply (amounts_le_of_sublist List.filter_sublist all).trans
            rw [amounts_append, amounts_singleton]
            exact fits
        · have other : user ≠ t.request.userId := Ne.symm mine
          rw [Ledger.setSpend_ne _ other, Ledger.inWindow_setSpend_ne other]
          exact ⟨nonneg, live⟩
    | charged settling opened ledger _ =>
        rename_i r c es _
        obtain ⟨ks, held⟩ := settling.held (known.books i t here)
        by_cases mine : user = r.userId
        · have asked : t.request.userId = user := held.user.symm.trans mine.symm
          generalize phase : t.phase = ph at settling
          cases settling with
          | streamed =>
              have stream := (known.holds i t here).streamed
              rw [phase] at stream
              cases stream.symm.trans (tasks i t here asked).1
          | buffered =>
              rename_i served k
              constructor
              · have deal : Routed ts s t.request.routing [] served := by
                  have deals := known.deals i t here
                  rw [Deal, phase] at deals
                  exact deals.1
                rw [ledger]
                intro e mem
                simp only [Ledger.settle, opened, Bool.false_eq_true, if_false] at mem
                rw [mine, Ledger.setSpend_self] at mem
                rcases List.mem_append.mp mem with old | new
                · exact nonneg e (mine ▸ List.mem_of_mem_eraseP old)
                · rw [List.mem_singleton.mp new]
                  exact ModelSpec.cost_nonneg (priced _ deal.mem) _ _
              · exact settles _ _ _ phase asked
        · rw [ledger, Ledger.inWindow_settle_ne mine]
          refine ⟨?_, live⟩
          simp only [Ledger.settle, opened, Bool.false_eq_true, if_false]
          intro e mem
          rw [Ledger.setSpend_ne _ mine] at mem
          exact nonneg e mem
    | refunded releasing opened ledger _ =>
        rename_i r es _
        have sub : (sh'.ledger.spend user).Sublist (w.shared.ledger.spend user) := by
          rw [ledger]
          simp only [Ledger.release, opened, Bool.false_eq_true, if_false]
          by_cases mine : user = r.userId
          · rw [mine, Ledger.setSpend_self]
            exact List.eraseP_sublist
          · rw [Ledger.setSpend_ne _ mine]
        have window : sh'.ledger.windowSeconds = w.shared.ledger.windowSeconds := by
          rw [ledger]
          simp only [Ledger.release, opened, Bool.false_eq_true, if_false,
            Ledger.setSpend_windowSeconds]
        constructor
        · exact fun e mem => nonneg e (sub.subset mem)
        · refine (amounts_le_of_sublist ?_ young).trans live
          unfold Ledger.inWindow
          rw [window]
          exact sub.filter _
  refine ⟨?_, ?_, both.1, both.2⟩
  · exact tasks.step (tasks i t here) fun _ _ _ _ keeps => keeps
  · intro e mem
    show e.StampedBy sh'.now
    rw [now]
    rcases List.mem_append.mp mem with old | new
    · exact stamped e old
    · exact move.stamped e new

end Step

/-! ### Whole runs -/

section Runs

variable {ts : TextSupport} {s : Settings} {user : String} {limit windowSeconds : ℚ}
  {w : World Ledger}

theorem known_of_reaches {ok : World Ledger → WorldAct → Prop}
    (terms : ∀ w a, ok w a → w.OneLimit s user limit a)
    (reached : Reaches (World.step Ledger.backend ts s) ok (World.start s { windowSeconds }) w) :
    Known ts s user w where
  kept := kept_of_reaches reached
  books := books_of_reaches reached fun none => none.elim
  deals := deal_of_reaches ⟨rfl, rfl⟩ reached
  holds := by
    apply each_history (Q := OnHold ts s user) ⟨rfl, rfl⟩ reached
    · exact fun _ _ _ => ⟨trivial, trivial, trivial, fun _ mem => absurd mem List.not_mem_nil⟩
    · intro w i t a sh ph evs _ allowed here step hold
      apply step.onHold _ hold
      intro r c k phase act mine
      have asked := terms _ _ allowed t here mine
      rw [phase, act] at asked
      exact asked

theorem budgeted_of_reaches (priced : s.Priced) (nonneg : 0 ≤ limit)
    (reached : Reaches (World.step Ledger.backend ts s)
      (fun w a => w.OneLimit s user limit a ∧ w.KeepsRoom ts s user limit a)
      (World.start s { windowSeconds }) w) : Budgeted s user limit w := by
  refine reached.invariant_of (I := Budgeted s user limit) ?_ ?_
  · exact ⟨Pool.Each.nil _, List.forall_mem_nil _, List.forall_mem_nil _,
      add_nonneg nonneg epsilon_nonneg⟩
  · intro w a w' before budgeted allowed stepped
    obtain ⟨terms, room⟩ := allowed
    have known : Known ts s user w := known_of_reaches (fun _ _ both => both.1) before
    obtain ⟨tasks, stamped, amounts, live⟩ := budgeted
    cases worldTrans_of_step stepped with
    | submit => exact ⟨tasks.spawn terms fun _ _ _ keeps => keeps, stamped, amounts, live⟩
    | clock =>
        refine ⟨tasks, fun e mem => (stamped e mem).later terms, amounts, ?_⟩
        refine (amounts_le_of_sublist (Ledger.inWindow_sublist user terms) ?_).trans live
        exact fun e mem => amounts e (List.mem_filter.mp mem).1
    | scale _ => exact ⟨tasks, stamped, amounts, live⟩
    | task here step =>
        have budgeted : Budgeted s user limit w := ⟨tasks, stamped, amounts, live⟩
        apply budgeted.task priced known here step
        intro r served k phase mine
        apply (settle_iff_room priced known budgeted here phase mine terms step).mpr
        have keeps := room _ here mine
        rw [phase] at keeps
        exact keeps

/-- While every settle of a failed-over request keeps to the room there is, the user's live
window total stays within the limit; and the first settle that does not takes it over. -/
theorem limit_holds_iff_room (ts : TextSupport) (s : Settings) (priced : s.Priced)
    (windowSeconds : ℚ) (user : String) (limit : ℚ) (nonneg : 0 ≤ limit) {w : World Ledger}
    (reached : Reaches (World.step Ledger.backend ts s)
      (fun w a => w.OneLimit s user limit a ∧ w.KeepsRoom ts s user limit a)
      (World.start s { windowSeconds }) w) :
    w.live user ≤ limit + epsilon ∧
      ∀ a w', w.OneLimit s user limit a → World.step Ledger.backend ts s w a = some w' →
        (w'.live user ≤ limit + epsilon ↔ w.KeepsRoom ts s user limit a) := by
  have budgeted := budgeted_of_reaches priced nonneg reached
  refine ⟨budgeted.live, ?_⟩
  intro a w' terms stepped
  constructor
  · intro within
    cases worldTrans_of_step stepped with
    | submit | clock | scale _ => trivial
    | task here step =>
        intro t found mine
        cases found.symm.trans here
        split
        · rename_i r served k phase
          have known : Known ts s user w := known_of_reaches (fun _ _ both => both.1) reached
          exact (settle_iff_room priced known budgeted here phase mine terms step).mp within
        · trivial
  · intro room
    exact (budgeted_of_reaches priced nonneg (reached.tail ⟨terms, room⟩ stepped)).live

end Runs

/-! ### A request that fails over to a dearer model -/

section Decidable

variable {p : Task → Prop} [DecidablePred p]

theorem forall_found {found : Option Task} :
    (∀ t, found = some t → p t) ↔ found.all (fun t => decide (p t)) = true := by
  cases found <;> simp

instance (found : Option Task) : Decidable (∀ t, found = some t → p t) :=
  decidable_of_iff _ forall_found.symm

variable (ts : TextSupport) (s : Settings) (user : String) (limit : ℚ) (w : World Ledger)

instance (a : TaskAct) : DecidablePred fun t : Task => t.request.userId = user →
    match t.phase, a with
    | .generating _ c, .answer (.completion k) =>
        k.inputTokens ≤ c.current.inputTokens ∧ k.outputTokens ≤ c.current.projectedOutputTokens
    | .settling r _ _, _ => w.shared.now ≤ r.createdAt + w.shared.ledger.windowSeconds
    | _, _ => True := by
  intro t
  dsimp only
  split <;> infer_instance

instance : ∀ a, Decidable (w.OneLimit s user limit a)
  | .submit req streaming =>
      inferInstanceAs (Decidable (req.userId = user → streaming = false ∧ req.userLimit s = limit))
  | .clock now _ => inferInstanceAs (Decidable (_ ≤ now))
  | .scale _ => isTrue trivial
  | .task i _ => inferInstanceAs (Decidable (∀ t, w.tasks[i]? = some t → _))

instance : DecidablePred fun t : Task => t.request.userId = user →
    match t.phase with
    | .settling r served k =>
        route ts s t.request.routing [] = .ok served ∨
          w.live user + (chargeFor served.model k.usage).cost - r.amount ≤ limit + epsilon
    | _ => True := by
  intro t
  dsimp only
  split <;> infer_instance

instance : ∀ a, Decidable (w.KeepsRoom ts s user limit a)
  | .task i _ => inferInstanceAs (Decidable (∀ t, w.tasks[i]? = some t → _))
  | .submit .. => isTrue trivial
  | .clock .. => isTrue trivial
  | .scale _ => isTrue trivial

end Decidable

/-- The medium model answers with all the tokens that were projected. -/
def dearerActs : List WorldAct :=
  [.submit { prompt := "hi", userId := "u", userDailyBudgetUsd := some (1 / 1000) } false,
    .task 0 (.run .none), .task 0 (.run .none), .task 0 (.run .none), .task 0 (.run .none),
    .task 0 (.answer (.failure (.unavailable "down"))), .task 0 (.run .none),
    .task 0 (.answer (.completion { text := "yo", inputTokens := 1, outputTokens := 384 }))]

/-- Up to its settle the request is within a limit of a tenth of a cent; the settle takes it
over, so the theorem says it does not keep to the room. -/
theorem limit_holds_until_dearer_settle :
    ∃ w, Reaches (World.step Ledger.backend .ascii oneSlot)
      (fun w a => w.OneLimit oneSlot "u" (1 / 1000) a ∧
        w.KeepsRoom .ascii oneSlot "u" (1 / 1000) a) (World.start oneSlot {}) w ∧
      w.live "u" ≤ 1 / 1000 + epsilon ∧
      ¬ w.KeepsRoom .ascii oneSlot "u" (1 / 1000) (.task 0 (.run .none)) := by
  have holds : execHolds (World.step Ledger.backend .ascii oneSlot)
      (fun w a => w.OneLimit oneSlot "u" (1 / 1000) a ∧
        w.KeepsRoom .ascii oneSlot "u" (1 / 1000) a) (World.start oneSlot {}) dearerActs (fun w =>
        decide (w.OneLimit oneSlot "u" (1 / 1000) (.task 0 (.run .none))) &&
          (World.step Ledger.backend .ascii oneSlot w (.task 0 (.run .none))).any fun w' =>
            decide (1 / 1000 + epsilon < w'.live "u")) = true := by
    decide +kernel
  obtain ⟨w, reached, good⟩ := exists_reaches_of_execHolds _ _ holds
  obtain ⟨terms, exceeds⟩ := Bool.and_eq_true_iff.mp good
  obtain ⟨w', stepped, exceeds⟩ := (Option.any_eq_true ..).mp exceeds
  obtain ⟨within, next⟩ := limit_holds_iff_room .ascii oneSlot (by decide +kernel) (24 * 3600) "u"
    (1 / 1000) (by norm_num) reached
  refine ⟨w, reached, within, fun room => ?_⟩
  have still := (next _ w' (of_decide_eq_true terms) stepped).mpr room
  exact absurd (of_decide_eq_true exceeds) (not_lt.mpr still)

/-- On the same terms the settle takes the user's live window total over the limit. -/
theorem failover_exceeds_the_limit :
    ∃ w, Reaches (World.step Ledger.backend .ascii oneSlot)
      (fun w a => w.OneLimit oneSlot "u" (1 / 1000) a) (World.start oneSlot {}) w ∧
      1 / 1000 + epsilon < w.live "u" := by
  have holds : execHolds (World.step Ledger.backend .ascii oneSlot)
      (fun w a => w.OneLimit oneSlot "u" (1 / 1000) a) (World.start oneSlot {})
      (dearerActs ++ [.task 0 (.run .none)])
      (fun w => decide (1 / 1000 + epsilon < w.live "u")) = true := by
    decide +kernel
  obtain ⟨w, reached, exceeds⟩ := exists_reaches_of_execHolds _ _ holds
  exact ⟨w, reached, of_decide_eq_true exceeds⟩

end LLMInference
