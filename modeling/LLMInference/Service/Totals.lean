import LLMInference.Service.Billing
import LLMInference.Service.InFlight
import Mathlib.Algebra.Group.Prod
import Mathlib.Tactic.Abel

/-!
The metrics and the ledger (`app/metrics.py`, `app/cost/memory.py`).

A charge reaches the metrics in the step of its settle, or, for a stream whose answer is being
cached, with the end of its finalizer. A rejection is counted in the step that rejects.

* `Balanced`: what a step adds to the metrics it adds to the records, or the request owes it.
* `balanced_taskStep`: every step of a request is balanced.
* `metrics_tell_the_ledger`: the totals once nothing runs.
-/

namespace LLMInference

open Runs

/-- Cost, input tokens and output tokens. -/
abbrev Bill := ℚ × ℕ × ℕ

def Charge.bill (c : Charge) : Bill := (c.cost, c.inputTokens, c.outputTokens)

def UsageRecord.bill (u : UsageRecord) : Bill := (u.cost, u.inputTokens, u.outputTokens)

def Metrics.bill (m : Metrics) : Bill := (m.totalCostUsd, m.totalInputTokens, m.totalOutputTokens)

namespace Ledger

def bills (l : Ledger) : Bill := (l.records.map (·.bill)).sum

/-- The users `summary()` lists. -/
def users (l : Ledger) : List String := (l.records.map (·.userId)).dedup

/-- The sum of `summary()` over its users. -/
def summaryTotal (l : Ledger) : ℚ := (l.users.map l.summary).sum

end Ledger

namespace Phase

/-- What is settled for the request and not yet in the metrics. -/
def owed : Phase → Bill
  | .storing fin _ => (chargeFor fin.decision.model fin.usage).bill
  | _ => 0

/-- The request was rejected: by the rate limit, the router, its user's budget, or at the gate. -/
def rejected : Phase → Bool
  | .shedding _ | .done (.rateLimited _) | .done (.unroutable _) | .done (.ledger _)
  | .done (.shed _) => true
  | _ => false

/-- The exit to come is not a rejection. -/
def Served : Phase → Prop
  | .refunding _ x | .finalizing _ x | .storing _ x => (Phase.done x).rejected = false
  | _ => True

/-- The phases whose steps are not determined by what they do to the ledger. -/
def loose : Phase → Bool
  | .arrived | .lookup _ | .shedding _ | .attempting .. | .generating .. | .replaying _ => true
  | _ => false

end Phase

def Event.starts : Event → Bool
  | .started _ => true
  | _ => false

def Event.ends : Event → Bool
  | .finished _ => true
  | _ => false

/-- The metrics move along with the records, the debt of the request, and its rejection. -/
structure Balanced (ph : Phase) (sh : Shared Ledger) (out : Out Ledger) : Prop where
  bill : out.1.metrics.bill + out.2.1.owed + sh.ledger.bills =
    sh.metrics.bill + ph.owed + out.1.ledger.bills
  rejected : out.1.metrics.totalRejected + (if ph.rejected then 1 else 0) =
    sh.metrics.totalRejected + (if out.2.1.rejected then 1 else 0)

section Steps

variable {ts : TextSupport} {s : Settings} {i : ℕ} {t : Task} {sh : Shared Ledger}

theorem balanced_arrive : Balanced .arrived sh (arrive ts s t sh) := by
  unfold arrive
  split
  rename_i limited limiter checked
  cases limited with
  | error retryAfterS => exact ⟨rfl, rfl⟩
  | ok _ =>
      cases route ts s t.request.routing [] with
      | error e => exact ⟨rfl, rfl⟩
      | ok d =>
          by_cases cached : sh.cache.isSome = true
          · simp only [cached, if_true]
            exact ⟨rfl, rfl⟩
          · simp only [cached]
            exact ⟨rfl, rfl⟩

theorem balanced_lookupCache (d : RoutingDecision) :
    Balanced (.lookup d) sh (lookupCache i t sh d) := by
  unfold lookupCache
  cases sh.cache with
  | none => exact ⟨rfl, rfl⟩
  | some c =>
      simp only
      generalize c.get (cacheKey d t.request.prompt) sh.mono = got
      obtain ⟨hit, c'⟩ := got
      cases hit with
      | none => exact ⟨rfl, rfl⟩
      | some entry =>
          by_cases streamed : t.streaming = true
          · simp only [streamed, if_true, replayCached]
            exact ⟨rfl, rfl⟩
          · simp only [streamed]
            exact ⟨rfl, rfl⟩

theorem balanced_attemptStep (r : Reservation) (c : FailoverCall) :
    Balanced (.attempting r c) sh (attemptStep ts s i sh r c) := by
  unfold attemptStep FailoverCall.attempt
  by_cases yes : ((sh.breakers.get c.target).allows sh.mono).1 = true
  · simp only [yes, if_true]
    exact ⟨rfl, rfl⟩
  · simp only [yes]
    rcases FailoverCall.afterError_cases c ts s (.circuitOpen c.target
      (((sh.breakers.get c.target).allows sh.mono).2.retryAfterS sh.mono))
      sh.metrics.requestCircuitRejected with ⟨-, raised⟩ | ⟨next, moved, again⟩
    · simp only [raised]
      exact ⟨rfl, rfl⟩
    · simp only [again]
      exact ⟨rfl, rfl⟩

theorem balanced_answerStep (r : Reservation) (c : FailoverCall) (o : GenerateOutcome) :
    Balanced (.generating r c) sh (answerStep ts s i sh r c o) := by
  unfold answerStep FailoverCall.onOutcome
  cases o with
  | completion k => exact ⟨rfl, rfl⟩
  | failure e =>
      by_cases fault : e.serverFault = true
      · simp only [fault, if_true]
        rcases FailoverCall.afterError_cases c ts s (.provider e) sh.metrics with
          ⟨-, raised⟩ | ⟨next, moved, again⟩
        · simp only [raised]
          exact ⟨rfl, rfl⟩
        · simp only [again]
          exact ⟨rfl, rfl⟩
      · simp only [fault]
        exact ⟨rfl, rfl⟩

theorem Ledger.bills_release (l : Ledger) (r : Reservation) : (l.release r).2.bills = l.bills := by
  unfold release bills
  split <;> rfl

/-- A settle adds its charge to the records. -/
theorem Ledger.bills_settle {l : Ledger} {r : Reservation} (opened : r.closed = false) (c : Charge)
    (now : ℚ) : (l.settle r c now).2.bills = l.bills + c.bill := by
  simp only [settle, bills, opened, Bool.false_eq_true, if_false, List.map_append, List.sum_append,
    List.map_singleton, List.sum_singleton]
  rfl

theorem Ledger.bills_of_reserve {f : LedgerFault} {l l' : Ledger} {id : ℕ} {userId : String}
    {amount limit now : ℚ} {res : Except LedgerError Reservation}
    (reserved : backend.reserve f l id userId amount limit now = (res, l')) : l'.bills = l.bills := by
  have made : l' = (l.reserve id userId amount limit now).2 := congrArg Prod.snd reserved.symm
  rw [made]
  rcases l.reserve_cases id userId amount limit now with ⟨-, eq⟩ | ⟨-, eq⟩
  · rw [eq]
    rfl
  · rw [eq]
    rfl

theorem balanced_finishShed (r : Reservation) :
    Balanced (.shedding r) sh (finishShed Ledger.backend s i sh r .none) :=
  ⟨congrArg (_ + ·) (Ledger.bills_release sh.ledger r).symm, rfl⟩

theorem eq_none_of_run {f : LedgerFault} {out : Out Ledger}
    (made : taskStep Ledger.backend ts s i t sh (.run f) = some out) : f = .none := by
  simp only [taskStep] at made
  split at made
  · rename_i admits
    exact eq_none_of_admits admits
  · cases made

theorem balanced_of_loose {a : TaskAct} {out : Out Ledger} (loose : t.phase.loose = true)
    (made : taskStep Ledger.backend ts s i t sh a = some out) : Balanced t.phase sh out := by
  obtain ⟨req, streaming, ph⟩ := t
  cases a with
  | run f =>
      cases eq_none_of_run made
      cases ph with
      | arrived =>
          cases made
          exact balanced_arrive
      | lookup d =>
          cases made
          exact balanced_lookupCache d
      | shedding r =>
          cases made
          exact balanced_finishShed r
      | attempting r c =>
          cases made
          exact balanced_attemptStep r c
      | generating r c | replaying rest => cases made
      | _ => cases loose
  | answer o =>
      cases ph with
      | generating r c =>
          cases made
          exact balanced_answerStep r c o
      | arrived | lookup d | shedding r | attempting r c | replaying rest => cases made
      | _ => cases loose
  | next =>
      cases ph with
      | replaying rest =>
          cases rest with
          | nil | cons e rest =>
              cases made
              exact ⟨rfl, rfl⟩
      | arrived | lookup d | shedding r | attempting r c | generating r c => cases made
      | _ => cases loose
  | close =>
      cases ph with
      | replaying rest =>
          cases made
          exact ⟨rfl, rfl⟩
      | arrived | lookup d | shedding r | attempting r c | generating r c => cases made
      | _ => cases loose
  | cancel executed =>
      cases ph with
      | arrived | generating r c =>
          cases made
          exact ⟨rfl, rfl⟩
      | lookup d =>
          simp only [taskStep] at made
          split at made
          · cases made
            exact ⟨rfl, rfl⟩
          · cases made
      | shedding r | attempting r c | replaying rest => cases made
      | _ => cases loose
  | _ => cases ph <;> first | exact absurd loose Bool.false_ne_true | cases made

/-- A step that settles. -/
theorem balanced_settle {ph ph' : Phase} {sh' : Shared Ledger} {r : Reservation} {c : Charge}
    {evs : List Event} (opened : r.closed = false)
    (ledger : sh'.ledger = (sh.ledger.settle r c sh.now).2)
    (told : sh'.metrics.bill + ph'.owed = sh.metrics.bill + ph.owed + c.bill)
    (rejected : sh'.metrics.totalRejected + (if ph.rejected then 1 else 0) =
      sh.metrics.totalRejected + (if ph'.rejected then 1 else 0)) :
    Balanced ph sh (sh', ph', evs) := by
  refine ⟨?_, rejected⟩
  show sh'.metrics.bill + ph'.owed + sh.ledger.bills = sh.metrics.bill + ph.owed + sh'.ledger.bills
  rw [told, ledger, Ledger.bills_settle opened]
  abel

/-- `request_finished` tells the metrics a charge. -/
theorem told_finish (m : Metrics) (model : ModelSpec) (u : Usage) (downgraded : Bool) :
    (m.requestFinished u.inputTokens u.outputTokens (chargeFor model u).cost downgraded).bill + 0 =
      m.bill + 0 + (chargeFor model u).bill := by
  rw [add_zero, add_zero]
  rfl

/-- Every step of a request is balanced, if the reservation it settles is open and the exit it is
about to make is no rejection. -/
theorem balanced_taskStep {a : TaskAct} {sh' : Shared Ledger} {ph' : Phase} {evs : List Event}
    (opened : ∀ r c, Settling t.phase r c → r.closed = false) (served : t.phase.Served)
    (made : taskStep Ledger.backend ts s i t sh a = some (sh', ph', evs)) :
    Balanced t.phase sh (sh', ph', evs) := by
  by_cases loose : t.phase.loose = true
  · exact balanced_of_loose loose made
  have step := trans_of_taskStep made
  generalize t.phase = ph at step loose opened served
  cases step with
  | granted admits reserved | refused admits reserved =>
      exact ⟨congrArg (_ + ·) (Ledger.bills_of_reserve reserved).symm, rfl⟩
  | settleRaise admits bill => cases congrArg Prod.fst bill
  | settleCache admits bill | settleReturn admits bill =>
      have ledger := congrArg (fun out => out.2.2) bill.symm
      exact balanced_settle (opened _ _ .buffered) ledger (told_finish _ _ _ _) rfl
  | finalizeClose admits bill =>
      have ledger := congrArg (fun out => out.2.2) bill.symm
      apply balanced_settle (opened _ _ .streamed) ledger (told_finish _ _ _ _)
      rw [served]
      rfl
  | finalizeStore admits bill =>
      have ledger := congrArg (fun out => out.2.2) bill.symm
      exact balanced_settle (opened _ _ .streamed) ledger (congrArg (· + _) (add_zero _).symm) rfl
  | refundRaise admits refund => cases congrArg Prod.fst refund
  | refund admits refund =>
      rename_i r r' x ledger f
      have same : ledger.bills = sh.ledger.bills :=
        (congrArg (fun out => out.2.2.bills) refund).symm.trans (Ledger.bills_release _ _)
      have ended : (Phase.done x).rejected = false := served
      constructor
      · show (sh.metrics.requestFinished 0 0 0 false).bill + 0 + sh.ledger.bills =
          sh.metrics.bill + 0 + ledger.bills
        rw [same]
        simp [Metrics.bill, Metrics.requestFinished]
      · show sh.metrics.totalRejected + 0 =
          sh.metrics.totalRejected + (if (Phase.done x).rejected = true then 1 else 0)
        rw [ended]
        rfl
  | storeClose =>
      rename_i fin x f
      have ended : (Phase.done x).rejected = false := served
      constructor
      · show (sh.metrics.bill + (chargeFor fin.decision.model fin.usage).bill) + 0 + _ = _
        rw [add_zero]
        rfl
      · show sh.metrics.totalRejected + 0 =
          sh.metrics.totalRejected + (if (Phase.done x).rejected = true then 1 else 0)
        rw [ended]
        rfl
  | enterBuffered entering _ | enterStreamed entering _ =>
      cases entering with
      | atOnce _ | woken _ _ => exact ⟨rfl, rfl⟩
  | exit exiting =>
      cases exiting with
      | streamed | failed | closed | cancelled => exact ⟨rfl, rfl⟩
  | quit quiet => cases ph <;> first | exact absurd rfl loose | cases quiet
  | cancelReserve networked | cancelShed networked | cancelSettle networked
  | cancelRefund networked => cases networked
  | _ => first | exact absurd rfl loose | exact ⟨rfl, rfl⟩

theorem Trans.served {req : Request} {streaming : Bool} {sh' : Shared Ledger} {ph ph' : Phase}
    {a : TaskAct} {evs : List Event}
    (step : Trans Ledger.backend ts s i req streaming sh ph a sh' ph' evs) (served : ph.Served) :
    ph'.Served := by
  cases step with
  | settleRaise admits bill => cases congrArg Prod.fst bill
  | exit exiting =>
      cases exiting with
      | streamed | failed | closed | cancelled => rfl
  | enterBuffered entering _ | enterStreamed entering _ => exact trivial
  | deniedRaise _ | faultRaise _ | otherRaise _ => rfl
  | _ => first | exact served | exact trivial

/-- A request that nobody cancels has its end recorded when it is over. -/
theorem Trans.lands {req : Request} {streaming : Bool} {sh' : Shared Ledger} {ph ph' : Phase}
    {a : TaskAct} {evs : List Event}
    (step : Trans Ledger.backend ts s i req streaming sh ph a sh' ph' evs) (calm : a.cancels = false)
    (running : ph.flight = .running) (gone : ph'.flight = .gone) :
    evs.count (.finished i) = 1 := by
  cases step with
  | settleReturn _ _ | finalizeClose _ _ => simp [List.count_append, count_settleEvents]
  | refund _ _ => simp [List.count_append, count_releaseEvents]
  | storeClose => simp
  | refundRaise admits refund => cases congrArg Prod.fst refund
  | enterBuffered _ _ | enterStreamed _ _ => cases gone
  | exit _ => cases gone
  | quit quiet => cases (Phase.flight_of_quiet quiet).symm.trans running
  | _ => simp [Phase.flight, TaskAct.cancels] at running gone calm

end Steps

/-! ### Whole runs -/

section Runs

variable {ts : TextSupport} {s : Settings} {windowSeconds : ℚ} {w : World Ledger}
  {ok : World Ledger → WorldAct → Prop}

/-- The metrics agree with the records up to what the requests owe, and count the rejected. -/
structure World.InStep (w : World Ledger) : Prop where
  bill : w.shared.metrics.bill + (w.tasks.map (·.phase.owed)).sum = w.shared.ledger.bills
  rejected : w.shared.metrics.totalRejected = w.tasks.countP fun t => t.phase.rejected

theorem World.InStep.task {i : ℕ} {t : Task} {sh : Shared Ledger} {ph : Phase} {evs : List Event}
    (inStep : w.InStep) (here : w.tasks[i]? = some t)
    (balanced : Balanced t.phase w.shared (sh, ph, evs)) (log : List Event) :
    World.InStep { shared := sh, tasks := w.tasks.set i { t with phase := ph }, log } := by
  obtain ⟨bill, rejected⟩ := inStep
  obtain ⟨told, counted⟩ := balanced
  have owed := Pool.sum_step here { t with phase := ph } fun t => t.phase.owed
  have counts := Pool.countP_step here { t with phase := ph } fun t => t.phase.rejected
  simp only at told counted owed counts
  constructor
  · apply add_right_cancel (b := t.phase.owed + (w.shared.metrics.bill +
      (w.tasks.map (·.phase.owed)).sum))
    calc sh.metrics.bill + ((w.tasks.set i { t with phase := ph }).map (·.phase.owed)).sum +
          (t.phase.owed + (w.shared.metrics.bill + (w.tasks.map (·.phase.owed)).sum))
        = sh.metrics.bill +
            (((w.tasks.set i { t with phase := ph }).map (·.phase.owed)).sum + t.phase.owed) +
            (w.shared.metrics.bill + (w.tasks.map (·.phase.owed)).sum) := by abel
      _ = sh.metrics.bill + ((w.tasks.map (·.phase.owed)).sum + ph.owed) +
            w.shared.ledger.bills := by rw [owed, bill]
      _ = sh.metrics.bill + ph.owed + w.shared.ledger.bills +
            (w.tasks.map (·.phase.owed)).sum := by abel
      _ = w.shared.metrics.bill + t.phase.owed + sh.ledger.bills +
            (w.tasks.map (·.phase.owed)).sum := by rw [told]
      _ = sh.ledger.bills +
            (t.phase.owed + (w.shared.metrics.bill + (w.tasks.map (·.phase.owed)).sum)) := by abel
  · show sh.metrics.totalRejected =
      (w.tasks.set i { t with phase := ph }).countP fun t => t.phase.rejected
    omega

theorem served_of_reaches {w₀ : World Ledger} (fresh : w₀.Fresh)
    (reached : Reaches (World.step Ledger.backend ts s) ok w₀ w) :
    ∀ (i : ℕ) (t : Task), w.tasks[i]? = some t → t.phase.Served := by
  refine each_task (Q := fun _ t => t.phase.Served) fresh reached ?_ ?_
  · exact fun _ _ _ => trivial
  · exact fun _ _ _ _ _ _ _ made served => (trans_of_taskStep made).served served

theorem inStep_of_reaches (reached : Reaches (World.step Ledger.backend ts s) ok
    (World.start s { windowSeconds }) w) : w.InStep := by
  apply reached.invariant_of (I := World.InStep)
  · exact ⟨add_zero _, rfl⟩
  · intro w a w' before inStep _ stepped
    cases a with
    | submit request streaming =>
        cases stepped
        constructor
        · simpa [Phase.owed] using inStep.bill
        · simpa [Phase.rejected] using inStep.rejected
    | clock now mono =>
        cases stepped
        exact ⟨inStep.bill, inStep.rejected⟩
    | scale later =>
        cases worldTrans_of_step stepped with
        | scale _ => exact ⟨inStep.bill, inStep.rejected⟩
    | task i a =>
        obtain ⟨t, sh, ph, evs, here, made, rfl⟩ := task_of_step stepped
        have books : Books False i t (history i w.log) :=
          books_of_reaches before (fun none => none.elim) i t here
        apply inStep.task here
        apply balanced_taskStep _ (served_of_reaches ⟨rfl, rfl⟩ before i t here) made
        intro r c settling
        obtain ⟨ks, held⟩ := settling.held books
        exact held.opened

theorem Phase.gone_of_flight {ph : Phase} (flight : ph.flight = .gone) : ph.gone = true := by
  cases ph with
  | done x => rfl
  | _ => cases flight

theorem Phase.flight_of_gone {ph : Phase} (gone : ph.gone = true) : ph.flight = .gone := by
  obtain ⟨e, rfl⟩ := exit_of_gone gone
  rfl

/-- A request that is over has its end recorded if it had its start, when nobody is cancelled. -/
theorem landed_of_reaches (reached : Reaches (World.step Ledger.backend ts s) World.Uncancelled
      (World.start s { windowSeconds }) w) :
    ∀ (i : ℕ) (t : Task), w.tasks[i]? = some t → t.phase.flight = .gone → ¬ InFlight i w.log := by
  have story : ∀ i t, w.tasks[i]? = some t → FlightStory i t (history i w.log) ∧
      (t.phase.flight = .gone →
        (history i w.log).count (.started i) = (history i w.log).count (.finished i)) := by
    refine each_history (Q := fun i t h => FlightStory i t h ∧
      (t.phase.flight = .gone → h.count (.started i) = h.count (.finished i))) ⟨rfl, rfl⟩ reached
      ?_ ?_
    · exact fun i request streaming =>
        ⟨.arrived i request streaming, fun gone => by cases gone⟩
    · rintro w i t a sh ph evs - calm - step ⟨story, -⟩
      have next := story.step step
      refine ⟨next, fun gone => ?_⟩
      rw [List.count_append, List.count_append, count_history rfl evs, count_history rfl evs]
      cases step.flight_cases with
      | kept _ _ started finished =>
          rw [started, finished]
          have order := story.order
          cases flight : t.phase.flight with
          | ahead =>
              have none := story.ahead flight
              omega
          | running =>
              have ended := step.lands calm flight gone
              cases ended.symm.trans finished
          | landed =>
              have once := story.once
              have ended := story.landed flight
              omega
          | gone => cases (Phase.gone_of_flight flight).symm.trans step.running
      | started _ _ after => cases after.symm.trans gone
      | finished _ before _ started finished =>
          obtain ⟨one, zero⟩ := story.running before
          omega
  intro i t here gone flying
  obtain ⟨started, finished⟩ := inFlight_iff.mp flying
  have same := (story i t here).2 gone
  omega

/-- Sums over the users add up to the sum over the records. -/
theorem sum_over_users {rs : List UsageRecord} {us : List String} (distinct : us.Nodup)
    (all : ∀ r ∈ rs, r.userId ∈ us) :
    (us.map fun u => ((rs.filter fun r => decide (r.userId = u)).map (·.cost)).sum).sum =
      (rs.map (·.cost)).sum := by
  induction rs with
  | nil => simp
  | cons r rest ih =>
      have tail := ih fun x mem => all x (List.mem_cons_of_mem _ mem)
      have head : ∀ u, (((r :: rest).filter fun x => decide (x.userId = u)).map (·.cost)).sum =
          (if u = r.userId then r.cost else 0) +
            ((rest.filter fun x => decide (x.userId = u)).map (·.cost)).sum := by
        intro u
        by_cases own : r.userId = u
        · simp [own]
        · simp [own, Ne.symm own]
      simp only [head, List.sum_map_add, tail, List.map_cons, List.sum_cons]
      congr 1
      rw [List.sum_map_eq_nsmul_single r.userId _ fun u other _ => if_neg other, if_pos rfl,
        List.count_eq_one_of_mem distinct (all r List.mem_cons_self), one_nsmul]

theorem Ledger.summaryTotal_eq (l : Ledger) : l.summaryTotal = (l.records.map (·.cost)).sum := by
  apply sum_over_users (List.nodup_dedup _)
  intro r mem
  exact List.mem_dedup.mpr (List.mem_map_of_mem mem)

theorem Ledger.bills_eq (l : Ledger) :
    l.bills = ((l.records.map (·.cost)).sum, (l.records.map (·.inputTokens)).sum,
      (l.records.map (·.outputTokens)).sum) := by
  unfold bills
  induction l.records with
  | nil => rfl
  | cons r rest ih =>
      rw [List.map_cons, List.sum_cons, ih]
      rfl

/-- The starts a step records are its request's own. -/
theorem Trans.countP_starts {i : ℕ} {req : Request} {streaming : Bool} {sh sh' : Shared Ledger}
    {ph ph' : Phase} {a : TaskAct} {evs : List Event}
    (step : Trans Ledger.backend ts s i req streaming sh ph a sh' ph' evs) :
    evs.countP Event.starts = evs.count (.started i) := by
  apply List.countP_congr
  intro e mem
  cases e with
  | started j =>
      cases step.eq_of_names mem rfl
      simp [Event.starts]
  | _ => simp [Event.starts]

theorem Trans.countP_ends {i : ℕ} {req : Request} {streaming : Bool} {sh sh' : Shared Ledger}
    {ph ph' : Phase} {a : TaskAct} {evs : List Event}
    (step : Trans Ledger.backend ts s i req streaming sh ph a sh' ph' evs) :
    evs.countP Event.ends = evs.count (.finished i) := by
  apply List.countP_congr
  intro e mem
  cases e with
  | finished j =>
      cases step.eq_of_names mem rfl
      simp [Event.ends]
  | _ => simp [Event.ends]

/-- `in_flight` is the starts less the ends. Had it been at 0 when a request finished, it would
be more from then on. -/
def World.Unclamped (w : World Ledger) : Prop :=
  w.shared.metrics.inFlight = (w.log.countP Event.starts : ℤ) - w.log.countP Event.ends

theorem unclamped_of_reaches (reached : Reaches (World.step Ledger.backend ts s) ok
    (World.start s { windowSeconds }) w) : w.Unclamped := by
  apply reached.invariant_of (I := World.Unclamped)
  · rfl
  · intro w a w' before counts allowed stepped
    cases worldTrans_of_step stepped with
    | submit | clock | scale _ => exact counts
    | task here step =>
        rename_i i act t sh ph evs
        unfold World.Unclamped at counts
        show sh.metrics.inFlight =
          ((w.log ++ evs).countP Event.starts : ℤ) - (w.log ++ evs).countP Event.ends
        rw [List.countP_append, List.countP_append, step.countP_starts, step.countP_ends]
        cases step.flight_cases with
        | kept same _ started finished | started same _ _ started finished =>
            rw [started, finished]
            omega
        | finished less flight _ started finished =>
            have flying : 0 < w.flights := by
              obtain ⟨one, zero⟩ := (flightStory_of_reaches before i t here).running flight
              apply List.countP_pos_iff.mpr
              refine ⟨i, List.mem_range.mpr (List.getElem?_eq_some_iff.mp here).1, ?_⟩
              rw [decide_eq_true_eq, inFlight_iff]
              omega
            have positive : w.shared.metrics.inFlight = w.flights := inFlight_counts before
            rw [started, finished]
            omega

/-- While no request is cancelled, `in_flight` is never clamped; and once every request is over and
every finalizer has run, it is 0, the totals are those of the ledger's records, and every
rejected request was counted once. -/
theorem metrics_tell_the_ledger (ts : TextSupport) (s : Settings) (windowSeconds : ℚ)
    (reached : Reaches (World.step Ledger.backend ts s) World.Uncancelled
      (World.start s { windowSeconds }) w) :
    w.Unclamped ∧
      ((∀ t ∈ w.tasks, t.phase.gone = true) →
        w.shared.metrics.inFlight = 0 ∧
        w.shared.metrics.totalCostUsd = w.shared.ledger.summaryTotal ∧
        w.shared.metrics.totalInputTokens = (w.shared.ledger.records.map (·.inputTokens)).sum ∧
        w.shared.metrics.totalOutputTokens = (w.shared.ledger.records.map (·.outputTokens)).sum ∧
        w.shared.metrics.totalRejected = w.tasks.countP fun t => t.phase.rejected) := by
  refine ⟨unclamped_of_reaches reached, fun gone => ?_⟩
  obtain ⟨bill, rejected⟩ := inStep_of_reaches reached
  have settled : (w.tasks.map (·.phase.owed)).sum = 0 := by
    apply List.sum_eq_zero
    intro b mem
    obtain ⟨t, here, rfl⟩ := List.mem_map.mp mem
    have flight := Phase.flight_of_gone (gone t here)
    cases phase : t.phase with
    | storing fin x =>
        rw [phase] at flight
        cases flight
    | _ => rfl
  rw [settled, add_zero, Ledger.bills_eq] at bill
  have grounded : w.flights = 0 := by
    apply List.countP_eq_zero.mpr
    intro i inside
    have here := List.getElem?_eq_getElem (List.mem_range.mp inside)
    have landed := Phase.flight_of_gone (gone _ (List.mem_of_getElem? here))
    simpa using landed_of_reaches reached i _ here landed
  have counts : w.shared.metrics.inFlight = w.flights := inFlight_counts reached
  refine ⟨by omega, ?_, congrArg (fun b => b.2.1) bill, congrArg (fun b => b.2.2) bill, rejected⟩
  rw [Ledger.summaryTotal_eq]
  exact congrArg Prod.fst bill

end Runs

/-! ### One request served, one rejected -/

/-- The second request names a model that does not exist. -/
def rejectedSecondActs : List WorldAct :=
  servedActs ++
    [.submit { prompt := "hi", userId := "u", forceModel := some "huge" } false,
      .task 1 (.run .none)]

theorem metrics_tell_the_ledger_rejected_second :
    ∃ w, Reaches (World.step Ledger.backend .ascii oneSlot) World.Uncancelled
        (World.start oneSlot {}) w ∧
      (∀ t ∈ w.tasks, t.phase.gone = true) ∧ w.tasks.length = 2 ∧
      w.shared.metrics.inFlight = 0 ∧
      w.shared.metrics.totalCostUsd = w.shared.ledger.summaryTotal ∧
      w.shared.metrics.totalRejected = w.tasks.countP fun t => t.phase.rejected := by
  have holds : execHolds (World.step Ledger.backend .ascii oneSlot) World.Uncancelled
      (World.start oneSlot {}) rejectedSecondActs (fun w =>
        decide ((∀ t ∈ w.tasks, t.phase.gone = true) ∧ w.tasks.length = 2)) = true := by
    decide +kernel
  obtain ⟨w, reached, good⟩ := exists_reaches_of_execHolds _ _ holds
  obtain ⟨gone, two⟩ := of_decide_eq_true good
  obtain ⟨idle, cost, -, -, rejected⟩ :=
    (metrics_tell_the_ledger .ascii oneSlot (24 * 3600) reached).2 gone
  exact ⟨w, reached, gone, two, idle, cost, rejected⟩

end LLMInference
