import LLMInference.Cost.Entries
import LLMInference.Service.Billing

/-!
A completed generation over the Redis ledger (`app/service.py`, `app/cost/redis_ledger.py`).

The replica's requests run interleaved with the scripts of other replicas and with the server's
clock, by which keys expire. A settle whose call raises is swallowed by the ledger when it fails
open. When it fails closed the error reaches `handle`, and the completion is lost.

* `Trans.server`: what a step of a request does to the server.
* `Filed`: the members of one reservation, over runs.
* `completion_delivered_iff`: which completions are returned.
-/

namespace LLMInference

open Runs

/-- What happens to the replica and to the server it shares. -/
inductive RedisAct where
  | service (a : WorldAct)
  /-- A script of another replica is executed. -/
  | elsewhere (script : Script)
  | serverClock (clock : ℚ)
  deriving DecidableEq

namespace World

/-- The server changes, the replica does not. -/
def withServer (w : World RedisLedger) (server : RedisServer) : World RedisLedger :=
  { w with shared := { w.shared with ledger := { w.shared.ledger with server } } }

def redisStep (cfg : RedisConfig) (ts : TextSupport) (s : Settings) (w : World RedisLedger) :
    RedisAct → Option (World RedisLedger)
  | .service a => step (RedisLedger.backend cfg) ts s w a
  | .elsewhere script => some (w.withServer (w.shared.ledger.server.run script).2)
  | .serverClock clock => some (w.withServer { w.shared.ledger.server with clock })

/-- The other replicas' scripts are about their own reservations. -/
def Distinct (i : ℕ) (_ : World RedisLedger) : RedisAct → Prop
  | .elsewhere script => script.names i = false
  | _ => True

/-- Nobody cancels request `i`. -/
def Spared (i : ℕ) (_ : World RedisLedger) : RedisAct → Prop
  | .service (.task j a) => j = i → a.cancels = false
  | _ => True

instance (i : ℕ) (w : World RedisLedger) : ∀ a, Decidable (w.Distinct i a)
  | .elsewhere script => inferInstanceAs (Decidable (script.names i = false))
  | .service _ | .serverClock _ => inferInstanceAs (Decidable True)

instance (i : ℕ) (w : World RedisLedger) : ∀ a, Decidable (w.Spared i a)
  | .service (.task j a) => inferInstanceAs (Decidable (j = i → a.cancels = false))
  | .service (.submit ..) | .service (.clock ..) | .service (.scale _) | .elsewhere _
  | .serverClock _ => inferInstanceAs (Decidable True)

end World

namespace Phase

/-- No reserve has returned yet. -/
def unreserved : Phase → Bool
  | .arrived | .lookup _ | .reserving _ => true
  | _ => false

/-- The reservation at hand is the request's own, and open until the settle of `handle`. -/
def Owns (i : ℕ) : Phase → Prop
  | .granted _ r | .queued _ r | .shedding r | .attempting r _ | .generating r _ | .settling r _ _ =>
      r.id = i ∧ r.closed = false
  | .refunding r _ => r.id = i
  | .yielded st _ | .pulling st => st.reservation.id = i
  | .finalizing fin _ => fin.reservation.id = i
  | _ => True

end Phase

section Steps

variable {cfg : RedisConfig} {ts : TextSupport} {s : Settings} {i j : ℕ} {req : Request}
  {streaming : Bool} {sh sh' : Shared RedisLedger} {ph ph' : Phase} {a : TaskAct}
  {evs : List Event}

/-- A step of the request keeps its reservation. -/
theorem Trans.owns {σ : Type} {B : LedgerBackend σ} {sh sh' : Shared σ}
    (step : Trans B ts s i req streaming sh ph a sh' ph' evs) (owns : ph.Owns i) : ph'.Owns i := by
  cases step with
  | granted _ reserved =>
      cases B.reserve_ok reserved
      exact ⟨rfl, rfl⟩
  | enterBuffered entering _ =>
      cases entering with
      | atOnce _ | woken _ _ => exact owns
  | enterStreamed entering _ =>
      cases entering with
      | atOnce _ | woken _ _ => exact owns.1
  | deniedRaise _ | faultRaise _ | otherRaise _ => exact owns.1
  | settleRaise _ bill =>
      cases B.closed_of_settle bill
      exact owns.1
  | exit exiting =>
      cases exiting with
      | streamed | failed | closed | cancelled => exact owns
  | _ => first | exact owns | exact trivial

/-- What a step of request `j` does to the server: nothing, or one script about `j`. -/
inductive ServerMove (j : ℕ) (server server' : RedisServer) (ph ph' : Phase) : Prop
  | same (eq : server' = server)
  | reserve {key : String} {now window amount limit : ℚ} (before : ph.unreserved = true)
      (after : ph'.unreserved = false)
      (eq : server' = (server.run (.reserve key now window amount limit (memberOf j amount))).2)
  | settle {key usageKey : String} {now actual window : ℚ} (before : ph.unreserved = false)
      (eq : server' = (server.run (.settle key usageKey now j actual window)).2)
  | release {key : String} (before : ph.unreserved = false)
      (eq : server' = (server.run (.release key j)).2)

theorem serverMove_reserve {f : LedgerFault} {d : RoutingDecision} {l l' : RedisLedger} {now : ℚ}
    {res : Except LedgerError Reservation} (after : ph'.unreserved = false)
    (reserved : (RedisLedger.backend cfg).reserve f l i req.userId d.projectedCost (req.userLimit s)
      now = (res, l')) : ServerMove i l.server l'.server (.reserving d) ph' := by
  have made : l' = (RedisLedger.reserve cfg f l i req.userId d.projectedCost (req.userLimit s) now).2 :=
    congrArg Prod.snd reserved.symm
  rw [made]
  rcases RedisLedger.server_reserve cfg f l i req.userId d.projectedCost (req.userLimit s) now with
    eq | eq
  · exact .same eq
  · exact .reserve rfl after eq

theorem serverMove_settle {f : LedgerFault} {r r' : Reservation} {c : Charge} {l l' : RedisLedger}
    {now : ℚ} {e : Option LedgerError} (mine : r.id = i) (before : ph.unreserved = false)
    (bill : (RedisLedger.backend cfg).settle f l r c now = (e, r', l')) :
    ServerMove i l.server l'.server ph ph' := by
  have made : l' = (RedisLedger.settle cfg f l r c now).2.2 :=
    congrArg (fun out => out.2.2) bill.symm
  subst mine
  rw [made]
  rcases RedisLedger.server_settle cfg f l r c now with eq | eq
  · exact .same eq
  · exact .settle before eq

theorem serverMove_release {f : LedgerFault} {r r' : Reservation} {l l' : RedisLedger}
    {e : Option LedgerError} (mine : r.id = i) (before : ph.unreserved = false)
    (refund : (RedisLedger.backend cfg).release f l r = (e, r', l')) :
    ServerMove i l.server l'.server ph ph' := by
  have made : l' = (RedisLedger.release cfg f l r).2.2 :=
    congrArg (fun out => out.2.2) refund.symm
  subst mine
  rw [made]
  rcases RedisLedger.server_release cfg f l r with eq | eq
  · exact .same eq
  · exact .release before eq

theorem Trans.server
    (step : Trans (RedisLedger.backend cfg) ts s i req streaming sh ph a sh' ph' evs)
    (owns : ph.Owns i) : ServerMove i sh.ledger.server sh'.ledger.server ph ph' := by
  cases step with
  | granted _ reserved | refused _ reserved => exact serverMove_reserve rfl reserved
  | cancelReserve _ => exact serverMove_reserve rfl rfl
  | settleRaise _ bill | settleCache _ bill | settleReturn _ bill =>
      exact serverMove_settle owns.1 rfl bill
  | finalizeStore _ bill | finalizeClose _ bill => exact serverMove_settle owns rfl bill
  | cancelSettle _ => exact serverMove_settle owns.1 rfl rfl
  | finishShed _ refund => exact serverMove_release owns.1 rfl refund
  | refundRaise _ refund | refund _ refund => exact serverMove_release owns rfl refund
  | cancelShed _ => exact serverMove_release owns.1 rfl rfl
  | cancelRefund _ => exact serverMove_release owns rfl rfl
  | _ => exact .same rfl

/-- Before its reserve has returned a request has sent no script. -/
theorem Trans.unreserved {σ : Type} {B : LedgerBackend σ} {sh sh' : Shared σ}
    (step : Trans B ts s i req streaming sh ph a sh' ph' evs) (still : ph'.unreserved = true) :
    ph.unreserved = true := by
  cases step with
  | enterBuffered entering _ | enterStreamed entering _ => cases still
  | exit exiting => cases still
  | toLookup _ | toReserve _ | miss _ => rfl
  | _ => cases still

/-- The other requests' steps. -/
theorem ServerMove.fewer {server server' : RedisServer} (move : ServerMove j server server' ph ph')
    (other : i ≠ j) : RedisServer.Fewer i server server' := by
  cases move with
  | same eq =>
      rw [eq]
      exact .refl server
  | reserve _ _ eq =>
      rw [eq]
      apply RedisServer.fewer_run
      rw [Script.names, ← Bool.not_eq_true, belongsTo_memberOf]
      exact other
  | settle _ eq =>
      rw [eq]
      exact RedisServer.fewer_run _ (decide_eq_false (Ne.symm other))
  | release _ eq =>
      rw [eq]
      exact RedisServer.fewer_run _ (decide_eq_false (Ne.symm other))

end Steps

/-! ### The entries of one reservation -/

/-- The server has at most one member of reservation `i`, and none before it was reserved. -/
structure Filed (i : ℕ) (w : World RedisLedger) : Prop where
  owns : Pool.Each (fun j t => t.phase.Owns j) w.tasks
  one : w.shared.ledger.server.AtMostOne i
  unused : (∀ t, w.tasks[i]? = some t → t.phase.unreserved = true) →
    w.shared.ledger.server.Absent i

section Runs

variable {cfg : RedisConfig} {ts : TextSupport} {s : Settings} {i : ℕ}
  {w w' : World RedisLedger}

/-- A change on the server that adds no member. -/
theorem Filed.fewer (filed : Filed i w) {server : RedisServer}
    (fewer : RedisServer.Fewer i w.shared.ledger.server server) : Filed i (w.withServer server) where
  owns := filed.owns
  one := filed.one.fewer fewer
  unused := fun early => (filed.unused early).fewer fewer

/-- A step of a request. -/
theorem Filed.task {j : ℕ} {a : TaskAct} {t : Task} {sh : Shared RedisLedger} {ph : Phase}
    {evs log : List Event} (filed : Filed i w) (here : w.tasks[j]? = some t)
    (step : Trans (RedisLedger.backend cfg) ts s j t.request t.streaming w.shared t.phase a sh ph
      evs) :
    Filed i { shared := sh, tasks := w.tasks.set j { t with phase := ph }, log := log } := by
  obtain ⟨owns, one, unused⟩ := filed
  have mine := owns j t here
  have move := step.server mine
  have kept : Pool.Each (fun j t => t.phase.Owns j) (w.tasks.set j { t with phase := ph }) :=
    owns.step (step.owns mine) fun _ _ _ _ keeps => keeps
  by_cases other : i = j
  · subst other
    have now : (w.tasks.set i { t with phase := ph })[i]? = some { t with phase := ph } :=
      Pool.get_set_self here _
    cases move with
    | same eq =>
        refine ⟨kept, eq ▸ one, fun early => ?_⟩
        have before := step.unreserved (early _ now)
        apply eq ▸ unused
        intro u there
        cases there.symm.trans here
        exact before
    | reserve before after eq =>
        have absent : w.shared.ledger.server.Absent i := by
          apply unused
          intro u there
          cases there.symm.trans here
          exact before
        refine ⟨kept, eq ▸ absent.reserve _ _ _ _ _ _, fun early => ?_⟩
        cases after.symm.trans (early _ now)
    | settle before eq =>
        refine ⟨kept, eq ▸ one.settle _ _ _ _ _, fun early => ?_⟩
        cases before.symm.trans (step.unreserved (early _ now))
    | release before eq =>
        refine ⟨kept, eq ▸ one.fewer (RedisServer.fewer_release _ _), fun early => ?_⟩
        cases before.symm.trans (step.unreserved (early _ now))
  · have fewer := move.fewer other
    refine ⟨kept, one.fewer fewer, fun early => (unused fun u there => ?_).fewer fewer⟩
    exact early u ((List.getElem?_set_ne (Ne.symm other)).trans there)

theorem Filed.step (filed : Filed i w) {a : RedisAct} (distinct : w.Distinct i a)
    (stepped : w.redisStep cfg ts s a = some w') : Filed i w' := by
  cases a with
  | service a =>
      cases worldTrans_of_step stepped with
      | submit =>
          refine ⟨filed.owns.spawn trivial fun _ _ _ keeps => keeps, filed.one, fun early => ?_⟩
          exact filed.unused fun t here => early t (Pool.get_old here _)
      | clock | scale _ => exact ⟨filed.owns, filed.one, filed.unused⟩
      | task here step => exact filed.task here step
  | elsewhere script =>
      cases stepped
      exact filed.fewer (RedisServer.fewer_run script distinct)
  | serverClock clock =>
      cases stepped
      exact filed.fewer fun _ _ mem _ => mem

theorem filed_of_reaches {l : RedisLedger} (unused : l.server.Absent i)
    (reached : Reaches (World.redisStep cfg ts s) (World.Distinct i) (World.start s l) w) :
    Filed i w := by
  apply reached.invariant
  · exact ⟨Pool.Each.nil _, unused.atMostOne, fun _ => unused⟩
  · intro w a w' filed distinct stepped
    exact filed.step distinct stepped

/-! ### After the settle -/

/-- What the steps of request `i` keep about its phase holds as long as it is spared. -/
theorem phase_of_reaches {P : Phase → Prop} {t : Task} (here : w.tasks[i]? = some t)
    (start : P t.phase)
    (kept : ∀ {sh sh' ph ph' a evs}, P ph → a.cancels = false →
      Trans (RedisLedger.backend cfg) ts s i t.request t.streaming sh ph a sh' ph' evs → P ph')
    (later : Reaches (World.redisStep cfg ts s) (World.Spared i) w w') :
    ∃ ph, w'.tasks[i]? = some { t with phase := ph } ∧ P ph := by
  apply later.invariant
  · exact ⟨t.phase, here, start⟩
  · rintro w a w' ⟨ph, there, holds⟩ spared stepped
    cases a with
    | service a =>
        cases worldTrans_of_step stepped with
        | submit =>
            exact ⟨ph, Pool.get_old there _, holds⟩
        | clock | scale _ => exact ⟨ph, there, holds⟩
        | task mover step =>
            rename_i j act u sh ph' evs
            by_cases mine : j = i
            · subst mine
              cases mover.symm.trans there
              exact ⟨ph', Pool.get_set_self there _, kept holds (spared rfl) step⟩
            · exact ⟨ph, (List.getElem?_set_ne mine).trans there, holds⟩
    | elsewhere script =>
        cases stepped
        exact ⟨ph, there, holds⟩
    | serverClock clock =>
        cases stepped
        exact ⟨ph, there, holds⟩

/-- The completion is stored and returned next, or was returned. -/
inductive Phase.Delivering (served : RoutingDecision) (k : Completion) : Phase → Prop
  | caching {r : Reservation} : Delivering served k (.caching r served k)
  | returned : Delivering served k (.done (.result (servedResult served k)))

/-- The ledger's error is raised next, or was raised. -/
inductive Phase.Failing : Phase → Prop
  | refunding {r : Reservation} {e : LedgerError} : Failing (.refunding r (.ledger e))
  | raised {e : LedgerError} : Failing (.done (.ledger e))

theorem Phase.Delivering.kept {σ : Type} {B : LedgerBackend σ} {req : Request} {streaming : Bool}
    {sh sh' : Shared σ} {ph ph' : Phase} {a : TaskAct} {evs : List Event}
    {served : RoutingDecision} {k : Completion} (delivering : ph.Delivering served k)
    (spared : a.cancels = false) (step : Trans B ts s i req streaming sh ph a sh' ph' evs) :
    ph'.Delivering served k := by
  cases delivering with
  | caching =>
      cases step with
      | storeReturn => exact .returned
      | quit quiet => cases quiet
      | cancelCaching _ => cases spared
      | enterBuffered entering _ | enterStreamed entering _ => cases entering
      | exit exiting => cases exiting
  | returned => cases step.running

theorem Phase.Failing.kept {σ : Type} {B : LedgerBackend σ} {req : Request} {streaming : Bool}
    {sh sh' : Shared σ} {ph ph' : Phase} {a : TaskAct} {evs : List Event} (failing : ph.Failing)
    (spared : a.cancels = false) (step : Trans B ts s i req streaming sh ph a sh' ph' evs) :
    ph'.Failing := by
  cases failing with
  | refunding =>
      cases step with
      | refundRaise _ _ | refund _ _ => exact .raised
      | quit quiet => cases quiet
      | cancelRefund _ => cases spared
      | enterBuffered entering _ | enterStreamed entering _ => cases entering
      | exit exiting => cases exiting
  | raised => cases step.running

/-- Whatever happens to the others, request `i` can come to return the result of `k`. -/
def World.Delivers (cfg : RedisConfig) (ts : TextSupport) (s : Settings) (w : World RedisLedger)
    (i : ℕ) (t : Task) (served : RoutingDecision) (k : Completion) : Prop :=
  ∀ w₂, Reaches (World.redisStep cfg ts s) (World.Spared i) w w₂ →
    ∃ w₃, Reaches (World.redisStep cfg ts s) (World.Spared i) w₂ w₃ ∧
      w₃.tasks[i]? = some { t with phase := .done (.result (servedResult served k)) }

variable {t : Task} {ph : Phase} {served : RoutingDecision} {k : Completion}

theorem delivers_of_delivering (here : w.tasks[i]? = some { t with phase := ph })
    (delivering : ph.Delivering served k) : w.Delivers cfg ts s i t served k := by
  intro w₂ later
  obtain ⟨ph, there, still⟩ := phase_of_reaches here delivering Phase.Delivering.kept later
  cases still with
  | caching =>
      have stepped : w₂.redisStep cfg ts s (.service (.task i (.run .none))) =
          some
            { shared := (w₂.shared.store s served t.request.prompt k.text k.usage).leave
              tasks := w₂.tasks.set i
                { t with phase := .done (.result (servedResult served k)) }
              log := w₂.log ++ [.slotReleased i, .returned i (servedResult served k)] } := by
        simp only [World.redisStep, World.step, there]
        rfl
      have spared : w₂.Spared i (.service (.task i (.run .none))) := fun _ => rfl
      exact ⟨_, Reaches.refl.tail spared stepped, Pool.get_set_self there _⟩
  | returned => exact ⟨w₂, .refl, there⟩

theorem not_delivers_of_failing (here : w.tasks[i]? = some { t with phase := ph })
    (failing : ph.Failing) : ¬ w.Delivers cfg ts s i t served k := by
  intro delivers
  obtain ⟨w₃, later, done⟩ := delivers w .refl
  obtain ⟨ph, there, still⟩ := phase_of_reaches here failing Phase.Failing.kept later
  cases there.symm.trans done
  cases still

/-- The completion of a generation is returned exactly if the call of its settle does not raise
or the ledger fails open; and there never are two members of the reservation. -/
theorem completion_delivered_iff (cfg : RedisConfig) (ts : TextSupport) (s : Settings)
    {l : RedisLedger} (unused : l.server.Absent i)
    (reached : Reaches (World.redisStep cfg ts s) (World.Distinct i) (World.start s l) w)
    (here : w.tasks[i]? = some t) {r : Reservation} (completed : t.phase = .settling r served k)
    {f : LedgerFault} (stepped : w.redisStep cfg ts s (.service (.task i (.run f))) = some w') :
    (w'.Delivers cfg ts s i t served k ↔ f = .none ∨ cfg.failClosed = false) ∧
      ∀ w, Reaches (World.redisStep cfg ts s) (World.Distinct i) (World.start s l) w →
        ∀ userId, w.shared.ledger.server.Single (cfg.spendKey userId) i := by
  constructor
  · obtain ⟨req, streaming, ph⟩ := t
    cases completed
    have opened : r.closed = false := ((filed_of_reaches unused reached).owns i _ here).2
    have raises := RedisLedger.settle_raises_iff cfg opened f w.shared.ledger
      (chargeFor served.model k.usage) w.shared.now
    have inner : World.step (RedisLedger.backend cfg) ts s w (.task i (.run f)) = some w' := stepped
    cases worldTrans_of_step inner with
    | task mover step =>
        cases mover.symm.trans here
        have now := Pool.get_set_self here
        cases step with
        | settleRaise _ bill =>
            have raised := congrArg Prod.fst bill
            rw [← raises]
            apply iff_of_false (not_delivers_of_failing (now _) .refunding)
            intro none
            cases raised.symm.trans none
        | settleCache _ bill =>
            have silent := congrArg Prod.fst bill
            rw [← raises]
            exact iff_of_true (delivers_of_delivering (now _) .caching) silent
        | settleReturn _ bill =>
            have silent := congrArg Prod.fst bill
            rw [← raises]
            exact iff_of_true (delivers_of_delivering (now _) .returned) silent
        | quit quiet => cases quiet
        | enterBuffered entering _ | enterStreamed entering _ => cases entering
        | exit exiting => cases exiting
  · intro w reached userId
    exact (filed_of_reaches unused reached).one.single _

end Runs

/-! ### A settle that fails -/

/-- The provider answers the only request. -/
def answeredActs : List RedisAct :=
  [.submit { prompt := "hi", userId := "u" } false, .task 0 (.run .none), .task 0 (.run .none),
    .task 0 (.run .none), .task 0 (.run .none),
    .task 0 (.answer (.completion { text := "yo", inputTokens := 1, outputTokens := 1 }))].map
      .service

theorem absent_of_empty (id : ℕ) : ({} : RedisServer).Absent id := by
  intro key m mem
  cases mem

theorem completion_delivered_iff_reply_lost :
    ∃ w w' t served k, Reaches (World.redisStep { failClosed := false } .ascii oneSlot)
        (World.Distinct 0) (World.start oneSlot {}) w ∧
      w.redisStep { failClosed := false } .ascii oneSlot
        (.service (.task 0 (.run (.noReply "down")))) = some w' ∧
      w'.Delivers { failClosed := false } .ascii oneSlot 0 t served k := by
  have holds : execHolds (World.redisStep { failClosed := false } .ascii oneSlot) (World.Distinct 0)
      (World.start oneSlot {}) answeredActs (fun w =>
        (w.tasks[0]?.any fun t => match t.phase with
          | .settling .. => true
          | _ => false) &&
        (w.redisStep { failClosed := false } .ascii oneSlot
          (.service (.task 0 (.run (.noReply "down"))))).isSome) = true := by
    decide +kernel
  obtain ⟨w, reached, good⟩ := exists_reaches_of_execHolds _ _ holds
  obtain ⟨asked, enabled⟩ := Bool.and_eq_true_iff.mp good
  obtain ⟨t, here, completed⟩ := (Option.any_eq_true ..).mp asked
  obtain ⟨w', stepped⟩ := Option.isSome_iff_exists.mp enabled
  split at completed
  · rename_i r served k settling
    exact ⟨w, w', t, served, k, reached, stepped,
      (completion_delivered_iff { failClosed := false } .ascii oneSlot (absent_of_empty 0) reached here
        settling stepped).1.mpr (.inr rfl)⟩
  · cases completed

/-- The ledger fails closed, and the reply of the settle is lost: `handle` raises. -/
theorem failed_settle_loses_the_completion :
    ∃ w, Reaches (World.redisStep {} .ascii oneSlot) (World.Distinct 0) (World.start oneSlot {}) w ∧
      (∃ served k, .generated 0 served k ∈ w.log) ∧
      ∃ t, w.tasks[0]? = some t ∧ t.phase = .done (.ledger (.unavailable "down")) := by
  have holds : execHolds (World.redisStep {} .ascii oneSlot) (World.Distinct 0)
      (World.start oneSlot {})
      (answeredActs ++ [.service (.task 0 (.run (.noReply "down"))), .service (.task 0 (.run .none))])
      (fun w =>
        (w.log.any fun
          | .generated 0 _ _ => true
          | _ => false) &&
        w.tasks[0]?.any fun t => decide (t.phase = .done (.ledger (.unavailable "down")))) =
          true := by
    decide +kernel
  obtain ⟨w, reached, good⟩ := exists_reaches_of_execHolds _ _ holds
  obtain ⟨answered, raised⟩ := Bool.and_eq_true_iff.mp good
  obtain ⟨e, mem, generated⟩ := List.any_eq_true.mp answered
  obtain ⟨t, here, done⟩ := (Option.any_eq_true ..).mp raised
  split at generated
  · rename_i served k
    exact ⟨w, reached, ⟨served, k, mem⟩, t, here, of_decide_eq_true done⟩
  · cases generated

end LLMInference
