import LLMInference.Cost.Refinement
import LLMInference.Service.Budget
import LLMInference.Service.Ceiling
import LLMInference.Service.Delivery

/-!
The service over Redis and the service in memory.

Both run the same requests. What they share is the same but for the ledger, and the two ledgers
are related by `Lockstep.Refines`.

* `taskStep_on`: a step of a request over Redis is its step in memory, with the Redis ledger after
  the request's call in it.
* `Twins.step`: the bisimulation. The conditions are in `Smooth`: Redis is reachable, no caller is
  cancelled during a call to it, the clock does not go back, and no open hold or charge of the user
  is exactly as old as the window when more is asked for.
* `ledgers_interchangeable`: the two services cannot be told apart.
-/

namespace LLMInference

open Runs

/-! ### One state, two ledgers -/

/-- The shared state with another ledger in it. -/
def Shared.on {σ τ : Type} (sh : Shared σ) (l : τ) : Shared τ := { sh with ledger := l }

/-- What a step leaves behind, with another ledger in it. -/
def Out.on {σ τ : Type} (out : Out σ) (l : τ) : Out τ := (out.1.on l, out.2)

/-- The service with another ledger in it. -/
def World.on {σ τ : Type} (w : World σ) (l : τ) : World τ := { w with shared := w.shared.on l }

/-- All there is to see of the service but its ledger. -/
def World.seen {σ : Type} (w : World σ) : World Unit := w.on ()

section Transfer

variable {σ τ : Type} {ts : TextSupport} {s : Settings} {i : ℕ} {t : Task} {sh : Shared σ} {l : τ}

theorem arrive_on : arrive ts s t (sh.on l) = Out.on (arrive ts s t sh) l := by
  unfold arrive
  simp only [Shared.on]
  split
  · rfl
  · cases route ts s t.request.routing [] <;> rfl

theorem lookupCache_on (d : RoutingDecision) :
    lookupCache i t (sh.on l) d = Out.on (lookupCache i t sh d) l := by
  unfold lookupCache
  simp only [Shared.on]
  split
  · rfl
  · split
    · split <;> (try split) <;> rfl
    · rfl

theorem passGate_on (d : RoutingDecision) (r : Reservation) (out : Bool × CapacityGate) :
    passGate i t (sh.on l) d r out = Out.on (passGate i t sh d r out) l := by
  unfold passGate enter
  simp only [Shared.on]
  split <;> (try split) <;> rfl

theorem chunkStep_on (st : StreamState) (c : StreamChunk) :
    chunkStep i (sh.on l) st c = Out.on (chunkStep i sh st c) l := by
  unfold chunkStep
  split <;> rfl

theorem scale_on (later : ℚ) :
    World.scale ts s (sh.on l) later = (World.scale ts s sh later).on l := by
  unfold World.scale
  simp only [Shared.on]
  split <;> rfl

theorem scale_keeps (later : ℚ) :
    (World.scale ts s sh later).ledger = sh.ledger ∧ (World.scale ts s sh later).now = sh.now := by
  unfold World.scale
  simp only
  split <;> exact ⟨rfl, rfl⟩

end Transfer

/-! ### Calls -/

section Calls

variable {cfg : RedisConfig} {ts : TextSupport} {s : Settings} {i : ℕ} {t : Task}
  {sh : Shared Ledger} {l : RedisLedger}

/-- The Redis ledger after the call of a request to it. -/
def RedisLedger.afterCall (cfg : RedisConfig) (s : Settings) (i : ℕ) (t : Task) (now : ℚ)
    (l : RedisLedger) : RedisLedger :=
  match t.phase with
  | .reserving d =>
      (reserve cfg .none l i t.request.userId d.projectedCost (t.request.userLimit s) now).2
  | .settling r served k => (settle cfg .none l r (chargeFor served.model k.usage) now).2.2
  | .finalizing fin _ =>
      (settle cfg .none l fin.reservation (chargeFor fin.decision.model fin.usage) now).2.2
  | .shedding r => (release cfg .none l r).2.2
  | .refunding r _ => (release cfg .none l r).2.2
  | _ => l

/-- The Redis ledger after a step of a request. -/
def RedisLedger.afterStep (cfg : RedisConfig) (s : Settings) (i : ℕ) (t : Task) (now : ℚ)
    (l : RedisLedger) : TaskAct → RedisLedger
  | .run _ => l.afterCall cfg s i t now
  | _ => l

/-- A settle without a fault returns what it returns in memory. -/
theorem redis_settle_eq (l : RedisLedger) (m : Ledger) (r : Reservation) (c : Charge) (now : ℚ) :
    (RedisLedger.backend cfg).settle .none l r c now =
      (none, (m.settle r c now).1, (RedisLedger.settle cfg .none l r c now).2.2) := by
  show RedisLedger.settle cfg .none l r c now = _
  unfold RedisLedger.settle Ledger.settle
  cases closed : r.closed <;> rfl

theorem redis_release_eq (l : RedisLedger) (m : Ledger) (r : Reservation) :
    (RedisLedger.backend cfg).release .none l r =
      (none, (m.release r).1, (RedisLedger.release cfg .none l r).2.2) := by
  show RedisLedger.release cfg .none l r = _
  unfold RedisLedger.release Ledger.release
  cases closed : r.closed <;> rfl

theorem reserveBudget_on {d : RoutingDecision}
    (agree : (RedisLedger.reserve cfg .none l i t.request.userId d.projectedCost
      (t.request.userLimit s) sh.now).1 =
        (sh.ledger.reserve i t.request.userId d.projectedCost (t.request.userLimit s) sh.now).1) :
    reserveBudget (RedisLedger.backend cfg) s i t (sh.on l) d .none =
      Out.on (reserveBudget Ledger.backend s i t sh d .none)
        (RedisLedger.reserve cfg .none l i t.request.userId d.projectedCost
          (t.request.userLimit s) sh.now).2 := by
  cases made : sh.ledger.reserve i t.request.userId d.projectedCost (t.request.userLimit s)
    sh.now with
  | mk res m =>
      cases asked : RedisLedger.reserve cfg .none l i t.request.userId d.projectedCost
        (t.request.userLimit s) sh.now with
      | mk res' l' =>
          rw [made, asked] at agree
          subst agree
          unfold reserveBudget
          rw [show Ledger.backend.reserve .none sh.ledger i t.request.userId d.projectedCost
            (t.request.userLimit s) sh.now = (res', m) from made,
            show (RedisLedger.backend cfg).reserve .none (sh.on l).ledger i t.request.userId
              d.projectedCost (t.request.userLimit s) (sh.on l).now = (res', l') from asked]
          cases res' <;> rfl

theorem settleStep_on (r : Reservation) (served : RoutingDecision) (k : Completion) :
    settleStep (RedisLedger.backend cfg) i (sh.on l) r served k .none =
      Out.on (settleStep Ledger.backend i sh r served k .none)
        (RedisLedger.settle cfg .none l r (chargeFor served.model k.usage) sh.now).2.2 := by
  obtain ⟨now, mono, limiter, cache, ledger, gate, breakers, metrics, autoscaler⟩ := sh
  unfold settleStep
  simp only [Shared.on, redis_settle_eq l ledger]
  cases cache <;> rfl

theorem finalizeStep_on (fin : Finalizer) (x : Exit) :
    finalizeStep (RedisLedger.backend cfg) i (sh.on l) fin x .none =
      Out.on (finalizeStep Ledger.backend i sh fin x .none)
        (RedisLedger.settle cfg .none l fin.reservation (chargeFor fin.decision.model fin.usage)
          sh.now).2.2 := by
  unfold finalizeStep
  simp only [Shared.on, redis_settle_eq l sh.ledger]
  split <;> rfl

theorem finishShed_on (r : Reservation) :
    finishShed (RedisLedger.backend cfg) s i (sh.on l) r .none =
      Out.on (finishShed Ledger.backend s i sh r .none)
        (RedisLedger.release cfg .none l r).2.2 := by
  unfold finishShed
  simp only [Shared.on, redis_release_eq l sh.ledger]
  rfl

theorem refundStep_on (r : Reservation) (x : Exit) :
    refundStep (RedisLedger.backend cfg) i (sh.on l) r x .none =
      Out.on (refundStep Ledger.backend i sh r x .none)
        (RedisLedger.release cfg .none l r).2.2 := by
  unfold refundStep
  simp only [Shared.on, redis_release_eq l sh.ledger]
  rfl

/-! ### Steps -/

/-- In a call to the ledger that its caller awaits. -/
def Phase.calling : Phase → Bool
  | .reserving _ | .shedding _ | .settling .. | .refunding .. => true
  | _ => false

/-- About to reserve. -/
def Phase.atReserve : Phase → Bool
  | .reserving _ => true
  | _ => false

/-- The time an entry of the user was made: a hold that is open, or a charge. -/
def Event.entryTime (log : List Event) (userId : String) : Event → Option ℚ
  | .granted i r => if r.userId = userId ∧ Unclosed i log then some r.createdAt else none
  | .settled _ u _ now => if u = userId then some now else none
  | _ => none

/-- No open hold and no charge of the user is exactly as old as the window. -/
def OffBoundary (window now : ℚ) (log : List Event) (userId : String) : Prop :=
  ∀ e ∈ log, e.entryTime log userId ≠ some (now - window)

instance (window now : ℚ) (log : List Event) (userId : String) :
    Decidable (OffBoundary window now log userId) :=
  inferInstanceAs (Decidable (∀ e ∈ log, _ ≠ _))

/-- The call of the step is answered, and its caller stays; a reserve comes off the boundary. -/
def Task.Smooth (window now : ℚ) (log : List Event) (t : Task) : TaskAct → Prop
  | .run f => f = .none ∧ (t.phase.atReserve = true → OffBoundary window now log t.request.userId)
  | .cancel _ => t.phase.calling = false
  | _ => True

instance {window now : ℚ} {log : List Event} {t : Task} : (a : TaskAct) →
    Decidable (t.Smooth window now log a)
  | .run _ => inferInstanceAs (Decidable (_ ∧ (_ = true → _)))
  | .cancel _ => inferInstanceAs (Decidable (_ = false))
  | .wake | .timeout | .answer _ | .exhausted | .streamError _ | .chunk _ | .next | .close =>
      inferInstanceAs (Decidable True)

/-- Every step is smooth, and the clock does not go back. -/
def Smooth {σ : Type} (window : ℚ) (w : World σ) : WorldAct → Prop
  | .task i a => ∀ t ∈ w.tasks[i]?, t.Smooth window w.shared.now w.log a
  | .clock now _ => w.shared.now ≤ now
  | _ => True

instance {σ : Type} {window : ℚ} {w : World σ} : (a : WorldAct) → Decidable (Smooth window w a)
  | .task i a =>
      inferInstanceAs (Decidable (∀ t ∈ w.tasks[i]?, t.Smooth window w.shared.now w.log a))
  | .clock .. => inferInstanceAs (Decidable (_ ≤ _))
  | .submit .. | .scale _ => inferInstanceAs (Decidable True)

/-- A step over Redis is the step in memory, if the reserve it may make is answered alike. -/
theorem taskStep_on {a : TaskAct} {window now : ℚ} {log : List Event}
    (smooth : t.Smooth window now log a)
    (agree : ∀ f d, a = .run f → t.phase = .reserving d →
      (RedisLedger.reserve cfg .none l i t.request.userId d.projectedCost (t.request.userLimit s)
        sh.now).1 =
          (sh.ledger.reserve i t.request.userId d.projectedCost (t.request.userLimit s) sh.now).1) :
    taskStep (RedisLedger.backend cfg) ts s i t (sh.on l) a =
      (taskStep Ledger.backend ts s i t sh a).map fun out =>
        Out.on out (l.afterStep cfg s i t sh.now a) := by
  cases a with
  | run f =>
      obtain ⟨rfl, -⟩ := smooth
      rw [taskStep, taskStep, if_pos (show (RedisLedger.backend cfg).admits .none = true from rfl),
        if_pos (show Ledger.backend.admits .none = true from rfl), RedisLedger.afterStep,
        RedisLedger.afterCall]
      cases here : t.phase with
      | arrived => exact congrArg some arrive_on
      | lookup d => exact congrArg some (lookupCache_on d)
      | reserving d => exact congrArg some (reserveBudget_on (agree _ d rfl here))
      | granted d r => exact congrArg some (passGate_on d r _)
      | shedding r => exact congrArg some (finishShed_on r)
      | settling r served k => exact congrArg some (settleStep_on r served k)
      | refunding r x => exact congrArg some (refundStep_on r x)
      | finalizing fin x => exact congrArg some (finalizeStep_on fin x)
      | _ => rfl
  | wake =>
      rw [taskStep, taskStep]
      cases t.phase with
      | queued d r =>
          show (if sh.gate.runnable i = true then some (passGate i t (sh.on l) d r
            (sh.gate.resume i)) else none) = _
          rw [passGate_on]
          split <;> rfl
      | _ => rfl
  | timeout =>
      rw [taskStep, taskStep]
      cases t.phase with
      | queued d r =>
          simp only
          split <;> rfl
      | _ => rfl
  | answer o | exhausted | streamError f =>
      rw [taskStep, taskStep]
      cases t.phase <;> rfl
  | chunk c =>
      rw [taskStep, taskStep]
      cases t.phase with
      | pulling st => exact congrArg some (chunkStep_on st c)
      | _ => rfl
  | next =>
      rw [taskStep, taskStep]
      cases t.phase with
      | yielded st y => cases y <;> rfl
      | replaying rest => cases rest <;> rfl
      | _ => rfl
  | close =>
      rw [taskStep, taskStep]
      cases t.phase <;> rfl
  | cancel executed =>
      rw [taskStep, taskStep]
      cases here : t.phase with
      | reserving _ | shedding _ | settling _ _ _ | refunding _ _ =>
          rw [Task.Smooth, here] at smooth
          cases smooth
      | lookup d =>
          simp only
          split <;> rfl
      | caching r served k =>
          simp only
          split
          · cases executed <;> rfl
          · rfl
      | _ => rfl

end Calls

/-! ### Books -/

/-- The prices of a token are multiples of the unit the members' text carries. -/
def ModelSpec.InUnits (m : ModelSpec) : Prop :=
  Units (m.inputPricePer1k / 1000) ∧ Units (m.outputPricePer1k / 1000)

theorem Units.natMul {x : ℚ} (units : Units x) (n : ℕ) : Units (n * x) := by
  obtain ⟨k, rfl⟩ := units
  refine ⟨n * k, ?_⟩
  push_cast
  ring

theorem Units.add {x y : ℚ} (left : Units x) (right : Units y) : Units (x + y) := by
  obtain ⟨k, rfl⟩ := left
  obtain ⟨k', rfl⟩ := right
  refine ⟨k + k', ?_⟩
  push_cast
  ring

theorem ModelSpec.InUnits.cost {m : ModelSpec} (units : m.InUnits) (n n' : ℕ) :
    Units (m.cost n n') := by
  have split : m.cost n n' = n * (m.inputPricePer1k / 1000) + n' * (m.outputPricePer1k / 1000) := by
    rw [ModelSpec.cost]
    ring
  exact split ▸ (units.1.natMul n).add (units.2.natMul n')

/-- The two ledgers at one time, with the reservations at hand. -/
def booksAt (m : Ledger) (l : RedisLedger) (ids : List ℕ) (now : ℚ) (rs : List Reservation) :
    Lockstep :=
  { memory := m, redis := l, reservations := rs.map fun r => (some r, some r), ids, now }

section Books

variable {cfg : RedisConfig} {m : Ledger} {l : RedisLedger} {ids ids' : List ℕ} {now : ℚ}
  {rs : List Reservation} {r : Reservation}

/-- The relation asks of the reservations at hand only that they are known. -/
theorem refines_holding (refines : (booksAt m l ids now rs).Refines cfg) (known : r.id ∈ ids) :
    (booksAt m l ids now [r]).Refines cfg := by
  refine ⟨refines.window, refines.clock, refines.agree, ?_⟩
  intro p mem
  cases List.mem_singleton.mp mem
  exact ⟨rfl, fun _ same => Option.some.inj same ▸ known⟩

/-- More identifiers may be in use. -/
theorem refines_more (refines : (booksAt m l ids now rs).Refines cfg) (more : ids ⊆ ids') :
    (booksAt m l ids' now []).Refines cfg := by
  refine ⟨refines.window, refines.clock, ?_, fun _ mem => absurd mem List.not_mem_nil⟩
  intro userId
  obtain ⟨tidy, es, reads, tidy', same⟩ := refines.agree userId
  exact ⟨tidy.later le_rfl more, es, reads, tidy'.later le_rfl more, same⟩

theorem refines_settle (refines : (booksAt m l ids now []).Refines cfg) (known : r.id ∈ ids)
    {c : Charge} (units : Units c.cost) :
    (booksAt (m.settle r c now).2 (RedisLedger.settle cfg .none l r c now).2.2 ids now []).Refines
      cfg := by
  have settled := (refines_holding refines known).settle (h := 0) rfl units
  exact ⟨settled.window, settled.clock, settled.agree, fun _ mem => absurd mem List.not_mem_nil⟩

theorem refines_release (refines : (booksAt m l ids now []).Refines cfg) (known : r.id ∈ ids) :
    (booksAt (m.release r).2 (RedisLedger.release cfg .none l r).2.2 ids now []).Refines cfg := by
  have released := (refines_holding refines known).release (h := 0) rfl
  exact ⟨released.window, released.clock, released.agree, fun _ mem => absurd mem List.not_mem_nil⟩

/-- Off the boundary a reserve is answered alike. -/
theorem refines_reserve (refines : (booksAt m l ids now []).Refines cfg) {i : ℕ} (fresh : i ∉ ids)
    {userId : String} {amount limit : ℚ} (units : Units amount)
    (off : ∀ e ∈ m.spend userId, e.timestamp ≠ now - m.windowSeconds) :
    (RedisLedger.reserve cfg .none l i userId amount limit now).1 =
        (m.reserve i userId amount limit now).1 ∧
      (booksAt (m.reserve i userId amount limit now).2
        (RedisLedger.reserve cfg .none l i userId amount limit now).2 (ids ++ [i]) now []).Refines
          cfg := by
  let both := booksAt m l ids now []
  have none : both.boundary userId now = 0 := by
    have nobody : (m.spend userId).filter
        (fun e => decide (e.timestamp = now - m.windowSeconds)) = [] :=
      List.filter_eq_nil_iff.mpr fun e mem exact => off e mem (of_decide_eq_true exact)
    exact congrArg amounts nobody
  constructor
  · obtain ⟨-, es, reads, tidy, same⟩ := refines.agree userId
    have total : amounts (m.inWindow userId now) = amounts (live cfg.windowSeconds now es) := by
      rw [show amounts (m.inWindow userId now) = _ from Lockstep.amounts_inWindow both userId now,
        none, add_zero]
      refine Eq.trans ?_ (congrArg amounts same)
      exact congrArg (fun w => amounts (live w now (m.spend userId))) refines.window
    rcases Ledger.reserve_cases (l := m) i userId amount limit now with
      ⟨less, refused⟩ | ⟨fits, granted⟩
    · rcases Lockstep.redis_reserve_cases (l := l) now reads tidy.units i amount limit with
        ⟨-, refused'⟩ | ⟨fits', -⟩
      · rw [refused, refused', total]
      · exact absurd less (not_lt.mpr (total ▸ fits'))
    · rcases Lockstep.redis_reserve_cases (l := l) now reads tidy.units i amount limit with
        ⟨less', -⟩ | ⟨-, granted'⟩
      · exact absurd less' (not_lt.mpr (total ▸ fits))
      · rw [granted, granted']
  · have reserved : (both.reserveBoth cfg i userId amount limit).1.Refines cfg :=
      refines.reserve fresh units fun fits => by
        have nothing : (booksAt m l ids now []).boundary userId (booksAt m l ids now []).now = 0 :=
          none
        rw [nothing, add_zero]
        exact fits
    exact ⟨reserved.window, reserved.clock, reserved.agree,
      fun _ mem => absurd mem List.not_mem_nil⟩

end Books

section Steps

variable {cfg : RedisConfig} {ts : TextSupport} {s : Settings} {i : ℕ} {t : Task}
  {sh sh' : Shared Ledger} {l : RedisLedger} {ids : List ℕ} {ph' : Phase} {a : TaskAct}
  {evs : List Event}

/-- The reserve of a request on both sides. -/
theorem refines_held {req : Request} {d : RoutingDecision} {now : ℚ} {m : Ledger}
    (routed : Routed ts s req.routing [] d)
    (refines : (booksAt m l ids now []).Refines cfg) (units : ∀ m ∈ s.catalog, m.InUnits)
    (fresh : i ∉ ids) (off : ∀ e ∈ m.spend req.userId, e.timestamp ≠ now - m.windowSeconds) :
    (booksAt (m.reserve i req.userId d.projectedCost (req.userLimit s) now).2
      (RedisLedger.reserve cfg .none l i req.userId d.projectedCost (req.userLimit s) now).2
      (ids ++ [i]) now []).Refines cfg :=
  (refines_reserve refines fresh (routed.cost ▸ (units _ routed.mem).cost _ _) off).2

/-- A step of a request in memory, and what its call does on Redis, keep the relation; the request
is one that may have reserved then. -/
theorem refines_step
    (step : Trans Ledger.backend ts s i t.request t.streaming sh t.phase a sh' ph' evs)
    (refines : (booksAt sh.ledger l ids sh.now []).Refines cfg)
    (units : ∀ m ∈ s.catalog, m.InUnits) (terms : t.phase.OnTerms ts s t.request.routing)
    (owns : t.phase.Owns i) (known : i ∈ ids ↔ t.phase.unreserved = false)
    (off : ∀ f d, a = .run f → t.phase = .reserving d →
      ∀ e ∈ sh.ledger.spend t.request.userId, e.timestamp ≠ sh.now - sh.ledger.windowSeconds) :
    (booksAt sh'.ledger (l.afterStep cfg s i t sh.now a) (ids ++ [i]) sh.now []).Refines cfg ∧
      (ph'.unreserved = true →
        sh'.ledger = sh.ledger ∧ l.afterStep cfg s i t sh.now a = l) := by
  have more : ids ⊆ ids ++ [i] := List.subset_append_left _ _
  have idle := refines_more refines more
  obtain ⟨req, streaming, ph⟩ := t
  simp only at step terms owns known off
  cases step
  case granted d _ ledger f admits reserved | refused d _ ledger f admits reserved =>
    have held := refines_held terms refines units (fun mem => Bool.noConfusion (known.mp mem))
      (off f d rfl rfl)
    have same : ledger = (sh.ledger.reserve i req.userId d.projectedCost (req.userLimit s)
      sh.now).2 := congrArg Prod.snd reserved.symm
    exact ⟨same ▸ held, fun before => Bool.noConfusion before⟩
  case finishShed r r' e x ledger f admits refund =>
    have named : r.id ∈ ids ++ [i] := owns.1 ▸ more (known.mpr rfl)
    have same : ledger = (sh.ledger.release r).2 := congrArg (fun out => out.2.2) refund.symm
    exact ⟨same ▸ refines_release idle named, fun before => Bool.noConfusion before⟩
  case refundRaise r r' x e ledger f admits refund | refund r r' x ledger f admits refund =>
    have named : r.id ∈ ids ++ [i] := owns ▸ more (known.mpr rfl)
    have same : ledger = (sh.ledger.release r).2 := congrArg (fun out => out.2.2) refund.symm
    exact ⟨same ▸ refines_release idle named, fun before => Bool.noConfusion before⟩
  case settleRaise r r' served k e ledger f admits bill
    | settleCache r r' served k ledger f admits bill
    | settleReturn r r' served k ledger f admits bill =>
    have named : r.id ∈ ids ++ [i] := owns.1 ▸ more (known.mpr rfl)
    have priced : Units (chargeFor served.model k.usage).cost := (units _ terms.mem).cost _ _
    have same : ledger = (sh.ledger.settle r (chargeFor served.model k.usage) sh.now).2 :=
      congrArg (fun out => out.2.2) bill.symm
    exact ⟨same ▸ refines_settle idle named priced, fun before => Bool.noConfusion before⟩
  case finalizeStore fin x e r ledger f admits bill
    | finalizeClose fin x e r ledger f admits bill =>
    have named : fin.reservation.id ∈ ids ++ [i] := owns ▸ more (known.mpr rfl)
    have priced : Units (chargeFor fin.decision.model fin.usage).cost :=
      (units _ terms.mem).cost _ _
    have same : ledger =
        (sh.ledger.settle fin.reservation (chargeFor fin.decision.model fin.usage) sh.now).2 :=
      congrArg (fun out => out.2.2) bill.symm
    exact ⟨same ▸ refines_settle idle named priced, fun before => Bool.noConfusion before⟩
  case cancelReserve networked | cancelShed networked | cancelSettle networked
    | cancelRefund networked => exact Bool.noConfusion networked
  case enterBuffered entering | enterStreamed entering =>
    cases entering <;> exact ⟨idle, fun _ => ⟨rfl, rfl⟩⟩
  case exit exiting =>
    cases exiting <;> exact ⟨idle, fun _ => ⟨rfl, rfl⟩⟩
  case quit quiet =>
    have same : l.afterStep cfg s i ⟨req, streaming, ph⟩ sh.now a = l := by
      cases ph with
      | arrived | lookup _ | replaying _ => cases a <;> rfl
      | _ => cases quiet
    exact ⟨same.symm ▸ idle, fun _ => ⟨rfl, same⟩⟩
  all_goals exact ⟨idle, fun _ => ⟨rfl, rfl⟩⟩

end Steps

/-! ### Runs -/

/-- A Redis ledger whose server's clock shows `now`. -/
def RedisLedger.showing (l : RedisLedger) (now : ℚ) : RedisLedger :=
  { l with server := { l.server with clock := now } }

/-- A step of the service over Redis, whose server's clock is the wall clock. -/
def World.stepOnRedis (cfg : RedisConfig) (ts : TextSupport) (s : Settings) (w : World RedisLedger)
    (a : WorldAct) : Option (World RedisLedger) :=
  (World.step (RedisLedger.backend cfg) ts s w a).map fun v =>
    v.on (v.shared.ledger.showing v.shared.now)

/-- The two services are in the same state but for their ledgers, and these are related. -/
structure Twins (cfg : RedisConfig) (ts : TextSupport) (s : Settings) (w : World RedisLedger)
    (m : World Ledger) : Prop where
  same : w = m.on w.shared.ledger
  reached : Reaches (World.step Ledger.backend ts s) Always
    (World.start s { windowSeconds := cfg.windowSeconds }) m
  books : ∃ ids, (∀ i t, m.tasks[i]? = some t → (i ∈ ids ↔ t.phase.unreserved = false)) ∧
    (∀ i ∈ ids, i < m.tasks.length) ∧
    (booksAt m.shared.ledger w.shared.ledger ids m.shared.now []).Refines cfg

section Runs

variable {cfg : RedisConfig} {ts : TextSupport} {s : Settings} {w : World RedisLedger}
  {m : World Ledger} {l : RedisLedger} {a : WorldAct}

theorem showing_of_clock {now : ℚ} (clock : l.server.clock = now) : l.showing now = l := by
  subst clock
  rfl

/-- A clock that shows the time already stays. -/
theorem stepOnRedis_of
    (stepped : World.step (RedisLedger.backend cfg) ts s w a = some (m.on l))
    (clock : l.server.clock = m.shared.now) : World.stepOnRedis cfg ts s w a = some (m.on l) := by
  rw [World.stepOnRedis, stepped]
  exact congrArg (fun l => some (m.on l)) (showing_of_clock clock)

/-- The ledger in memory holds nothing that is exactly as old as the window. -/
theorem off_of_kept {ledger : Ledger} {log : List Event} {window now : ℚ} {userId : String}
    (kept : Kept ledger log) (off : OffBoundary window now log userId) :
    ∀ e ∈ ledger.spend userId, e.timestamp ≠ now - window := by
  intro e mem exact
  rcases kept.entries userId e mem with ⟨r, granted, user, unclosed, eq⟩ | ⟨c, time, settled, eq⟩
  · refine off _ granted ?_
    rw [Event.entryTime, if_pos ⟨user, unclosed⟩, ← exact, eq]
    rfl
  · refine off _ settled ?_
    rw [Event.entryTime, if_pos rfl, ← exact, eq]
    rfl

theorem owns_of_reaches {σ : Type} {B : LedgerBackend σ} {ok : World σ → WorldAct → Prop}
    {w₀ w : World σ} (fresh : w₀.Fresh) (reached : Reaches (World.step B ts s) ok w₀ w) {i : ℕ}
    {t : Task} (here : w.tasks[i]? = some t) : t.phase.Owns i :=
  each_history (Q := fun i t _ => t.phase.Owns i) fresh reached (fun _ _ _ => trivial)
    (fun _ _ _ _ _ _ _ _ _ _ step owns => step.owns owns) i t here

/-- A step of a request that is at hand is the same step over Redis. -/
theorem worldStep_on {i : ℕ} {t : Task} {a : TaskAct} (here : m.tasks[i]? = some t)
    (alike : taskStep (RedisLedger.backend cfg) ts s i t (m.shared.on l) a =
      (taskStep Ledger.backend ts s i t m.shared a).map fun out =>
        Out.on out (l.afterStep cfg s i t m.shared.now a)) :
    World.step (RedisLedger.backend cfg) ts s (m.on l) (.task i a) =
      (World.step Ledger.backend ts s m (.task i a)).map fun m' =>
        m'.on (l.afterStep cfg s i t m.shared.now a) := by
  have here' : (m.on l).tasks[i]? = some t := here
  have alike' : taskStep (RedisLedger.backend cfg) ts s i t (m.on l).shared a = _ := alike
  simp only [World.step, here, here', alike']
  cases taskStep Ledger.backend ts s i t m.shared a <;> rfl

/-- The requests whose reserve has returned, after a step of request `i`. -/
theorem known_of_set {ids : List ℕ} {i : ℕ} {t : Task} {ph' : Phase}
    (known : ∀ j u, m.tasks[j]? = some u → (j ∈ ids ↔ u.phase.unreserved = false))
    (here : m.tasks[i]? = some t) (still : ph'.unreserved = true → t.phase.unreserved = true)
    {j : ℕ} {u : Task} (there : (m.tasks.set i { t with phase := ph' })[j]? = some u) :
    j ∈ (if ph'.unreserved then ids else ids ++ [i]) ↔ u.phase.unreserved = false := by
  rcases Pool.get_set there with ⟨rfl, rfl⟩ | ⟨other, old⟩
  · show j ∈ (if ph'.unreserved then ids else ids ++ [j]) ↔ ph'.unreserved = false
    cases early : ph'.unreserved with
    | true => rw [if_pos rfl, known j t here, still early]
    | false =>
        exact ⟨fun _ => rfl, fun _ => List.mem_append_right _ (List.mem_singleton_self j)⟩
  · rw [← known j u old]
    split
    · rfl
    · simp [other]

/-- A smooth step of a request is answered alike by both ledgers, and keeps their relation. -/
theorem books_of_step {ids : List ℕ} {i : ℕ} {t : Task} {a : TaskAct}
    (units : ∀ m ∈ s.catalog, m.InUnits)
    (reached : Reaches (World.step Ledger.backend ts s) Always
      (World.start s { windowSeconds := cfg.windowSeconds }) m)
    (known : ∀ j u, m.tasks[j]? = some u → (j ∈ ids ↔ u.phase.unreserved = false))
    (inside : ∀ j ∈ ids, j < m.tasks.length)
    (refines : (booksAt m.shared.ledger l ids m.shared.now []).Refines cfg)
    (here : m.tasks[i]? = some t) (smooth : t.Smooth cfg.windowSeconds m.shared.now m.log a) :
    taskStep (RedisLedger.backend cfg) ts s i t (m.shared.on l) a =
      (taskStep Ledger.backend ts s i t m.shared a).map (fun out =>
        Out.on out (l.afterStep cfg s i t m.shared.now a)) ∧
    ∀ m', World.step Ledger.backend ts s m (.task i a) = some m' →
      ∃ ids', (∀ j u, m'.tasks[j]? = some u → (j ∈ ids' ↔ u.phase.unreserved = false)) ∧
        (∀ j ∈ ids', j < m'.tasks.length) ∧
        (booksAt m'.shared.ledger (l.afterStep cfg s i t m.shared.now a) ids' m'.shared.now
          []).Refines cfg := by
  have terms := onTerms_of_reaches ⟨rfl, rfl⟩ reached here
  have owns := owns_of_reaches ⟨rfl, rfl⟩ reached here
  have off : ∀ f d, a = .run f → t.phase = .reserving d →
      ∀ e ∈ m.shared.ledger.spend t.request.userId,
        e.timestamp ≠ m.shared.now - m.shared.ledger.windowSeconds := by
    rintro f d rfl reserving
    rw [show m.shared.ledger.windowSeconds = cfg.windowSeconds from refines.window]
    exact off_of_kept (kept_of_reaches reached) (smooth.2 (by rw [reserving]; rfl))
  constructor
  · refine taskStep_on smooth fun f d run reserving => ?_
    have fresh : i ∉ ids := by
      rw [known i t here, reserving]
      exact Bool.noConfusion
    rw [reserving] at terms
    exact (refines_reserve refines fresh (terms.cost ▸ (units _ terms.mem).cost _ _)
      (off f d run reserving)).1
  · intro m' stepped
    obtain ⟨t', sh', ph', evs, here', made, rfl⟩ := task_of_step stepped
    cases Option.some.inj (here.symm.trans here')
    have step := trans_of_taskStep made
    obtain ⟨kept, idle⟩ := refines_step step refines units terms owns (known i t here) off
    refine ⟨if ph'.unreserved then ids else ids ++ [i],
      fun j u => known_of_set known here step.unreserved, ?_, ?_⟩
    · intro j mem
      rw [List.length_set]
      split at mem
      · exact inside j mem
      · rcases List.mem_append.mp mem with old | new
        · exact inside j old
        · exact List.mem_singleton.mp new ▸ (List.getElem?_eq_some_iff.mp here).1
    · show (booksAt sh'.ledger _ _ sh'.now []).Refines cfg
      rw [step.now]
      cases early : ph'.unreserved with
      | true =>
          obtain ⟨same, same'⟩ := idle early
          rw [same, same']
          exact refines
      | false => exact kept

/-- Smooth steps keep the relation, and are possible in both services or in neither. -/
theorem Twins.step (units : ∀ m ∈ s.catalog, m.InUnits) (twins : Twins cfg ts s w m)
    (smooth : Smooth cfg.windowSeconds m a) :
    (World.stepOnRedis cfg ts s w a = none ∧ World.step Ledger.backend ts s m a = none) ∨
      ∃ w' m', World.stepOnRedis cfg ts s w a = some w' ∧
        World.step Ledger.backend ts s m a = some m' ∧ Twins cfg ts s w' m' := by
  obtain ⟨same, reached, ids, known, inside, refines⟩ := twins
  generalize w.shared.ledger = l at same refines
  subst same
  have clock : l.server.clock = m.shared.now := refines.clock
  cases a with
  | submit request streaming =>
      let t : Task := { request, streaming, phase := .arrived }
      let m' : World Ledger := { m with tasks := m.tasks ++ [t] }
      refine .inr ⟨m'.on l, m', stepOnRedis_of rfl clock, rfl, rfl,
        reached.tail (a := .submit request streaming) trivial rfl, ids, ?_, ?_, refines⟩
      · intro i u here
        rcases Pool.get_spawn here with old | ⟨rfl, rfl⟩
        · exact known i u old
        · exact ⟨fun mem => absurd (inside _ mem) (Nat.lt_irrefl _), fun no => Bool.noConfusion no⟩
      · intro i mem
        rw [List.length_append]
        exact Nat.lt_add_right _ (inside i mem)
  | clock now mono =>
      exact .inr ⟨_, _, rfl, rfl, rfl, reached.tail (a := .clock now mono) trivial rfl, ids, known,
        inside, refines.moveTo smooth⟩
  | scale later =>
      let m' : World Ledger := { m with shared := World.scale ts s m.shared later }
      have keeps : m'.shared.ledger = m.shared.ledger ∧ m'.shared.now = m.shared.now :=
        scale_keeps later
      obtain ⟨books, time⟩ := keeps
      have stepped : World.step (RedisLedger.backend cfg) ts s (m.on l) (.scale later) =
          some (m'.on l) :=
        congrArg (fun sh => some (World.mk sh m.tasks m.log)) (scale_on later)
      refine .inr ⟨m'.on l, m', stepOnRedis_of stepped (clock.trans time.symm), rfl, rfl,
        reached.tail (a := .scale later) trivial rfl, ids, known, inside, ?_⟩
      show (booksAt m'.shared.ledger l ids m'.shared.now []).Refines cfg
      rw [books, time]
      exact refines
  | task i a =>
      cases here : m.tasks[i]? with
      | none =>
          have here' : (m.on l).tasks[i]? = none := here
          refine .inl ⟨?_, ?_⟩
          · simp only [World.stepOnRedis, World.step, here', Option.map_none]
          · simp only [World.step, here]
      | some t =>
          obtain ⟨alike, books⟩ := books_of_step units reached known inside refines here
            (smooth t here)
          have follows := worldStep_on here alike
          cases stepped : World.step Ledger.backend ts s m (.task i a) with
          | none => exact .inl ⟨by rw [World.stepOnRedis, follows, stepped]; rfl, rfl⟩
          | some m' =>
              rw [stepped] at follows
              obtain ⟨ids', known', inside', refines'⟩ := books m' stepped
              exact .inr ⟨_, m', stepOnRedis_of follows refines'.clock, rfl, rfl,
                reached.tail trivial stepped, ids', known', inside', refines'⟩

theorem twins_start (cfg : RedisConfig) (ts : TextSupport) (s : Settings) :
    Twins cfg ts s (World.start s {}) (World.start s { windowSeconds := cfg.windowSeconds }) := by
  have none := Lockstep.refines_start cfg 0
  refine ⟨rfl, .refl, [], ?_, fun _ mem => absurd mem List.not_mem_nil,
    none.window, none.clock, none.agree, none.held⟩
  intro i t here
  cases here

end Runs

/-- The two services go through any order of steps alike: the same run, with the same answers, or
neither of them has it. -/
theorem ledgers_interchangeable (cfg : RedisConfig) (ts : TextSupport) (s : Settings)
    (units : ∀ m ∈ s.catalog, m.InUnits) (acts : List WorldAct) :
    (exec (World.stepOnRedis cfg ts s) (Smooth cfg.windowSeconds) (World.start s {}) acts).map
        World.seen =
      (exec (World.step Ledger.backend ts s) (Smooth cfg.windowSeconds)
        (World.start s { windowSeconds := cfg.windowSeconds }) acts).map World.seen := by
  refine exec_map_eq _ _ (R := Twins cfg ts s) ?_ ?_ ?_ (twins_start cfg ts s) acts
  · intro w m twins
    rw [twins.same]
    rfl
  · intro w m a twins
    rw [twins.same]
    cases a <;> exact Iff.rfl
  · intro w m a twins smooth
    exact twins.step units smooth

theorem defaultCatalog_inUnits : ∀ m ∈ defaultCatalog, m.InUnits := by
  rw [defaultCatalog]
  simp only [List.forall_mem_cons]
  refine ⟨⟨⟨2500, ?_⟩, 12500, ?_⟩, ⟨⟨30000, ?_⟩, 150000, ?_⟩, ⟨⟨150000, ?_⟩, 750000, ?_⟩,
    List.forall_mem_nil _⟩ <;> norm_num

/-- The request is charged by both. -/
theorem ledgers_interchangeable_caching :
    ∃ w : World Ledger, w.tasks.map (·.phase.unreserved) = [false] ∧
      (exec (World.stepOnRedis {} .ascii oneSlotCached) (Smooth (24 * 3600))
        (World.start oneSlotCached {}) cachingActs).map World.seen = some w.seen := by
  have ran : ((exec (World.step Ledger.backend .ascii oneSlotCached) (Smooth (24 * 3600))
      (World.start oneSlotCached { windowSeconds := 24 * 3600 }) cachingActs).map fun w =>
        w.tasks.map (·.phase.unreserved)) = some [false] := by
    decide +kernel
  obtain ⟨w, ran, reserved⟩ := Option.map_eq_some_iff.mp ran
  have both := ledgers_interchangeable {} .ascii oneSlotCached defaultCatalog_inUnits cachingActs
  exact ⟨w, reserved, both.trans (congrArg (Option.map World.seen) ran)⟩

end LLMInference
