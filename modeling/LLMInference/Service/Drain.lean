import LLMInference.Service.Capacity
import LLMInference.Service.Queue

/-!
The work that is left in the service.

`Phase.work` counts the steps a request can still make. `World.work` adds them up, with one more
for every woken waiter.

* `Trans.work`: the step lemma. A step takes work away, but for what a chunk of a stream brings;
  a slot it hands on may wake one waiter.
* `Phase.ready`: a request that is not parked can make a step.
* `service_drains`: however the requests are scheduled, they come to an end, and they can always
  be brought to it.
-/

namespace LLMInference

open Runs

/-! ### The measure -/

/-- The models of the catalog a failover call may still move on to. -/
def FailoverCall.untried (s : Settings) (c : FailoverCall) : ℕ :=
  (s.catalog.filter fun m => decide (m.name ∉ c.excluded.insert c.target)).length

theorem FailoverCall.untried_le (s : Settings) (c : FailoverCall) :
    c.untried s ≤ s.catalog.length := List.length_filter_le _ _

theorem FailoverCall.untried_lt {ts : TextSupport} {s : Settings} {c next : FailoverCall}
    (moved : c.moveOn ts s = some next) : next.untried s < c.untried s := by
  obtain ⟨-, -, -, excluded, routed⟩ := moveOn_some moved
  have sound := route_sound routed
  let fresh (c : FailoverCall) (m : ModelSpec) : Bool :=
    decide (m.name ∉ c.excluded.insert c.target)
  have narrows : s.catalog.filter (fresh next) =
      (s.catalog.filter (fresh c)).filter (fresh next) := by
    rw [List.filter_filter]
    refine List.filter_congr fun m _ => ?_
    rw [Bool.eq_iff_iff, Bool.and_eq_true, decide_eq_true_eq, decide_eq_true_eq, excluded]
    refine ⟨fun out => ⟨out, fun mem => out (List.mem_insert_of_mem mem)⟩, fun both => both.1⟩
  rw [untried, untried, show s.catalog.filter _ = _ from narrows,
    List.length_filter_lt_length_iff_exists]
  refine ⟨next.current.model, List.mem_filter.mpr ⟨sound.mem, ?_⟩, ?_⟩
  · exact decide_eq_true (excluded ▸ sound.notExcluded)
  · exact fun out => of_decide_eq_true out (List.mem_insert_self)

/-- The steps a request can still make, unless a stream brings chunks. -/
def Phase.work (s : Settings) : Phase → ℕ
  | .arrived => 2 * s.catalog.length + 11
  | .lookup _ => 2 * s.catalog.length + 10
  | .reserving _ => 2 * s.catalog.length + 9
  | .granted .. => 2 * s.catalog.length + 8
  | .queued .. => 2 * s.catalog.length + 7
  | .attempting _ c => 2 * c.untried s + 5
  | .generating _ c => 2 * c.untried s + 4
  | .yielded _ .start => 6
  | .yielded _ .delta => 6
  | .pulling _ => 5
  | .yielded _ _ => 4
  | .settling .. => 3
  | .finalizing .. => 3
  | .caching .. => 2
  | .refunding .. => 2
  | .storing .. => 2
  | .shedding _ => 1
  | .replaying rest => rest.length + 1
  | .done _ => 0

/-- The steps the requests can still make, and the wake-ups on their way. -/
def World.work {σ : Type} (s : Settings) (w : World σ) : ℕ :=
  (w.tasks.map (·.phase.work s)).sum + w.shared.gate.marked

/-- The work an action brings: a new request, a chunk, or the time it takes to read a clock. -/
def WorldAct.brings (s : Settings) : WorldAct → ℕ
  | .submit .. => 2 * s.catalog.length + 12
  | .clock .. => 1
  | .scale _ => 0
  | .task _ (.chunk _) => 2
  | .task .. => 0

/-- The autoscaler does not step in. -/
def Unscaled {σ : Type} (_ : World σ) : WorldAct → Prop
  | .scale _ => False
  | _ => True

instance {σ : Type} (w : World σ) (a : WorldAct) : Decidable (Unscaled w a) :=
  match a with
  | .scale _ => isFalse id
  | .submit .. | .clock .. | .task .. => isTrue trivial

/-- A step that a request makes by itself, with every call it waits for coming back. -/
inductive Ready : WorldAct → Prop
  | run (i : ℕ) : Ready (.task i (.run .none))
  | wake (i : ℕ) : Ready (.task i .wake)
  | answer (i : ℕ) (k : Completion) : Ready (.task i (.answer (.completion k)))
  | exhausted (i : ℕ) : Ready (.task i .exhausted)
  | next (i : ℕ) : Ready (.task i .next)

theorem Phase.holdsSlot_of_parked {ph : Phase} (parked : ph.parked = true) :
    ph.holdsSlot = false := by
  cases ph <;> first | rfl | cases parked

theorem Phase.parked_of_gone {ph : Phase} (gone : ph.gone = true) : ph.parked = false := by
  cases ph <;> first | rfl | cases gone

section Steps

variable {σ : Type} {B : LedgerBackend σ} {ts : TextSupport} {s : Settings} {i : ℕ}
  {sh sh' : Shared σ} {ph ph' : Phase} {a : TaskAct} {evs : List Event}

/-! ### Steps take work away -/

/-- A cached stream has at most three events. -/
theorem length_of_lookup {t : Task} {d : RoutingDecision} {a : TaskAct}
    {rest : List StreamEvent} (here : t.phase = .lookup d)
    (made : taskStep B ts s i t sh a = some (sh', .replaying rest, evs)) :
    rest.length ≤ 2 := by
  cases a with
  | run f =>
      simp only [taskStep, here] at made
      obtain ⟨-, looked⟩ := Option.ite_none_right_eq_some.mp made
      replace looked : (lookupCache i t sh d).2.1 = .replaying rest :=
        congrArg (fun out : Out σ => out.2.1) (Option.some.inj looked)
      unfold lookupCache at looked
      split at looked
      · cases looked
      · split at looked
        · split at looked
          · simp only [replayCached] at looked
            cases looked
            split <;> simp
          · cases looked
        · cases looked
  | _ => simp [taskStep, here] at made

section Gate

variable {g : CapacityGate}

theorem marked_release (g : CapacityGate) : g.release.marked ≤ g.marked + 1 := by
  have marks := (countP_notify 1 g.waiters).2
  show (notify 1 g.waiters).countP (·.marked) ≤ g.waiters.countP (·.marked) + 1
  omega

theorem marked_abandon (g : CapacityGate) (i : ℕ) : (g.abandon i).marked ≤ g.marked :=
  List.eraseP_sublist.countP_le

/-- Who runs gives up a mark. -/
theorem marked_eraseP (runnable : g.runnable i = true) :
    (g.waiters.eraseP fun w => w.id == i).countP (·.marked) + 1 = g.marked := by
  obtain ⟨w, found, marked⟩ := CapacityGate.runnable_iff.mp runnable
  have counts := (CapacityGate.counts_leave found (g.abandon i) rfl).2
  rwa [if_pos marked] at counts

end Gate

/-- A step takes work away, unless it is given a chunk. -/
theorem Trans.work {req : Request} {streaming : Bool}
    (step : Trans B ts s i req streaming sh ph a sh' ph' evs)
    (runnable : a = .wake → ph.parked = true → sh.gate.runnable i = true)
    (short : ∀ d rest, ph = .lookup d → ph' = .replaying rest → rest.length ≤ 2) :
    ph'.work s + sh'.gate.marked + 1 ≤
      ph.work s + sh.gate.marked + (WorldAct.task i a).brings s := by
  cases step
  case hitStream d _ _ rest _ _ =>
    have three := short d rest rfl rfl
    simp only [Phase.work]
    omega
  case enterBuffered d r gate buffered entering =>
    have most := FailoverCall.untried_le s (.start req.routing d)
    cases entering with
    | atOnce room =>
        show _ + sh.gate.marked + 1 ≤ _
        simp only [Phase.work]
        omega
    | woken marked room =>
        have fewer := marked_eraseP marked
        show _ + (sh.gate.waiters.eraseP fun w => w.id == i).countP (·.marked) + 1 ≤ _
        simp only [Phase.work]
        omega
  case enterStreamed entering =>
    cases entering with
    | atOnce room =>
        show _ + sh.gate.marked + 1 ≤ _
        simp only [Phase.work]
        omega
    | woken marked room =>
        have fewer := marked_eraseP marked
        show _ + (sh.gate.waiters.eraseP fun w => w.id == i).countP (·.marked) + 1 ≤ _
        simp only [Phase.work]
        omega
  case park full =>
    have same := (CapacityGate.counts_park i sh.gate.waiters).2
    show _ + (sh.gate.waiters ++ [(⟨i, false⟩ : Waiter)]).countP (·.marked) + 1 ≤
      _ + sh.gate.waiters.countP (·.marked) + _
    simp only [Phase.work]
    omega
  case repark full =>
    have fewer := marked_eraseP (runnable rfl rfl)
    have same := (CapacityGate.counts_park i (sh.gate.waiters.eraseP fun w => w.id == i)).2
    show _ + ((sh.gate.waiters.eraseP fun w => w.id == i) ++
      [(⟨i, false⟩ : Waiter)]).countP (·.marked) + 1 ≤ _
    simp only [Phase.work]
    omega
  case timeout | cancelQueued =>
    have fewer := marked_abandon sh.gate i
    simp only [Phase.work]
    omega
  case deniedNext moved _ | faultNext moved _ =>
    have fewer := FailoverCall.untried_lt moved
    show _ + sh.gate.marked + 1 ≤ _
    simp only [Phase.work]
    omega
  case settleReturn | storeReturn | refundRaise | refund | finalizeClose | storeClose
    | cancelGenerating | cancelSettle | cancelCaching | cancelRefund =>
    have one := marked_release sh.gate
    show _ + sh.gate.release.marked + 1 ≤ _
    simp only [Phase.work]
    omega
  case exit exiting =>
    cases exiting with
    | @closed y =>
        cases y <;> simp only [Phase.work] <;> omega
    | _ =>
        simp only [Phase.work]
        omega
  case quit quiet =>
    cases ph with
    | arrived | lookup _ | replaying _ =>
        simp only [Phase.work]
        omega
    | _ => cases quiet
  case replay =>
    simp only [Phase.work, List.length_cons]
    omega
  case chunkText | chunkEmpty =>
    simp only [Phase.work, WorldAct.brings]
    omega
  all_goals
    show _ + sh.gate.marked + 1 ≤ _
    simp only [Phase.work]
    omega

/-- A step of the service takes work away, but for what its action brings. -/
theorem work_of_step {w w' : World σ} {a : WorldAct} (unscaled : Unscaled w a)
    (stepped : World.step B ts s w a = some w') : w'.work s + 1 ≤ w.work s + a.brings s := by
  cases a with
  | submit request streaming =>
      cases stepped
      simp only [World.work, List.map_append, List.sum_append, List.map_singleton,
        List.sum_singleton, Phase.work, WorldAct.brings]
      omega
  | clock now mono =>
      cases stepped
      exact le_rfl
  | scale later => exact unscaled.elim
  | task i a =>
      obtain ⟨t, sh, ph, evs, here, made, rfl⟩ := task_of_step stepped
      have step := trans_of_taskStep made
      have less := step.work (s := s)
        (fun woken _ => runnable_of_wake (woken ▸ made))
        (fun d rest looked replays => length_of_lookup looked (replays ▸ made))
      have sums : ((w.tasks.set i { t with phase := ph }).map (·.phase.work s)).sum +
          t.phase.work s = (w.tasks.map (·.phase.work s)).sum + ph.work s :=
        Pool.sum_step here _ _
      simp only [World.work]
      omega

/-! ### Every request can move on -/

/-- A request that is under way and not parked can make a step. -/
theorem Phase.ready {t : Task} (going : t.phase.gone = false) (outside : t.phase.parked = false)
    (B : LedgerBackend σ) (ts : TextSupport) (s : Settings) (i : ℕ) (sh : Shared σ) :
    ∃ a, Ready (.task i a) ∧ (WorldAct.task i a).brings s = 0 ∧
      (taskStep B ts s i t sh a).isSome = true := by
  have reachable : B.admits .none = true := by simp [LedgerBackend.admits]
  obtain ⟨req, streaming, ph⟩ := t
  cases ph with
  | done e => cases going
  | queued d r => cases outside
  | generating r c =>
      exact ⟨_, .answer i { text := "", inputTokens := 0, outputTokens := 0 }, rfl, rfl⟩
  | pulling st => exact ⟨_, .exhausted i, rfl, rfl⟩
  | yielded st y =>
      refine ⟨_, .next i, rfl, ?_⟩
      cases y <;> rfl
  | replaying rest =>
      refine ⟨_, .next i, rfl, ?_⟩
      cases rest <;> rfl
  | _ =>
      refine ⟨_, .run i, rfl, ?_⟩
      simp only [taskStep, reachable, if_true]
      rfl

/-- In a run that loses no wake-up every request is over, or one of them can make a step. -/
theorem ready_of_reaches {ledger : σ} {w : World σ}
    (reached : Reaches (World.step B ts s) World.KeepsMarks (World.start s ledger) w) :
    (∀ t ∈ w.tasks, t.phase.gone = true) ∨
      ∃ i a w', Ready (.task i a) ∧ (WorldAct.task i a).brings s = 0 ∧
        World.step B ts s w (.task i a) = some w' := by
  have enabled : ∀ {i t a}, w.tasks[i]? = some t → (taskStep B ts s i t w.shared a).isSome = true →
      ∃ w', World.step B ts s w (.task i a) = some w' := by
    intro i t a here made
    obtain ⟨⟨sh, ph, evs⟩, made⟩ := Option.isSome_iff_exists.mp made
    exact ⟨_, by simp only [World.step, here, made]; rfl⟩
  by_cases undone : ∀ t ∈ w.tasks, t.phase.gone = true
  · exact .inl undone
  by_cases outside : ∃ t ∈ w.tasks, t.phase.gone = false ∧ t.phase.parked = false
  · obtain ⟨t, mem, going, outside⟩ := outside
    obtain ⟨i, here⟩ := List.mem_iff_getElem?.mp mem
    obtain ⟨a, ready, brings, made⟩ := Phase.ready going outside B ts s i w.shared
    obtain ⟨w', stepped⟩ := enabled here made
    exact .inr ⟨i, a, w', ready, brings, stepped⟩
  -- Whoever is under way is parked, so every slot is free and one of them was woken.
  push Not at undone outside
  obtain ⟨t, mem, going⟩ := undone
  have parked : ∀ u ∈ w.tasks, u.phase.gone = false → u.phase.parked = true :=
    fun u mem going => Bool.not_eq_false _ ▸ outside u mem going
  obtain ⟨i, here⟩ := List.mem_iff_getElem?.mp mem
  have idle : w.shared.gate.active = 0 := by
    rw [(counted_of_reaches reached).active, Nat.cast_eq_zero, List.countP_eq_zero]
    intro u mem holds
    cases gone : u.phase.gone with
    | true => exact absurd holds (by simp [Phase.holdsSlot_of_gone gone])
    | false => exact absurd holds (by simp [Phase.holdsSlot_of_parked (parked u mem gone)])
  have free : w.shared.gate.active < w.shared.gate.capacity := by
    rw [idle, fitted_of_reaches reached]
    exact lt_of_lt_of_le Int.zero_lt_one (le_max_left _ _)
  obtain ⟨j, u, there, waits, runnable⟩ :=
    runnable_of_free reached here (parked t mem (Bool.not_eq_true _ ▸ going)) free
  obtain ⟨w', stepped, -⟩ := admitted_of_runnable B ts s there waits runnable free
  exact .inr ⟨j, .wake, w', .wake j, rfl, stepped⟩

/-- A step of its own loses no wake-up. -/
theorem Ready.keepsMarks {a : WorldAct} (ready : Ready a) (w : World σ) : w.KeepsMarks a := by
  cases ready <;> trivial

/-- However the requests are scheduled, faults and cancellations included, their steps are no more
than the work that is left and what new requests, chunks and clock readings bring. In a run that
has lost no wake-up the service is never stuck before every request is over, and steps the
requests make by themselves, no more than the work that is left, bring it there: no slot is taken
then, and nobody waits for one. -/
theorem service_drains {ledger : σ} {w : World σ}
    (reached : Reaches (World.step B ts s) World.KeepsMarks (World.start s ledger) w) :
    (∀ acts w', exec (World.step B ts s) Unscaled w acts = some w' →
      acts.length + w'.work s ≤ w.work s + (acts.map (·.brings s)).sum) ∧
    ((∀ a, Ready a → World.step B ts s w a = none) → ∀ t ∈ w.tasks, t.phase.gone = true) ∧
    ∃ acts w', (∀ a ∈ acts, Ready a) ∧ acts.length ≤ w.work s ∧
      exec (World.step B ts s) Always w acts = some w' ∧
      (∀ t ∈ w'.tasks, t.phase.gone = true) ∧
      w'.shared.gate.active = 0 ∧ w'.shared.gate.waiting = 0 := by
  refine ⟨fun acts w' ran => ?_, fun stuck => ?_, ?_⟩
  · exact exec_length_le_add _ _ (fun _ _ _ unscaled stepped => work_of_step unscaled stepped)
      acts ran
  · rcases ready_of_reaches reached with ended | ⟨i, a, w', ready, -, stepped⟩
    · exact ended
    · rw [stuck _ ready] at stepped
      cases stepped
  · let lossless (w : World σ) : Prop :=
      Reaches (World.step B ts s) World.KeepsMarks (World.start s ledger) w
    have progress : ∀ w, lossless w → (∀ t ∈ w.tasks, t.phase.gone = true) ∨ ∃ a w', Ready a ∧
        Always w a ∧ World.step B ts s w a = some w' ∧ lossless w' ∧ w'.work s < w.work s := by
      intro w reached
      rcases ready_of_reaches reached with ended | ⟨i, a, w', ready, brings, stepped⟩
      · exact .inl ended
      · have unscaled : Unscaled w (.task i a) := trivial
        have less := work_of_step unscaled stepped
        exact .inr ⟨_, w', ready, trivial, stepped, reached.tail (ready.keepsMarks w) stepped,
          by omega⟩
    obtain ⟨acts, w', ready, short, ran, reached', ended⟩ := exists_exec_of_progress
      (World.step B ts s) Always lossless _ Ready (World.work s) progress reached
    have counted := counted_of_reaches reached'
    refine ⟨acts, w', ready, short, ran, ended, ?_, ?_⟩
    · rw [counted.active, Nat.cast_eq_zero, List.countP_eq_zero]
      intro t mem
      simp [Phase.holdsSlot_of_gone (ended t mem)]
    · rw [counted.waiting, Nat.cast_eq_zero, List.countP_eq_zero]
      intro t mem
      simp [Phase.parked_of_gone (ended t mem)]

end Steps

/-- One request was woken for the slot the other has returned. -/
theorem service_drains_in_handover :
    ∃ w acts w', Reaches (World.step Ledger.backend .ascii oneSlot) World.KeepsMarks
        (World.start oneSlot {}) w ∧
      w.tasks.map (·.phase.gone) = [true, false] ∧ acts.length ≤ 14 ∧
      exec (World.step Ledger.backend .ascii oneSlot) Always w acts = some w' ∧
      ∀ t ∈ w'.tasks, t.phase.gone = true := by
  have holds : execHolds (World.step Ledger.backend .ascii oneSlot) World.KeepsMarks
      (World.start oneSlot {}) handover.dropLast
      (fun w => decide (w.tasks.map (·.phase.gone) = [true, false] ∧ w.work oneSlot = 14)) =
        true := by
    decide +kernel
  obtain ⟨w, reached, both⟩ := exists_reaches_of_execHolds _ _ holds
  obtain ⟨gone, work⟩ := of_decide_eq_true both
  obtain ⟨-, -, acts, w', -, short, ran, ended, -⟩ := service_drains reached
  exact ⟨w, acts, w', reached, gone, work ▸ short, ran, ended⟩

end LLMInference
