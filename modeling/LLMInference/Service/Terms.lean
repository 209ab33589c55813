import LLMInference.Cost.Memory
import LLMInference.Service.History

/-!
What `handle` serves stays within the request's own terms (`app/service.py`,
`app/router.py`).

A decision is on the request's terms when it is `Routed` for it. The primary decision is, and
failing over keeps it so: the next model is routed for the same request around a grown
exclusion list, and a pinned request never moves on.

* `Routed.unpin`, `FailoverCall.routed_moveOn`: the loop lemma of failover.
* `Trans.deal`: the steps of a request keep its decision on terms.
* `served_within_terms`: what an uncached result was billed, and by which model.
-/

namespace LLMInference

open Runs

section Failover

variable {ts : TextSupport} {s : Settings} {req : RouteRequest}

/-- What is routed for an unpinned request is routed for it whether or not the pin is
cleared, and whatever was excluded. -/
theorem Routed.unpin {exclude : List String} {d : RoutingDecision} (unpinned : req.pinned = none)
    (routed : Routed ts s { req with forceModel := none } exclude d) : Routed ts s req [] d where
  mem := routed.mem
  notExcluded := List.not_mem_nil
  complexity := routed.complexity
  inputTokens := routed.inputTokens
  output := routed.output
  fits := routed.fits
  cost := routed.cost
  affordable := routed.affordable
  pinned := by
    intro name pinned
    cases unpinned.symm.trans pinned
  tier := fun _ => routed.tier rfl

/-- One turn of the failover loop keeps the request and the terms. -/
theorem FailoverCall.routed_moveOn {c next : FailoverCall} (moved : c.moveOn ts s = some next) :
    next.request = c.request ∧ Routed ts s c.request [] next.current := by
  obtain ⟨-, unpinned, same, -, routed⟩ := moveOn_some moved
  exact ⟨same, (route_sound routed).unpin unpinned⟩

/-- Within the limits given to the provider a generation costs at most what was projected. -/
theorem Routed.bill_le {exclude : List String} {d : RoutingDecision}
    (routed : Routed ts s req exclude d) (priced : s.Priced) {k : Completion}
    (input : k.inputTokens ≤ d.inputTokens) (output : k.outputTokens ≤ d.projectedOutputTokens) :
    (chargeFor d.model k.usage).cost ≤ d.projectedCost :=
  (ModelSpec.cost_mono (priced _ routed.mem) input output).trans_eq routed.cost.symm

end Failover

/-- No result was returned. -/
def Unanswered (h : List Event) : Prop := ∀ i res, .returned i res ∉ h

/-- Nor was anything billed. -/
def Unbilled (h : List Event) : Prop := Unanswered h ∧ ∀ i c, .billed i c ∉ h

/-- The result was generated on the request's terms and billed at the price of its model. -/
structure Delivered (ts : TextSupport) (s : Settings) (i : ℕ) (req : Request) (h : List Event)
    (served : RoutingDecision) (k : Completion) : Prop where
  routed : Routed ts s req.routing [] served
  generated : .generated i served k ∈ h
  billed : .billed i (chargeFor served.model k.usage) ∈ h
  once : ∀ c, .billed i c ∈ h → c = chargeFor served.model k.usage

/-- The decision a buffered request goes by, at each phase. -/
def Deal (ts : TextSupport) (s : Settings) (i : ℕ) (t : Task) (h : List Event) : Prop :=
  match t.phase with
  | .arrived => Unbilled h
  | .lookup d | .reserving d | .granted d _ | .queued d _ =>
      Routed ts s t.request.routing [] d ∧ Unbilled h
  | .attempting _ c | .generating _ c =>
      c.request = t.request.routing ∧ Routed ts s t.request.routing [] c.current ∧ Unbilled h
  | .settling _ served k =>
      Routed ts s t.request.routing [] served ∧ .generated i served k ∈ h ∧ Unbilled h
  | .caching _ served k => Delivered ts s i t.request h served k ∧ Unanswered h
  | .done _ => ∀ res, .returned i res ∈ h → res.cached = false →
      ∃ served k, Delivered ts s i t.request h served k ∧ res = servedResult served k
  | _ => Unanswered h

section Steps

variable {σ : Type} {B : LedgerBackend σ} {ts : TextSupport} {s : Settings} {i : ℕ} {t : Task}
  {h evs : List Event} {sh sh' : Shared σ} {ph' : Phase} {a : TaskAct}

theorem Unanswered.grow (none : Unanswered h) (more : Unanswered evs) :
    Unanswered (h ++ history i evs) := by
  intro j res mem
  rcases List.mem_append.mp mem with old | new
  · exact none j res old
  · exact more j res (mem_history.mp new).1

theorem Unbilled.grow (none : Unbilled h) (more : Unbilled evs) :
    Unbilled (h ++ history i evs) := by
  constructor
  · exact none.1.grow more.1
  · intro j c mem
    rcases List.mem_append.mp mem with old | new
    · exact none.2 j c old
    · exact more.2 j c (mem_history.mp new).1

theorem unanswered_settleEvents (i : ℕ) (r : Reservation) (c : Charge) (now : ℚ) (f : LedgerFault) :
    Unanswered (settleEvents i r c now f) := by
  intro j res mem
  unfold settleEvents at mem
  split at mem <;> simp at mem

theorem unanswered_releaseEvents (i : ℕ) (r : Reservation) (f : LedgerFault) :
    Unanswered (releaseEvents i r f) := by
  intro j res mem
  unfold releaseEvents at mem
  split at mem <;> simp at mem

/-- An unanswered request that is over owes nothing. -/
theorem Unanswered.gone (none : Unanswered h) :
    ∀ res, .returned i res ∈ h → res.cached = false →
      ∃ served k, Delivered ts s i t.request h served k ∧ res = servedResult served k :=
  fun res mem => absurd mem (none i res)

/-- The settle of a generation delivers it. -/
theorem delivered_of_settle {req : Request} {served : RoutingDecision} {k : Completion}
    {r : Reservation} {now : ℚ} {f : LedgerFault} {rest : List Event}
    (routed : Routed ts s req.routing [] served) (generated : .generated i served k ∈ h)
    (unbilled : Unbilled h) (quiet : ∀ c, .billed i c ∉ rest) :
    Delivered ts s i req
      (h ++ history i (settleEvents i r (chargeFor served.model k.usage) now f ++ rest)) served k := by
  have bill : .billed i (chargeFor served.model k.usage) ∈
      settleEvents i r (chargeFor served.model k.usage) now f := List.mem_cons_self
  refine ⟨routed, List.mem_append_left _ generated, ?_, ?_⟩
  · apply List.mem_append_right
    exact mem_history.mpr ⟨List.mem_append_left _ bill, rfl⟩
  · intro c mem
    rcases List.mem_append.mp mem with old | new
    · exact absurd old (unbilled.2 i c)
    · rcases List.mem_append.mp (mem_history.mp new).1 with settle | later
      · unfold settleEvents at settle
        split at settle <;> simpa using settle
      · exact absurd later (quiet c)

theorem Delivered.grow {req : Request} {served : RoutingDecision} {k : Completion}
    (delivered : Delivered ts s i req h served k) (quiet : ∀ c, .billed i c ∉ evs) :
    Delivered ts s i req (h ++ history i evs) served k := by
  refine ⟨delivered.routed, List.mem_append_left _ delivered.generated,
    List.mem_append_left _ delivered.billed, ?_⟩
  intro c mem
  rcases List.mem_append.mp mem with old | new
  · exact delivered.once c old
  · exact absurd (mem_history.mp new).1 (quiet c)

/-- The result a delivered request returns is the one it was billed for. -/
theorem Delivered.gone {req : Request} {served : RoutingDecision} {k : Completion}
    (delivered : Delivered ts s i req h served k)
    (one : ∀ res, .returned i res ∈ h → res = servedResult served k) :
    ∀ res, .returned i res ∈ h → res.cached = false →
      ∃ served k, Delivered ts s i req h served k ∧ res = servedResult served k :=
  fun res mem _ => ⟨served, k, delivered, one res mem⟩

/-- A step of the request keeps it on its terms. -/
theorem Trans.deal (step : Trans B ts s i t.request t.streaming sh t.phase a sh' ph' evs)
    (deal : Deal ts s i t h) : Deal ts s i { t with phase := ph' } (h ++ history i evs) := by
  obtain ⟨req, streaming, ph⟩ := t
  simp only at step
  cases step with
  | rejected _ => exact (Unanswered.grow deal.1 (by simp [Unanswered])).gone
  | toLookup routed | toReserve routed =>
      exact ⟨route_sound routed, Unbilled.grow deal (by simp [Unbilled, Unanswered])⟩
  | hit _ =>
      intro res mem uncached
      rcases List.mem_append.mp mem with old | new
      · exact absurd old (deal.2.1 i res)
      · cases List.mem_singleton.mp (mem_history.mp new).1
        cases uncached
  | hitStream _ => exact Unanswered.grow deal.2.1 (by simp [Unanswered])
  | miss _ => exact ⟨deal.1, Unbilled.grow deal.2 (by simp [Unbilled, Unanswered])⟩
  | granted _ _ =>
      refine ⟨deal.1, Unbilled.grow deal.2 ?_⟩
      split <;> simp [Unbilled, Unanswered]
  | refused _ _ | cancelReserve _ =>
      refine (Unanswered.grow deal.2.1 ?_).gone
      split <;> simp [Unanswered]
  | enterBuffered entering _ =>
      cases entering <;>
        exact ⟨rfl, deal.1, Unbilled.grow deal.2 (by simp [Unbilled, Unanswered])⟩
  | enterStreamed entering _ =>
      cases entering <;> exact Unanswered.grow deal.2.1 (by simp [Unanswered])
  | park _ | repark _ => exact ⟨deal.1, Unbilled.grow deal.2 (by simp [Unbilled, Unanswered])⟩
  | timeout => exact Unanswered.grow deal.2.1 (by simp [Unanswered])
  | finishShed _ _ | cancelShed _ =>
      exact (Unanswered.grow deal (unanswered_releaseEvents _ _ _)).gone
  | allowed _ => exact ⟨deal.1, deal.2.1, Unbilled.grow deal.2.2 (by simp [Unbilled, Unanswered])⟩
  | deniedNext moved _ | faultNext _ moved _ =>
      obtain ⟨same, routed⟩ := FailoverCall.routed_moveOn moved
      obtain ⟨request, -, unbilled⟩ := deal
      exact ⟨same.trans request, request ▸ routed,
        Unbilled.grow unbilled (by simp [Unbilled, Unanswered])⟩
  | deniedRaise _ | faultRaise _ | otherRaise _ =>
      exact Unanswered.grow deal.2.2.1 (by simp [Unanswered])
  | completed =>
      refine ⟨deal.2.1, ?_, Unbilled.grow deal.2.2 (by simp [Unbilled, Unanswered])⟩
      apply List.mem_append_right
      exact mem_history.mpr ⟨List.mem_singleton_self _, rfl⟩
  | settleRaise _ _ => exact Unanswered.grow deal.2.2.1 (unanswered_settleEvents _ _ _ _ _)
  | settleCache _ _ =>
      obtain ⟨routed, generated, unbilled⟩ := deal
      refine ⟨delivered_of_settle routed generated unbilled (by simp), ?_⟩
      apply unbilled.1.grow
      intro j res mem
      rcases List.mem_append.mp mem with settle | rest
      · exact unanswered_settleEvents _ _ _ _ _ j res settle
      · simp at rest
  | settleReturn _ _ =>
      obtain ⟨routed, generated, unbilled⟩ := deal
      apply (delivered_of_settle routed generated unbilled (by simp)).gone
      intro res mem
      rcases List.mem_append.mp mem with old | new
      · exact absurd old (unbilled.1 i res)
      · rcases List.mem_append.mp (mem_history.mp new).1 with settle | rest
        · exact absurd settle (unanswered_settleEvents _ _ _ _ _ i res)
        · simpa using rest
  | storeReturn =>
      obtain ⟨delivered, unanswered⟩ := deal
      apply (delivered.grow (by simp)).gone
      intro res mem
      rcases List.mem_append.mp mem with old | new
      · exact absurd old (unanswered i res)
      · simpa using (mem_history.mp new).1
  | refundRaise _ _ | refund _ _ | cancelRefund _ =>
      refine (Unanswered.grow deal ?_).gone
      intro j res mem
      rcases List.mem_append.mp mem with release | rest
      · exact unanswered_releaseEvents _ _ _ j res release
      · simp at rest
  | begin | resume | chunkText _ | chunkEmpty _ | exhausted | streamFault _ | streamOther _ | replay =>
      exact Unanswered.grow deal (by simp [Unanswered])
  | exit exiting => cases exiting <;> exact Unanswered.grow deal (by simp [Unanswered])
  | finalizeStore _ _ => exact Unanswered.grow deal (unanswered_settleEvents _ _ _ _ _)
  | finalizeClose _ _ =>
      refine (Unanswered.grow deal ?_).gone
      intro j res mem
      rcases List.mem_append.mp mem with settle | rest
      · exact unanswered_settleEvents _ _ _ _ _ j res settle
      · simp at rest
  | storeClose => exact (Unanswered.grow deal (by simp [Unanswered])).gone
  | quit quiet =>
      have none : Unanswered h := by
        cases ph with
        | arrived => exact deal.1
        | lookup d => exact deal.2.1
        | replaying rest => exact deal
        | _ => cases quiet
      exact (none.grow (by simp [Unanswered])).gone
  | cancelQueued =>
      exact (Unanswered.grow deal.2.1 (by simp [Unanswered])).gone
  | cancelGenerating => exact (Unanswered.grow deal.2.2.1 (by simp [Unanswered])).gone
  | cancelSettle _ =>
      refine (Unanswered.grow deal.2.2.1 ?_).gone
      intro j res mem
      rcases List.mem_append.mp mem with settle | rest
      · exact unanswered_settleEvents _ _ _ _ _ j res settle
      · simp at rest
  | cancelCaching _ => exact (Unanswered.grow deal.2 (by simp [Unanswered])).gone

/-- Every request is on its terms in every reached state. -/
theorem deal_of_reaches {ok : World σ → WorldAct → Prop} {w₀ w : World σ} (fresh : w₀.Fresh)
    (reached : Reaches (World.step B ts s) ok w₀ w) :
    ∀ i t, w.tasks[i]? = some t → Deal ts s i t (history i w.log) := by
  apply each_history (Q := Deal ts s) fresh reached
  · intro i req streaming
    exact ⟨fun _ _ => List.not_mem_nil, fun _ _ => List.not_mem_nil⟩
  · exact fun _ _ _ _ _ _ _ _ _ _ step deal => step.deal deal

/-- An uncached result of `handle` was generated by a model that is on the request's terms,
and billed once, at that model's price; and within the budget, if the completion kept to the
limits the provider was given. -/
theorem served_within_terms (B : LedgerBackend σ) (ts : TextSupport) (s : Settings)
    (priced : s.Priced) {w₀ w : World σ} (fresh : w₀.Fresh)
    (reached : Reaches (World.step B ts s) Always w₀ w) {res : InferenceResult}
    (here : w.tasks[i]? = some t) (returned : .returned i res ∈ w.log) (uncached : res.cached = false) :
    ∃ served k, res = servedResult served k ∧ .generated i served k ∈ w.log ∧
      .billed i (chargeFor served.model k.usage) ∈ w.log ∧
      (∀ c, .billed i c ∈ w.log → c = chargeFor served.model k.usage) ∧
      (k.inputTokens ≤ served.inputTokens → k.outputTokens ≤ served.projectedOutputTokens →
        (chargeFor served.model k.usage).cost ≤ t.request.routing.budget s) ∧
      served.model.Fits served.inputTokens served.projectedOutputTokens ∧
      (∀ name, t.request.routing.pinned = some name → served.model.name = name) ∧
      (t.request.routing.pinned = none →
        (t.request.routing.complexity ts s).tier ≤ served.model.tier ∨ res.downgraded = true) := by
  have deal := deal_of_reaches fresh reached i t here
  have mine : .returned i res ∈ history i w.log := mem_history.mpr ⟨returned, rfl⟩
  have answered : ¬ Unanswered (history i w.log) := fun none => none i res mine
  have delivered : ∃ served k, Delivered ts s i t.request (history i w.log) served k ∧
      res = servedResult served k := by
    obtain ⟨req, streaming, ph⟩ := t
    cases ph with
    | done x => exact deal res mine uncached
    | arrived => exact absurd deal.1 answered
    | lookup d | reserving d | granted d r | queued d r => exact absurd deal.2.1 answered
    | attempting r c | generating r c => exact absurd deal.2.2.1 answered
    | settling r served k => exact absurd deal.2.2.1 answered
    | caching r served k => exact absurd deal.2 answered
    | _ => exact absurd deal answered
  obtain ⟨served, k, delivered, rfl⟩ := delivered
  obtain ⟨routed, generated, billed, once⟩ := delivered
  refine ⟨served, k, rfl, (mem_history.mp generated).1, (mem_history.mp billed).1, ?_, ?_,
    routed.fits, routed.pinned, routed.tier⟩
  · exact fun c mem => once c (mem_history.mpr ⟨mem, rfl⟩)
  · exact fun input output => (routed.bill_le priced input output).trans routed.affordable

end Steps

/-! ### A request that fails over -/

/-- The small model is down, and the medium one answers. -/
def failoverActs : List WorldAct :=
  [.submit { prompt := "hi", userId := "u" } false,
    .task 0 (.run .none), .task 0 (.run .none), .task 0 (.run .none), .task 0 (.run .none),
    .task 0 (.answer (.failure (.unavailable "down"))), .task 0 (.run .none),
    .task 0 (.answer (.completion { text := "yo", inputTokens := 1, outputTokens := 1 })),
    .task 0 (.run .none)]

theorem served_within_terms_after_failover :
    ∃ w, Reaches (World.step Ledger.backend .ascii oneSlot) Always (World.start oneSlot {}) w ∧
      ∃ served k, .returned 0 (servedResult served k) ∈ w.log ∧ served.model.name = "medium" ∧
        (chargeFor served.model k.usage).cost ≤ 1 / 2 := by
  have holds : execHolds (World.step Ledger.backend .ascii oneSlot) Always
      (World.start oneSlot {}) failoverActs (fun w =>
        (w.tasks[0]?.any fun t => t.request.routing.budgetUsd.isNone) &&
        (w.log.any fun
          | .returned 0 res => !res.cached
          | _ => false) &&
        w.log.all fun
          | .generated 0 served k => decide (served.model.name = "medium" ∧
              k.inputTokens ≤ served.inputTokens ∧ k.outputTokens ≤ served.projectedOutputTokens)
          | _ => true) = true := by
    decide +kernel
  obtain ⟨w, reached, good⟩ := exists_reaches_of_execHolds _ _ holds
  obtain ⟨rest, limits⟩ := Bool.and_eq_true_iff.mp good
  obtain ⟨asked, answered⟩ := Bool.and_eq_true_iff.mp rest
  obtain ⟨t, here, unset⟩ := (Option.any_eq_true ..).mp asked
  obtain ⟨e, mem, uncached⟩ := List.any_eq_true.mp answered
  split at uncached
  · rename_i res
    obtain ⟨served, k, rfl, generated, -, -, affordable, -⟩ :=
      served_within_terms Ledger.backend .ascii oneSlot (by decide +kernel) ⟨rfl, rfl⟩ reached here mem
        (Bool.not_eq_true' _ ▸ uncached)
    obtain ⟨medium, input, output⟩ := of_decide_eq_true (List.all_eq_true.mp limits _ generated)
    have bill := affordable input output
    rw [RouteRequest.budget, Option.isNone_iff_eq_none.mp unset] at bill
    exact ⟨w, reached, served, k, mem, medium, bill⟩
  · cases uncached

end LLMInference
