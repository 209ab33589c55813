import LLMInference.Failover.Pool
import Mathlib.Data.Finset.Card

/-!
One call of the failover loop in an environment that may do anything.

Between two steps of the call other calls use the breakers and the clock runs, so every
step is given a registry and a reading of its own; the provider may answer anything. The
trace keeps one `Visit` for each pass of the loop.

`Seen` is the loop invariant: the excluded names are the names visited, and the current
model is not one of them. `failover_visits` bounds the passes by the number of distinct
model names and says how the call ends.
-/

namespace LLMInference

/-- How a pass of the loop ended. -/
inductive VisitEnd where
  /-- The breaker admitted the call, and the provider has not answered. -/
  | pending
  | refused (e : GenerateError)
  /-- A server fault. -/
  | failed (f : ProviderFailure)
  /-- Any other exception of the provider. -/
  | aborted (f : ProviderFailure)
  | answered (k : Completion)
  | cancelled
  deriving DecidableEq, Repr

namespace VisitEnd

/-- The loop may go on after this. -/
def faulted : VisitEnd → Bool
  | .refused _ => true
  | .failed _ => true
  | _ => false

/-- The exception of the pass. -/
def error : VisitEnd → Option GenerateError
  | .refused e => some e
  | .failed f => some (.provider f)
  | .aborted f => some (.provider f)
  | _ => none

def ofOutcome : GenerateOutcome → VisitEnd
  | .completion k => .answered k
  | .failure f => if f.serverFault then .failed f else .aborted f

end VisitEnd

/-- One pass of the loop: the decision it was about, and how it ended. -/
structure Visit where
  decision : RoutingDecision
  ended : VisitEnd
  deriving DecidableEq, Repr

/-- The model whose breaker is asked, and whose backend is called if the breaker admits it. -/
def Visit.name (v : Visit) : String := v.decision.model.name

/-- A call and its passes, latest first. -/
structure Traversal where
  phase : CallPhase
  visits : List Visit
  deriving DecidableEq, Repr

/-- A step of the call, with what the environment shows it. -/
inductive TraversalAct where
  | attempt (now : ℚ) (r : BreakerRegistry) (m : Metrics)
  | outcome (now : ℚ) (o : GenerateOutcome) (r : BreakerRegistry) (m : Metrics)
  | cancel

/-- What the breaker of the current model makes of the pass. -/
def FailoverCall.reception (c : FailoverCall) (now : ℚ) (r : BreakerRegistry) : VisitEnd :=
  let asked := (r.get c.target).allows now
  if asked.1 then .pending else .refused (.circuitOpen c.target (asked.2.retryAfterS now))

/-- The names a call can meet: the initial model's and the catalog's. -/
def modelNames (s : Settings) (decision : RoutingDecision) : List String :=
  decision.model.name :: s.catalog.map (·.name)

namespace Traversal

def start (req : RouteRequest) (decision : RoutingDecision) : Traversal :=
  { phase := .attempting (.start req decision), visits := [] }

def step (ts : TextSupport) (s : Settings) (t : Traversal) : TraversalAct → Option Traversal
  | .attempt now r m =>
      match t.phase with
      | .attempting c =>
          some { phase := (c.attempt ts s now r m).2.1,
                 visits := { decision := c.current, ended := c.reception now r } :: t.visits }
      | _ => none
  | .outcome now o r m =>
      match t.phase, t.visits with
      | .generating c, v :: earlier =>
          some { phase := (c.onOutcome ts s now o r m).2.1,
                 visits := { v with ended := .ofOutcome o } :: earlier }
      | _, _ => none
  | .cancel =>
      match t.phase, t.visits with
      | .generating _, v :: earlier =>
          some { phase := .cancelled, visits := { v with ended := .cancelled } :: earlier }
      | _, _ => none

/-! ### The loop invariant -/

/-- `c` is at a model not visited yet, after the passes `earlier`. -/
structure Seen (s : Settings) (req : RouteRequest) (decision : RoutingDecision) (c : FailoverCall)
    (earlier : List Visit) : Prop where
  request : c.request = req
  excluded : ∀ name, name ∈ c.excluded ↔ name ∈ earlier.map Visit.name
  fresh : c.target ∉ earlier.map Visit.name
  known : c.target ∈ modelNames s decision
  nodup : (earlier.map Visit.name).Nodup
  allKnown : ∀ v ∈ earlier, v.name ∈ modelNames s decision
  faulted : ∀ v ∈ earlier, v.ended.faulted = true
  first : earlier = [] → c.current = decision
  kept : s.fallbackEnabled = false ∨ req.pinned.isSome = true → earlier = []

/-- A call that is over ended as its latest pass did. -/
inductive Stopped : CallPhase → Visit → Prop
  | returned {v : Visit} {served : RoutingDecision} {k : Completion}
      (decided : v.decision = served) (answered : v.ended = .answered k) :
      Stopped (.returned served k) v
  | raised {v : Visit} {e : GenerateError} (raised : v.ended.error = some e) :
      Stopped (.raised e) v
  | cancelled {v : Visit} (cancelled : v.ended = .cancelled) : Stopped .cancelled v

/-- Where a call is after its passes. -/
inductive Tracks (s : Settings) (req : RouteRequest) (decision : RoutingDecision) :
    CallPhase → List Visit → Prop
  | attempting {c : FailoverCall} {visits : List Visit} (seen : Seen s req decision c visits) :
      Tracks s req decision (.attempting c) visits
  | generating {c : FailoverCall} {v : Visit} {earlier : List Visit}
      (seen : Seen s req decision c earlier) (current : v.decision = c.current)
      (pending : v.ended = .pending) : Tracks s req decision (.generating c) (v :: earlier)
  | stopped {ph : CallPhase} {c : FailoverCall} {v : Visit} {earlier : List Visit}
      (seen : Seen s req decision c earlier) (current : v.decision = c.current)
      (stopped : Stopped ph v) : Tracks s req decision ph (v :: earlier)

section Step

variable {ts : TextSupport} {s : Settings} {req : RouteRequest} {decision : RoutingDecision}
  {c : FailoverCall} {earlier : List Visit} {v : Visit}

theorem seen_start : Seen s req decision (.start req decision) [] where
  request := rfl
  excluded _ := Iff.rfl
  fresh := List.not_mem_nil
  known := List.mem_cons_self
  nodup := List.nodup_nil
  allKnown := List.forall_mem_nil _
  faulted := List.forall_mem_nil _
  first _ := rfl
  kept _ := rfl

/-- The pass about to be made is about a name of its own. -/
theorem Seen.nodup_cons (seen : Seen s req decision c earlier) (current : v.decision = c.current) :
    ((v :: earlier).map Visit.name).Nodup := by
  have name : v.name = c.target := by rw [Visit.name, current, FailoverCall.target]
  rw [List.map_cons, List.nodup_cons, name]
  exact ⟨seen.fresh, seen.nodup⟩

theorem Seen.known_cons (seen : Seen s req decision c earlier) (current : v.decision = c.current) :
    ∀ w ∈ v :: earlier, w.name ∈ modelNames s decision := by
  have name : v.name = c.target := by rw [Visit.name, current, FailoverCall.target]
  intro w mem
  rcases List.mem_cons.mp mem with rfl | mem
  · exact name ▸ seen.known
  · exact seen.allKnown w mem

/-- After a fault the loop moves on to a model it has not seen. -/
theorem Seen.moveOn (seen : Seen s req decision c earlier) (current : v.decision = c.current)
    (faulted : v.ended.faulted = true) {next : FailoverCall}
    (moved : c.moveOn ts s = some next) : Seen s req decision next (v :: earlier) := by
  obtain ⟨enabled, unpinned, request, excluded, routed⟩ := FailoverCall.moveOn_some moved
  have sound := route_sound routed
  have name : v.name = c.target := by rw [Visit.name, current, FailoverCall.target]
  have members : ∀ other, other ∈ next.excluded ↔ other ∈ (v :: earlier).map Visit.name := by
    intro other
    rw [excluded, List.mem_insert_iff, List.map_cons, List.mem_cons, seen.excluded, name]
  exact {
    request := request.trans seen.request
    excluded := members
    fresh := fun mem => sound.notExcluded ((members _).mpr mem)
    known := List.mem_cons_of_mem _ (List.mem_map_of_mem sound.mem)
    nodup := seen.nodup_cons current
    allKnown := seen.known_cons current
    faulted := fun w mem => by
      rcases List.mem_cons.mp mem with rfl | mem
      · exact faulted
      · exact seen.faulted w mem
    first := by simp
    kept := fun only => by
      rcases only with disabled | pinned
      · rw [enabled] at disabled
        cases disabled
      · rw [← seen.request, unpinned] at pinned
        cases pinned }

/-- After a fault the error is raised or the loop goes on. -/
theorem Seen.afterError (seen : Seen s req decision c earlier) (current : v.decision = c.current)
    (faulted : v.ended.faulted = true) {e : GenerateError} (error : v.ended.error = some e)
    (m : Metrics) : Tracks s req decision (c.afterError ts s e m).1 (v :: earlier) := by
  rcases FailoverCall.afterError_cases c ts s e m with ⟨-, eq⟩ | ⟨next, moved, eq⟩
  · rw [eq]
    exact .stopped seen current (.raised error)
  · rw [eq]
    exact .attempting (seen.moveOn current faulted moved)

theorem tracks_attempt (seen : Seen s req decision c earlier) (now : ℚ) (r : BreakerRegistry)
    (m : Metrics) :
    Tracks s req decision (c.attempt ts s now r m).2.1
      ({ decision := c.current, ended := c.reception now r } :: earlier) := by
  unfold FailoverCall.attempt FailoverCall.reception
  simp only
  split
  · exact .generating seen rfl rfl
  · exact seen.afterError rfl rfl rfl _

theorem tracks_outcome (seen : Seen s req decision c earlier) (current : v.decision = c.current)
    (now : ℚ) (o : GenerateOutcome) (r : BreakerRegistry) (m : Metrics) :
    Tracks s req decision (c.onOutcome ts s now o r m).2.1
      ({ v with ended := .ofOutcome o } :: earlier) := by
  cases o with
  | completion k =>
      exact .stopped seen current (.returned current rfl)
  | failure f =>
      simp only [FailoverCall.onOutcome, VisitEnd.ofOutcome]
      split
      · have failed : VisitEnd.error (.failed f) = some (.provider f) := rfl
        exact seen.afterError (v := { v with ended := .failed f }) current rfl failed _
      · exact .stopped seen current (.raised rfl)

theorem tracks_step {t t' : Traversal} {a : TraversalAct}
    (tracks : Tracks s req decision t.phase t.visits) (stepped : t.step ts s a = some t') :
    Tracks s req decision t'.phase t'.visits := by
  obtain ⟨phase, visits⟩ := t
  cases a with
  | attempt now r m =>
      cases tracks with
      | attempting seen =>
          cases stepped
          exact tracks_attempt seen now r m
      | generating seen current pending => cases stepped
      | stopped seen current stopped => cases stopped <;> cases stepped
  | outcome now o r m =>
      cases tracks with
      | attempting seen => cases stepped
      | generating seen current pending =>
          cases stepped
          exact tracks_outcome seen current now o r m
      | stopped seen current stopped => cases stopped <;> cases stepped
  | cancel =>
      cases tracks with
      | attempting seen => cases stepped
      | generating seen current pending =>
          cases stepped
          exact .stopped seen current (.cancelled rfl)
      | stopped seen current stopped => cases stopped <;> cases stepped

/-- No answer of the provider leads to another await without a pass. -/
theorem onOutcome_ne_generating (c : FailoverCall) (ts : TextSupport) (s : Settings) (now : ℚ)
    (o : GenerateOutcome) (r : BreakerRegistry) (m : Metrics) (c' : FailoverCall) :
    (c.onOutcome ts s now o r m).2.1 ≠ .generating c' := by
  cases o with
  | completion k =>
      intro same
      cases same
  | failure f =>
      simp only [FailoverCall.onOutcome]
      split
      · exact FailoverCall.afterError_ne_generating _ _ c'
      · intro same
        cases same

/-- Distinct names of the list are at most as many as its distinct members. -/
theorem length_le_card {visits : List Visit} (nodup : (visits.map Visit.name).Nodup)
    (known : ∀ v ∈ visits, v.name ∈ modelNames s decision) :
    visits.length ≤ (modelNames s decision).toFinset.card := by
  have sub : (visits.map Visit.name).toFinset ⊆ (modelNames s decision).toFinset := by
    intro name mem
    obtain ⟨v, visited, rfl⟩ := List.mem_map.mp (List.mem_toFinset.mp mem)
    exact List.mem_toFinset.mpr (known v visited)
  calc visits.length = (visits.map Visit.name).toFinset.card := by
        rw [List.toFinset_card_of_nodup nodup, List.length_map]
    _ ≤ (modelNames s decision).toFinset.card := Finset.card_le_card sub

/-- A call about to make a pass has a name left for it. -/
theorem Seen.room (seen : Seen s req decision c earlier) :
    earlier.length < (modelNames s decision).toFinset.card := by
  have room : (⟨c.current, .pending⟩ :: earlier : List Visit).length ≤
      (modelNames s decision).toFinset.card :=
    length_le_card (seen.nodup_cons rfl) (seen.known_cons rfl)
  exact room

/-- The steps a call can still take: two for every name it has not met, and one for the
answer it awaits. -/
def remaining (s : Settings) (decision : RoutingDecision) (t : Traversal) : ℕ :=
  2 * ((modelNames s decision).toFinset.card - t.visits.length) +
    match t.phase with
    | .generating _ => 1
    | _ => 0

theorem remaining_lt {t t' : Traversal} {a : TraversalAct}
    (tracks : Tracks s req decision t.phase t.visits) (stepped : t.step ts s a = some t') :
    t'.remaining s decision < t.remaining s decision := by
  obtain ⟨phase, visits⟩ := t
  cases a with
  | attempt now r m =>
      cases tracks with
      | attempting seen =>
          have room := seen.room
          cases stepped
          dsimp only [remaining, List.length_cons] at room ⊢
          split <;> omega
      | generating seen current pending => cases stepped
      | stopped seen current stopped => cases stopped <;> cases stepped
  | outcome now o r m =>
      cases tracks with
      | attempting seen => cases stepped
      | generating seen current pending =>
          cases stepped
          simp only [remaining, List.length_cons]
          split
          · rename_i c' awaits
            exact absurd awaits (onOutcome_ne_generating _ ts s now o r m c')
          · omega
      | stopped seen current stopped => cases stopped <;> cases stepped
  | cancel =>
      cases tracks with
      | attempting seen => cases stepped
      | generating seen current pending =>
          cases stepped
          simp only [remaining, List.length_cons]
          omega
      | stopped seen current stopped => cases stopped <;> cases stepped

theorem tracks_of_reaches {t : Traversal}
    (reached : Runs.Reaches (step ts s) Runs.Always (start req decision) t) :
    Tracks s req decision t.phase t.visits :=
  reached.invariant (I := fun t => Tracks s req decision t.phase t.visits)
    (.attempting seen_start) fun _ _ _ tracks _ stepped => tracks_step tracks stepped

end Step

/-! ### What a call does with its models -/

/-- The law of the loop, for a call that has made the passes `t.visits`. -/
structure LoopLaw (ts : TextSupport) (s : Settings) (req : RouteRequest)
    (decision : RoutingDecision) (t : Traversal) : Prop where
  /-- No model is visited twice, so no breaker is asked and no backend called twice. -/
  nodup : (t.visits.map Visit.name).Nodup
  known : ∀ v ∈ t.visits, v.name ∈ modelNames s decision
  bounded : t.visits.length ≤ (modelNames s decision).toFinset.card
  /-- A pinned request, or one without fallback, stays with its model. -/
  kept : s.fallbackEnabled = false ∨ req.pinned.isSome = true →
    ∀ v ∈ t.visits, v.decision = decision ∧ t.visits = [v]
  /-- The loop goes on only after a server fault or an open circuit. -/
  faulted : ∀ v ∈ t.visits.tail, v.ended.faulted = true
  /-- A result, any other exception and a cancellation end the call as they are. -/
  stops : ∀ v ∈ t.visits, v.ended.faulted = false → v.ended ≠ .pending →
    Stopped t.phase v ∧ ∀ a, t.step ts s a = none
  /-- What the call raises is the error of the model it visited last. -/
  raised : ∀ e, t.phase = .raised e → ∃ v earlier, t.visits = v :: earlier ∧ v.ended.error = some e
  returned : ∀ served k, t.phase = .returned served k →
    ∃ v earlier, t.visits = v :: earlier ∧ v.decision = served ∧ v.ended = .answered k
  /-- A call that is not over can go on, whatever the environment does. -/
  progress : ∀ now o r m, t.step ts s (.attempt now r m) = none →
    t.step ts s (.outcome now o r m) = none →
    ∃ v earlier, t.visits = v :: earlier ∧ Stopped t.phase v

section Law

variable {ts : TextSupport} {s : Settings} {req : RouteRequest} {decision : RoutingDecision}

/-- The passes of any tracked call, seen from its last one. -/
theorem Tracks.split {ph : CallPhase} {visits : List Visit}
    (tracks : Tracks s req decision ph visits) :
    (∃ c, Seen s req decision c visits ∧ ph = .attempting c) ∨
      ∃ c v earlier, visits = v :: earlier ∧ Seen s req decision c earlier ∧
        v.decision = c.current ∧
        (ph = .generating c ∧ v.ended = .pending ∨ Stopped ph v) := by
  cases tracks with
  | attempting seen => exact .inl ⟨_, seen, rfl⟩
  | generating seen current pending =>
      exact .inr ⟨_, _, _, rfl, seen, current, .inl ⟨rfl, pending⟩⟩
  | stopped seen current stopped => exact .inr ⟨_, _, _, rfl, seen, current, .inr stopped⟩

/-- A stopped call takes no step. -/
theorem step_of_stopped {t : Traversal} {v : Visit} (stopped : Stopped t.phase v)
    (a : TraversalAct) : t.step ts s a = none := by
  obtain ⟨phase, visits⟩ := t
  cases stopped <;> cases a <;> rfl

theorem loopLaw_of_tracks {t : Traversal} (tracks : Tracks s req decision t.phase t.visits) :
    LoopLaw ts s req decision t := by
  obtain ⟨phase, visits⟩ := t
  rcases tracks.split with ⟨c, seen, rfl⟩ | ⟨c, v, earlier, rfl, seen, current, last⟩
  · exact {
      nodup := seen.nodup
      known := seen.allKnown
      bounded := length_le_card seen.nodup seen.allKnown
      kept := fun only v mem => by
        rw [seen.kept only] at mem
        cases mem
      faulted := fun v mem => seen.faulted v (List.mem_of_mem_tail mem)
      stops := fun v mem notFaulted _ => by
        rw [seen.faulted v mem] at notFaulted
        cases notFaulted
      raised := fun e raised => by cases raised
      returned := fun served k returned => by cases returned
      progress := fun now o r m stuck => by cases stuck }
  · have stopped : ∀ w ∈ v :: earlier, w.ended.faulted = false → w.ended ≠ .pending →
        Stopped phase w := by
      intro w mem notFaulted notPending
      rcases List.mem_cons.mp mem with rfl | mem
      · rcases last with ⟨-, pending⟩ | stopped
        · exact absurd pending notPending
        · exact stopped
      · rw [seen.faulted w mem] at notFaulted
        cases notFaulted
    exact {
      nodup := seen.nodup_cons current
      known := seen.known_cons current
      bounded := length_le_card (seen.nodup_cons current) (seen.known_cons current)
      kept := fun only w mem => by
        have none := seen.kept only
        subst none
        rcases List.mem_singleton.mp mem with rfl
        exact ⟨current.trans (seen.first rfl), rfl⟩
      faulted := seen.faulted
      stops := fun w mem notFaulted notPending =>
        ⟨stopped w mem notFaulted notPending,
          step_of_stopped (stopped w mem notFaulted notPending)⟩
      raised := fun e raised => by
        rcases last with ⟨awaits, -⟩ | stopped
        · cases raised.symm.trans awaits
        · subst raised
          cases stopped with
          | raised error => exact ⟨v, earlier, rfl, error⟩
      returned := fun served k returned => by
        rcases last with ⟨awaits, -⟩ | stopped
        · cases returned.symm.trans awaits
        · subst returned
          cases stopped with
          | returned decided answered => exact ⟨v, earlier, rfl, decided, answered⟩
      progress := fun now o r m _ stuck => by
        rcases last with ⟨rfl, -⟩ | stopped
        · cases stuck
        · exact ⟨v, earlier, rfl, stopped⟩ }

end Law

/-- The failover loop, in any environment: it makes at most as many passes as there are
distinct model names, and so a bounded number of steps, and it treats its models as the law
says. -/
theorem failover_visits {ts : TextSupport} {s : Settings} {req : RouteRequest}
    {decision : RoutingDecision} {acts : List TraversalAct} {t : Traversal}
    (ran : Runs.exec (step ts s) Runs.Always (start req decision) acts = some t) :
    LoopLaw ts s req decision t ∧
      (decision.model ∈ s.catalog →
        t.visits.length ≤ (s.catalog.map (·.name)).toFinset.card) ∧
      acts.length ≤ 2 * (modelNames s decision).toFinset.card := by
  have law : LoopLaw ts s req decision t :=
    loopLaw_of_tracks (tracks_of_reaches (Runs.exec_reaches _ _ acts ran))
  refine ⟨law, fun listed => ?_, ?_⟩
  · have same : (modelNames s decision).toFinset = (s.catalog.map (·.name)).toFinset := by
      rw [modelNames, List.toFinset_cons, Finset.insert_eq_self, List.mem_toFinset]
      exact List.mem_map_of_mem listed
    exact same ▸ law.bounded
  · have paid := Runs.exec_length_le (step ts s) Runs.Always
      (I := fun t => Tracks s req decision t.phase t.visits) (μ := remaining s decision)
      (fun _ _ _ tracks stepped => tracks_step tracks stepped)
      (fun _ _ _ tracks stepped => remaining_lt tracks stepped) (.attempting seen_start) acts ran
    have first : remaining s decision (start req decision) =
        2 * (modelNames s decision).toFinset.card := rfl
    omega

/-- The first model times out, and the call ends with the answer of the second. -/
theorem failover_visits_two :
    ∃ t, LoopLaw .ascii { fallbackEnabled := true } { prompt := "hi" }
        FailoverPool.pinnedDecision t ∧
      t.visits.length = 2 ∧ t.visits.length ≤ 3 := by
  have ran : (Runs.exec (step .ascii { fallbackEnabled := true }) Runs.Always
      (start { prompt := "hi" } FailoverPool.pinnedDecision)
      [.attempt 0 (.fresh 5 30) {}, .outcome 1 (.failure (.timeout "30s")) (.fresh 5 30) {},
        .attempt 1 (.fresh 5 30) {},
        .outcome 2 (.completion { text := "hi", inputTokens := 1, outputTokens := 1 })
          (.fresh 5 30) {}]).any (fun t => decide (t.visits.length = 2)) = true := by
    decide +kernel
  obtain ⟨t, ran, two⟩ := (Option.any_eq_true ..).mp ran
  have visited := failover_visits ran
  exact ⟨t, visited.1, of_decide_eq_true two, visited.2.1 (by decide +kernel)⟩

/-! ### The calls of a pool -/

section Pool

variable {ts : TextSupport} {s : Settings} {p p' : FailoverPool}

/-- The phase is that of some traversal. -/
def Traverses (ts : TextSupport) (s : Settings) (ph : CallPhase) : Prop :=
  ∃ req decision t, Runs.Reaches (step ts s) Runs.Always (start req decision) t ∧ t.phase = ph

theorem traverses_attempt {c : FailoverCall} (traverses : Traverses ts s (.attempting c)) (now : ℚ)
    (r : BreakerRegistry) (m : Metrics) : Traverses ts s (c.attempt ts s now r m).2.1 := by
  obtain ⟨req, decision, ⟨_, visits⟩, reached, rfl⟩ := traverses
  exact ⟨req, decision, _, reached.tail trivial (a := .attempt now r m) rfl, rfl⟩

/-- A call at its await has a pass pending, so its traversal takes the step too. -/
theorem exists_pending {c : FailoverCall} (traverses : Traverses ts s (.generating c)) :
    ∃ req decision v earlier, Runs.Reaches (step ts s) Runs.Always (start req decision)
      { phase := .generating c, visits := v :: earlier } := by
  obtain ⟨req, decision, ⟨_, visits⟩, reached, rfl⟩ := traverses
  rcases (tracks_of_reaches reached).split with ⟨_, -, eq⟩ | ⟨_, v, earlier, rfl, -⟩
  · cases eq
  · exact ⟨req, decision, v, earlier, reached⟩

theorem traverses_outcome {c : FailoverCall} (traverses : Traverses ts s (.generating c)) (now : ℚ)
    (o : GenerateOutcome) (r : BreakerRegistry) (m : Metrics) :
    Traverses ts s (c.onOutcome ts s now o r m).2.1 := by
  obtain ⟨req, decision, v, earlier, reached⟩ := exists_pending traverses
  exact ⟨req, decision, _, reached.tail trivial (a := .outcome now o r m) rfl, rfl⟩

theorem traverses_cancel {c : FailoverCall} (traverses : Traverses ts s (.generating c)) :
    Traverses ts s .cancelled := by
  obtain ⟨req, decision, v, earlier, reached⟩ := exists_pending traverses
  exact ⟨req, decision, _, reached.tail trivial (a := .cancel) rfl, rfl⟩

/-- Every call of a pool is a traversal, whatever the other calls do. -/
theorem pool_calls_traverse {failureThreshold : ℤ} {recoveryTimeoutS : ℚ}
    (reached : Runs.Reaches (FailoverPool.step ts s) Runs.Always
      (.init failureThreshold recoveryTimeoutS) p) :
    Pool.Each (fun _ ph => Traverses ts s ph) p.calls := by
  refine reached.invariant (I := fun p => Pool.Each (fun _ ph => Traverses ts s ph) p.calls)
    (Pool.Each.nil _) ?_
  intro p a p' each _ stepped
  cases a with
  | start req decision =>
      cases stepped
      exact each.spawn ⟨req, decision, _, .refl, rfl⟩ fun _ _ _ kept => kept
  | clock t =>
      cases stepped
      exact each
  | attempt i =>
      simp only [FailoverPool.step] at stepped
      split at stepped
      · rename_i c here
        cases stepped
        exact each.step (traverses_attempt (each i _ here) _ _ _) fun _ _ _ _ kept => kept
      · cases stepped
  | outcome i o =>
      simp only [FailoverPool.step] at stepped
      split at stepped
      · rename_i c here
        cases stepped
        exact each.step (traverses_outcome (each i _ here) _ _ _ _) fun _ _ _ _ kept => kept
      · cases stepped
  | cancel i =>
      simp only [FailoverPool.step] at stepped
      split at stepped
      · rename_i c here
        cases stepped
        exact each.step (traverses_cancel (each i _ here)) fun _ _ _ _ kept => kept
      · cases stepped

/-- So the law of the loop holds for each of them, at every moment. -/
theorem pool_calls_lawful {failureThreshold : ℤ} {recoveryTimeoutS : ℚ}
    (reached : Runs.Reaches (FailoverPool.step ts s) Runs.Always
      (.init failureThreshold recoveryTimeoutS) p) {i : ℕ} {ph : CallPhase}
    (here : p.calls[i]? = some ph) :
    ∃ req decision t, t.phase = ph ∧ LoopLaw ts s req decision t := by
  obtain ⟨req, decision, t, traversed, phase⟩ := pool_calls_traverse reached i ph here
  exact ⟨req, decision, t, phase, loopLaw_of_tracks (tracks_of_reaches traversed)⟩

end Pool

end Traversal

end LLMInference
