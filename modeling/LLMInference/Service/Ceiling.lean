import LLMInference.Service.Terms

/-!
The caller's output ceiling (`app/tokens.py`, `app/service.py`).

One field of a decision, the projection of three quarters of the ceiling, is the reserved
amount, the `max_output_tokens` of the provider call and a part of the cache key. So the provider
is asked for fewer tokens than the caller allowed, and neighbouring ceilings share a key.

* `Phase.OnTerms`, `onTerms_of_reaches`: the decision a request goes by is on its terms, on
  both paths.
* `ceiling_kept_iff`: which ceilings reach the provider and which stay apart in the cache.
-/

namespace LLMInference

open Runs

/-- The decision the request goes by is on its terms. -/
def Phase.OnTerms (ts : TextSupport) (s : Settings) (req : RouteRequest) : Phase → Prop
  | .lookup d | .reserving d | .granted d _ | .queued d _ | .settling _ d _ | .caching _ d _ =>
      Routed ts s req [] d
  | .attempting _ c | .generating _ c => c.request = req ∧ Routed ts s req [] c.current
  | .yielded st _ | .pulling st => Routed ts s req [] st.decision
  | .finalizing fin _ | .storing fin _ => Routed ts s req [] fin.decision
  | _ => True

/-- The `max_output_tokens` of the provider call a request is in. -/
def Phase.passedCeiling : Phase → Option ℕ
  | .generating _ c => some c.current.projectedOutputTokens
  | .pulling st => some st.decision.projectedOutputTokens
  | _ => none

/-- The key of the cache call a request is in. -/
def Task.entryKey (t : Task) : Option CacheKey :=
  match t.phase with
  | .lookup d | .caching _ d _ => some (cacheKey d t.request.prompt)
  | .storing fin _ => some (cacheKey fin.decision t.request.prompt)
  | _ => none

section Steps

variable {σ : Type} {B : LedgerBackend σ} {ts : TextSupport} {s : Settings} {i : ℕ} {t : Task}
  {req : Request} {streaming : Bool} {evs : List Event} {sh sh' : Shared σ} {ph ph' : Phase}
  {a : TaskAct}

/-- A step of the request keeps its decision on its terms. -/
theorem Trans.onTerms (step : Trans B ts s i req streaming sh ph a sh' ph' evs)
    (terms : ph.OnTerms ts s req.routing) : ph'.OnTerms ts s req.routing := by
  cases step with
  | toLookup routed | toReserve routed => exact route_sound routed
  | enterBuffered entering _ =>
      cases entering with
      | atOnce _ | woken _ _ => exact ⟨rfl, terms⟩
  | enterStreamed entering _ =>
      cases entering with
      | atOnce _ | woken _ _ => exact terms
  | deniedNext moved _ | faultNext _ moved _ =>
      obtain ⟨same, routed⟩ := FailoverCall.routed_moveOn moved
      obtain ⟨request, -⟩ := terms
      exact ⟨same.trans request, request ▸ routed⟩
  | completed => exact terms.2
  | exit exiting =>
      cases exiting with
      | streamed | failed | closed | cancelled => exact terms
  | _ => first | exact terms | exact trivial

/-- On both paths a request goes by a decision on its terms, failovers included. -/
theorem onTerms_of_reaches {ok : World σ → WorldAct → Prop} {w₀ w : World σ} (fresh : w₀.Fresh)
    (reached : Reaches (World.step B ts s) ok w₀ w) (here : w.tasks[i]? = some t) :
    t.phase.OnTerms ts s t.request.routing := by
  refine each_history (Q := fun _ t _ => t.phase.OnTerms ts s t.request.routing) fresh reached
    ?_ ?_ i t here
  · intro _ _ _
    exact trivial
  · intro _ _ _ _ _ _ _ _ _ _ step terms
    exact step.onTerms terms

/-- What the provider is passed is the projection. -/
theorem Phase.OnTerms.passed {req : RouteRequest} (terms : ph.OnTerms ts s req) {n : ℕ}
    (passed : ph.passedCeiling = some n) : n = req.projectedOutput s := by
  cases ph with
  | generating r c =>
      cases passed
      exact terms.2.output
  | pulling st =>
      cases passed
      exact terms.output
  | _ => cases passed

/-- The ceiling in a request's key is the projection. -/
theorem Phase.OnTerms.keyed (terms : t.phase.OnTerms ts s t.request.routing) {key : CacheKey}
    (used : t.entryKey = some key) :
    key.prompt = t.request.prompt ∧
      key.maxOutputTokens = t.request.routing.projectedOutput s := by
  obtain ⟨req, streaming, ph⟩ := t
  cases ph with
  | lookup d | caching r d k =>
      cases used
      exact ⟨rfl, Routed.output terms⟩
  | storing fin x =>
      cases used
      exact ⟨rfl, Routed.output terms⟩
  | _ => cases used

/-- A ceiling reaches the provider exactly if it is at most two, and the keys of two requests for
one model and one prompt tell different ceilings apart exactly if these are not projected
alike. -/
theorem ceiling_kept_iff (B : LedgerBackend σ) (ts : TextSupport) (s : Settings) {w₀ w w' : World σ}
    (fresh : w₀.Fresh) (reached : Reaches (World.step B ts s) Always w₀ w)
    (reached' : Reaches (World.step B ts s) Always w₀ w') {j : ℕ} {t' : Task}
    (here : w.tasks[i]? = some t) (there : w'.tasks[j]? = some t') {n n' : ℤ}
    (asked : t.request.maxOutputTokens = some n) (asked' : t'.request.maxOutputTokens = some n')
    (pos : 1 ≤ n) (pos' : 1 ≤ n') :
    (∀ passed, t.phase.passedCeiling = some passed → ((passed : ℤ) = n ↔ n ≤ 2)) ∧
      ∀ key key', t.entryKey = some key → t'.entryKey = some key' → key.model = key'.model →
        key.prompt = key'.prompt → n ≠ n' → (key ≠ key' ↔ ¬ Merged n n') := by
  have terms := onTerms_of_reaches fresh reached here
  have terms' := onTerms_of_reaches fresh reached' there
  have projected : t.request.routing.projectedOutput s =
      estimateOutputTokens (some n) s.defaultMaxOutputTokens := by
    rw [RouteRequest.projectedOutput, Request.routing, asked]
  have projected' : t'.request.routing.projectedOutput s =
      estimateOutputTokens (some n') s.defaultMaxOutputTokens := by
    rw [RouteRequest.projectedOutput, Request.routing, asked']
  constructor
  · intro passed call
    rw [terms.passed call, projected]
    exact estimateOutputTokens_eq_iff pos _
  · intro key key' used used' model prompt ne
    have output := (terms.keyed used).2.trans projected
    have output' := (terms'.keyed used').2.trans projected'
    have same : key = key' ↔ key.maxOutputTokens = key'.maxOutputTokens := by
      constructor
      · exact congrArg CacheKey.maxOutputTokens
      · intro outputs
        obtain ⟨m, p, o⟩ := key
        obtain ⟨m', p', o'⟩ := key'
        cases model
        cases prompt
        cases outputs
        rfl
    rw [ne_eq, same, output, output', estimateOutputTokens_inj_iff pos pos']
    exact not_congr (or_iff_right ne)

end Steps

/-! ### Small ceilings -/

/-- Two requests for one prompt, both asking the cache. -/
def lookupActs (n n' : ℤ) : List WorldAct :=
  [.submit { prompt := "hi", userId := "u", maxOutputTokens := some n } false,
    .submit { prompt := "hi", userId := "u", maxOutputTokens := some n' } false,
    .task 0 (.run .none), .task 1 (.run .none)]

/-- The first of them goes on to the provider. -/
def generateActs (n n' : ℤ) : List WorldAct :=
  lookupActs n n' ++
    [.task 0 (.run .none), .task 0 (.run .none), .task 0 (.run .none), .task 0 (.run .none)]

/-- A world with two requests, of the ceilings `n` and `n'`. -/
def twoAsk (n n' : ℤ) (p : Task → Task → Bool) (w : World Ledger) : Bool :=
  w.tasks[0]?.any fun t => w.tasks[1]?.any fun t' =>
    decide (t.request.maxOutputTokens = some n ∧ t'.request.maxOutputTokens = some n') && p t t'

theorem exists_twoAsk {n n' : ℤ} {p : Task → Task → Bool} {acts : List WorldAct}
    (holds : execHolds (World.step Ledger.backend .ascii oneSlotCached) Always
      (World.start oneSlotCached {}) acts (twoAsk n n' p) = true) :
    ∃ w t t', Reaches (World.step Ledger.backend .ascii oneSlotCached) Always
        (World.start oneSlotCached {}) w ∧
      w.tasks[0]? = some t ∧ w.tasks[1]? = some t' ∧ t.request.maxOutputTokens = some n ∧
      t'.request.maxOutputTokens = some n' ∧ p t t' = true := by
  obtain ⟨w, reached, good⟩ := exists_reaches_of_execHolds _ _ holds
  obtain ⟨t, here, rest⟩ := (Option.any_eq_true ..).mp good
  obtain ⟨t', there, rest⟩ := (Option.any_eq_true ..).mp rest
  obtain ⟨asked, good⟩ := Bool.and_eq_true_iff.mp rest
  obtain ⟨asked, asked'⟩ := of_decide_eq_true asked
  exact ⟨w, t, t', reached, here, there, asked, asked', good⟩

theorem ceiling_kept_iff_two_and_four :
    (∃ w t, Reaches (World.step Ledger.backend .ascii oneSlotCached) Always
        (World.start oneSlotCached {}) w ∧ t ∈ w.tasks ∧ t.request.maxOutputTokens = some 2 ∧
      t.phase.passedCeiling = some 2 ∧ (((2 : ℕ) : ℤ) = 2 ↔ (2 : ℤ) ≤ 2)) ∧
    ∃ w t t', Reaches (World.step Ledger.backend .ascii oneSlotCached) Always
        (World.start oneSlotCached {}) w ∧ t ∈ w.tasks ∧ t' ∈ w.tasks ∧
      ∃ key key', t.entryKey = some key ∧ t'.entryKey = some key' ∧ key ≠ key' := by
  have passes : execHolds (World.step Ledger.backend .ascii oneSlotCached) Always
      (World.start oneSlotCached {}) (generateActs 2 4)
      (twoAsk 2 4 fun t _ => decide (t.phase.passedCeiling = some 2)) = true := by
    decide +kernel
  have keys : execHolds (World.step Ledger.backend .ascii oneSlotCached) Always
      (World.start oneSlotCached {}) (lookupActs 2 4)
      (twoAsk 2 4 fun t t' => t.entryKey.any fun key => t'.entryKey.any fun key' =>
        decide (key.model = key'.model ∧ key.prompt = key'.prompt)) = true := by
    decide +kernel
  constructor
  · obtain ⟨w, t, t', reached, here, there, asked, asked', good⟩ := exists_twoAsk passes
    have passed := of_decide_eq_true good
    have kept := (ceiling_kept_iff Ledger.backend .ascii oneSlotCached ⟨rfl, rfl⟩ reached reached
      here there asked asked' (by norm_num) (by norm_num)).1 2 passed
    exact ⟨w, t, reached, List.mem_of_getElem? here, asked, passed, kept⟩
  · obtain ⟨w, t, t', reached, here, there, asked, asked', good⟩ := exists_twoAsk keys
    obtain ⟨key, used, rest⟩ := (Option.any_eq_true ..).mp good
    obtain ⟨key', used', same⟩ := (Option.any_eq_true ..).mp rest
    obtain ⟨model, prompt⟩ := of_decide_eq_true same
    have apart := (ceiling_kept_iff Ledger.backend .ascii oneSlotCached ⟨rfl, rfl⟩ reached reached
      here there asked asked' (by norm_num) (by norm_num)).2 key key' used used' model prompt
        (by norm_num)
    exact ⟨w, t, t', reached, List.mem_of_getElem? here, List.mem_of_getElem? there, key, key',
      used, used', apart.mpr (by decide)⟩

/-- A caller who allows three tokens is generated two, and shares the entry of one who allows
two. -/
theorem ceiling_of_three_is_two :
    (∃ w t, Reaches (World.step Ledger.backend .ascii oneSlotCached) Always
        (World.start oneSlotCached {}) w ∧ t ∈ w.tasks ∧ t.request.maxOutputTokens = some 3 ∧
      t.phase.passedCeiling = some 2) ∧
    ∃ w t t', Reaches (World.step Ledger.backend .ascii oneSlotCached) Always
        (World.start oneSlotCached {}) w ∧ t ∈ w.tasks ∧ t' ∈ w.tasks ∧
      t.request.maxOutputTokens = some 3 ∧ t'.request.maxOutputTokens = some 2 ∧
      t.entryKey.isSome = true ∧ t.entryKey = t'.entryKey := by
  have passes : execHolds (World.step Ledger.backend .ascii oneSlotCached) Always
      (World.start oneSlotCached {}) (generateActs 3 2)
      (twoAsk 3 2 fun t _ => decide (t.phase.passedCeiling = some 2)) = true := by
    decide +kernel
  have keys : execHolds (World.step Ledger.backend .ascii oneSlotCached) Always
      (World.start oneSlotCached {}) (lookupActs 3 2)
      (twoAsk 3 2 fun t t' => decide (t.entryKey.isSome = true ∧ t.entryKey = t'.entryKey)) =
        true := by
    decide +kernel
  constructor
  · obtain ⟨w, t, -, reached, here, -, asked, -, good⟩ := exists_twoAsk passes
    exact ⟨w, t, reached, List.mem_of_getElem? here, asked, of_decide_eq_true good⟩
  · obtain ⟨w, t, t', reached, here, there, asked, asked', good⟩ := exists_twoAsk keys
    obtain ⟨some, same⟩ := of_decide_eq_true good
    exact ⟨w, t, t', reached, List.mem_of_getElem? here, List.mem_of_getElem? there, asked, asked',
      some, same⟩

end LLMInference
