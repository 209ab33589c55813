import LLMInference.Router
import LLMInference.Lib.FirstFit

/-!
What `route` chooses for a request that pins no model.

Both searches of the source are first fits by blended price: the primary is the head of the
capable models, the switch down takes the first candidate that passes its three tests.
`Walk` lists the five ways such a request ends, and `route_walk` shows that there are no
others; the laws below are read off it.

* `route_returns_cheapest`: what a returned decision is the cheapest of.
* `contextLaw_iff`: when a context error means that no capable model holds the request.
* `budgetLaw_iff`: when a budget error means that nothing is affordable.
-/

namespace LLMInference

section Request

variable (ts : TextSupport) (s : Settings) (req : RouteRequest)

/-- The tier of `m` is at least the task's. -/
def RouteRequest.Capable (m : ModelSpec) : Prop := (req.complexity ts s).tier ≤ m.tier

/-- The window of `m` holds the input and the projected output. -/
def RouteRequest.FitsIn (m : ModelSpec) : Prop :=
  m.Fits (req.inputTokens ts s) (req.projectedOutput s)

/-- What the request is projected to cost on `m`. -/
def RouteRequest.costOn (m : ModelSpec) : ℚ :=
  m.cost (req.inputTokens ts s) (req.projectedOutput s)

/-- `m` can do the task, holds it, and the budget pays for it. -/
structure RouteRequest.Serves (m : ModelSpec) : Prop where
  capable : req.Capable ts s m
  fits : req.FitsIn ts s m
  affordable : req.costOn ts s m ≤ req.budget s

/-- What the downgrade loop asks of a candidate. -/
structure RouteRequest.SwitchDown (primary m : ModelSpec) : Prop where
  cheaper : m.blended < primary.blended
  fits : req.FitsIn ts s m
  affordable : req.costOn ts s m ≤ req.budget s

instance (m : ModelSpec) : Decidable (req.Capable ts s m) :=
  inferInstanceAs (Decidable (_ ≤ _))

instance (m : ModelSpec) : Decidable (req.FitsIn ts s m) :=
  inferInstanceAs (Decidable (ModelSpec.Fits _ _ _))

instance (m : ModelSpec) : Decidable (req.Serves ts s m) :=
  decidable_of_iff (req.Capable ts s m ∧ req.FitsIn ts s m ∧ req.costOn ts s m ≤ req.budget s)
    ⟨fun h => ⟨h.1, h.2.1, h.2.2⟩, fun h => ⟨h.1, h.2, h.3⟩⟩

/-- `capable[0]`: the cheapest capable model. -/
def primaryModel (exclude : List String) : Option ModelSpec :=
  (capableModels (s.available exclude) (req.complexity ts s).tier).head?

end Request

/-! ### The two searches -/

section Searches

variable {ts : TextSupport} {s : Settings} {req : RouteRequest} {exclude : List String}
  {catalog : List ModelSpec} {primary m : ModelSpec}

/-- The primary has the lowest blended price of the capable models. -/
theorem primaryModel_least (chosen : primaryModel ts s req exclude = some primary) :
    FirstFit.Least ModelSpec.blended (s.available exclude) (req.Capable ts s) primary := by
  have head := FirstFit.least_of_head? ModelSpec.blended chosen
  have mem := List.mem_filter.mp head.mem
  refine ⟨mem.1, of_decide_eq_true mem.2, ?_⟩
  intro m listed capable
  exact head.least m (List.mem_filter.mpr ⟨listed, decide_eq_true capable⟩) trivial

/-- Without a primary no available model is capable. -/
theorem primaryModel_eq_none (none : primaryModel ts s req exclude = none) :
    ∀ m ∈ s.available exclude, ¬ req.Capable ts s m := by
  intro m listed capable
  have mem := mem_capableModels.mpr ⟨listed, capable⟩
  rw [List.head?_eq_none_iff.mp none] at mem
  cases mem

theorem switchDown_iff :
    (decide (m.blended < primary.blended) &&
      decide (m.Fits (req.inputTokens ts s) (req.projectedOutput s)) &&
      decide (m.cost (req.inputTokens ts s) (req.projectedOutput s) ≤ req.budget s)) = true ↔
      req.SwitchDown ts s primary m := by
  simp only [Bool.and_eq_true, decide_eq_true_eq]
  constructor
  · rintro ⟨⟨cheaper, fits⟩, affordable⟩
    exact ⟨cheaper, fits, affordable⟩
  · intro down
    exact ⟨⟨down.cheaper, down.fits⟩, down.affordable⟩

/-- The switch down finds the lowest blended price among its candidates. -/
theorem downgradeTo_least (found : downgradeTo s req ts catalog primary = some m) :
    FirstFit.Least ModelSpec.blended catalog (req.SwitchDown ts s primary) m := by
  have least := FirstFit.least_of_firstFit ModelSpec.blended found
  exact ⟨least.mem, switchDown_iff.mp least.passes,
    fun b mem down => least.least b mem (switchDown_iff.mpr down)⟩

theorem downgradeTo_eq_none :
    downgradeTo s req ts catalog primary = none ↔
      ∀ m ∈ catalog, ¬ req.SwitchDown ts s primary m := by
  have none := FirstFit.firstFit_eq_none ModelSpec.blended (l := catalog)
    (p := fun m => decide (m.blended < primary.blended) &&
      decide (m.Fits (req.inputTokens ts s) (req.projectedOutput s)) &&
      decide (m.cost (req.inputTokens ts s) (req.projectedOutput s) ≤ req.budget s))
  exact none.trans (forall₂_congr fun m _ => not_congr switchDown_iff)

/-- A model the switch down finds cannot do the task: the primary is the cheapest that can. -/
theorem RouteRequest.SwitchDown.not_capable (down : req.SwitchDown ts s primary m)
    (chosen : primaryModel ts s req exclude = some primary) (listed : m ∈ s.available exclude) :
    ¬ req.Capable ts s m :=
  fun capable =>
    not_lt.mpr ((primaryModel_least chosen).least m listed capable) down.cheaper

end Searches

/-! ### How an unpinned request ends -/

/-- The ways a request without a pinned model ends. -/
inductive Walk (ts : TextSupport) (s : Settings) (req : RouteRequest) (exclude : List String) :
    Except RouteError RoutingDecision → Prop
  /-- No model is left, or none is capable. -/
  | unserved {e : RouteError} (none : primaryModel ts s req exclude = none)
      (notContext : ∀ message, e ≠ .contextTooLarge message)
      (notBudget : ∀ cost budget, e ≠ .budgetExceeded cost budget) :
      Walk ts s req exclude (.error e)
  | tooLarge {primary : ModelSpec} {message : String}
      (chosen : primaryModel ts s req exclude = some primary)
      (exceeds : ¬ req.FitsIn ts s primary) :
      Walk ts s req exclude (.error (.contextTooLarge message))
  | primary {primary : ModelSpec} {d : RoutingDecision}
      (chosen : primaryModel ts s req exclude = some primary) (fits : req.FitsIn ts s primary)
      (affordable : req.costOn ts s primary ≤ req.budget s) (model : d.model = primary)
      (kept : d.downgraded = false) : Walk ts s req exclude (.ok d)
  | overBudget {primary : ModelSpec} (chosen : primaryModel ts s req exclude = some primary)
      (fits : req.FitsIn ts s primary) (costly : req.budget s < req.costOn ts s primary)
      (none : downgradeTo s req ts (s.available exclude) primary = none) :
      Walk ts s req exclude (.error (.budgetExceeded (req.costOn ts s primary) (req.budget s)))
  | downgraded {primary : ModelSpec} {d : RoutingDecision}
      (chosen : primaryModel ts s req exclude = some primary) (fits : req.FitsIn ts s primary)
      (costly : req.budget s < req.costOn ts s primary)
      (found : downgradeTo s req ts (s.available exclude) primary = some d.model)
      (switched : d.downgraded = true) : Walk ts s req exclude (.ok d)

section Laws

variable {ts : TextSupport} {s : Settings} {req : RouteRequest} {exclude : List String}

/-- Every result for an unpinned request is one of these. -/
theorem route_walk (unpinned : req.pinned = none) {result : Except RouteError RoutingDecision}
    (routed : route ts s req exclude = result) : Walk ts s req exclude result := by
  unfold route at routed
  split at routed
  · rename_i empty
    subst routed
    have none : primaryModel ts s req exclude = none := by
      simp [primaryModel, empty, capableModels, allModelsByPrice]
    exact .unserved none (by simp) (by simp)
  · rename_i m rest available
    simp only [unpinned, ← available] at routed
    simp only [routeByTier] at routed
    split at routed
    · rename_i empty
      subst routed
      have none : primaryModel ts s req exclude = none := by
        rw [primaryModel, empty, List.head?_nil]
      exact .unserved none (by simp) (by simp)
    · rename_i primary others capable
      have chosen : primaryModel ts s req exclude = some primary := by
        rw [primaryModel, capable, List.head?_cons]
      split at routed
      · rename_i exceeds
        subst routed
        exact .tooLarge chosen exceeds
      · rename_i fits
        split at routed
        · rename_i affordable
          subst routed
          exact .primary chosen (not_not.mp fits) affordable rfl rfl
        · rename_i costly
          split at routed
          · rename_i none
            subst routed
            exact .overBudget chosen (not_not.mp fits) (not_le.mp costly) none
          · rename_i candidate found
            subst routed
            exact .downgraded chosen (not_not.mp fits) (not_le.mp costly) found rfl

/-- What a decision is the cheapest of. Without a pinned model it is the cheapest capable
model, or, when that one is over the budget, the cheapest of the candidates for the switch
down. -/
theorem route_returns_cheapest {d : RoutingDecision} (routed : route ts s req exclude = .ok d) :
    d.model ∈ s.catalog ∧ d.model.name ∉ exclude ∧
      d.inputTokens = req.inputTokens ts s ∧ d.projectedOutputTokens = req.projectedOutput s ∧
      d.inputTokens + d.projectedOutputTokens ≤ d.model.maxContextTokens ∧
      d.projectedCost = d.model.cost d.inputTokens d.projectedOutputTokens ∧
      d.projectedCost ≤ req.budget s ∧
      (req.pinned = none → d.downgraded = false →
        FirstFit.Least ModelSpec.blended (s.available exclude) (req.Capable ts s) d.model) ∧
      (req.pinned = none → d.downgraded = true →
        ∃ primary, primaryModel ts s req exclude = some primary ∧
          FirstFit.Least ModelSpec.blended (s.available exclude) (req.Capable ts s) primary ∧
          req.budget s < req.costOn ts s primary ∧
          FirstFit.Least ModelSpec.blended (s.available exclude) (req.SwitchDown ts s primary)
            d.model) := by
  have sound := route_sound routed
  refine ⟨sound.mem, sound.notExcluded, sound.inputTokens, sound.output, sound.fits, sound.cost,
    sound.affordable, ?_, ?_⟩
  · intro unpinned kept
    cases route_walk unpinned routed with
    | primary chosen _ _ model _ => exact model ▸ primaryModel_least chosen
    | downgraded _ _ _ _ switched => rw [kept] at switched; cases switched
  · intro unpinned switched
    cases route_walk unpinned routed with
    | primary _ _ _ _ kept => rw [switched] at kept; cases kept
    | downgraded chosen _ costly found _ =>
        exact ⟨_, chosen, primaryModel_least chosen, costly, downgradeTo_least found⟩

/-- A complex task on a small budget: the decision is the cheapest candidate for the
switch down. -/
theorem route_returns_cheapest_switched :
    ∃ d, route .ascii {}
        { prompt := "hi", taskType := some "complex", budgetUsd := some (1 / 1000) } [] = .ok d ∧
      d.downgraded = true ∧
      ∃ primary, FirstFit.Least ModelSpec.blended (Settings.available {} [])
        (RouteRequest.SwitchDown .ascii {}
          { prompt := "hi", taskType := some "complex", budgetUsd := some (1 / 1000) } primary)
        d.model := by
  generalize routed : route .ascii {}
    { prompt := "hi", taskType := some "complex", budgetUsd := some (1 / 1000) } [] = result
  have switched : result.toOption.any (·.downgraded) = true := by
    rw [← routed]
    decide +kernel
  cases result with
  | error e => cases switched
  | ok d =>
      obtain ⟨primary, -, -, -, least⟩ :=
        (route_returns_cheapest routed).2.2.2.2.2.2.2.2 rfl switched
      exact ⟨d, rfl, switched, primary, least⟩

/-- A primary that serves the request is what it is routed to. -/
theorem route_of_serves {primary : ModelSpec} (unpinned : req.pinned = none)
    (chosen : primaryModel ts s req exclude = some primary) (serves : req.Serves ts s primary) :
    ∃ d, route ts s req exclude = .ok d ∧ d.model = primary ∧ d.downgraded = false := by
  generalize routed : route ts s req exclude = result
  cases route_walk unpinned routed with
  | unserved none =>
      rw [chosen] at none
      cases none
  | tooLarge chosen' exceeds =>
      cases chosen.symm.trans chosen'
      exact absurd serves.fits exceeds
  | primary chosen' _ _ model kept =>
      cases chosen.symm.trans chosen'
      exact ⟨_, rfl, model, kept⟩
  | overBudget chosen' _ costly =>
      cases chosen.symm.trans chosen'
      exact absurd serves.affordable (not_le.mpr costly)
  | downgraded chosen' _ costly =>
      cases chosen.symm.trans chosen'
      exact absurd serves.affordable (not_le.mpr costly)

/-- A primary that is over the budget gives way to what the switch down finds. -/
theorem route_of_downgradeTo {primary m : ModelSpec} (unpinned : req.pinned = none)
    (chosen : primaryModel ts s req exclude = some primary) (fits : req.FitsIn ts s primary)
    (costly : req.budget s < req.costOn ts s primary)
    (found : downgradeTo s req ts (s.available exclude) primary = some m) :
    ∃ d, route ts s req exclude = .ok d ∧ d.model = m ∧ d.downgraded = true := by
  generalize routed : route ts s req exclude = result
  cases route_walk unpinned routed with
  | unserved none =>
      rw [chosen] at none
      cases none
  | tooLarge chosen' exceeds =>
      cases chosen.symm.trans chosen'
      exact absurd fits exceeds
  | primary chosen' _ affordable =>
      cases chosen.symm.trans chosen'
      exact absurd affordable (not_le.mpr costly)
  | overBudget chosen' _ _ none =>
      cases chosen.symm.trans chosen'
      rw [found] at none
      cases none
  | downgraded chosen' _ _ found' switched =>
      cases chosen.symm.trans chosen'
      exact ⟨_, rfl, Option.some.inj (found'.symm.trans found), switched⟩

/-! ### The context error -/

/-- The law of `ContextTooLargeError`: it is raised only when no capable model's window
holds the request, and a request that some capable model serves goes to such a model. -/
structure ContextLaw (ts : TextSupport) (s : Settings) (req : RouteRequest)
    (exclude : List String) : Prop where
  justified : ∀ message, route ts s req exclude = .error (.contextTooLarge message) →
    ∀ m ∈ s.available exclude, req.Capable ts s m → ¬ req.FitsIn ts s m
  served : (∃ m ∈ s.available exclude, req.Serves ts s m) →
    ∃ d, route ts s req exclude = .ok d ∧ d.model ∈ s.available exclude ∧
      req.Serves ts s d.model

/-- The law holds exactly when the one model that is tried decides for all: the primary
fits or no capable model does, and the primary serves the request or no model does. -/
theorem contextLaw_iff (unpinned : req.pinned = none) :
    ContextLaw ts s req exclude ↔
      ∀ primary, primaryModel ts s req exclude = some primary →
        (req.FitsIn ts s primary ∨
          ∀ m ∈ s.available exclude, req.Capable ts s m → ¬ req.FitsIn ts s m) ∧
        (req.Serves ts s primary ∨ ∀ m ∈ s.available exclude, ¬ req.Serves ts s m) := by
  constructor
  · intro law primary chosen
    generalize routed : route ts s req exclude = result at *
    cases route_walk unpinned routed with
    | unserved none =>
        rw [chosen] at none
        cases none
    | tooLarge =>
        refine ⟨.inr (law.justified _ routed), .inr fun m listed serves => ?_⟩
        exact law.justified _ routed m listed serves.capable serves.fits
    | primary chosen' fits affordable model kept =>
        cases chosen.symm.trans chosen'
        exact ⟨.inl fits, .inl ⟨(primaryModel_least chosen).passes, fits, affordable⟩⟩
    | overBudget chosen' fits =>
        cases chosen.symm.trans chosen'
        refine ⟨.inl fits, .inr fun m listed serves => ?_⟩
        obtain ⟨d, ok, -⟩ := law.served ⟨m, listed, serves⟩
        rw [routed] at ok
        cases ok
    | downgraded chosen' fits _ found =>
        cases chosen.symm.trans chosen'
        refine ⟨.inl fits, .inr fun m listed serves => ?_⟩
        obtain ⟨d, ok, -, serves'⟩ := law.served ⟨m, listed, serves⟩
        cases routed.symm.trans ok
        have least := downgradeTo_least found
        exact least.passes.not_capable chosen least.mem serves'.capable
  · intro decides
    constructor
    · intro message routed
      cases route_walk unpinned routed with
      | unserved _ notContext => exact absurd rfl (notContext message)
      | tooLarge chosen exceeds => exact (decides _ chosen).1.resolve_left exceeds
    · rintro ⟨m, listed, serves⟩
      cases chosen : primaryModel ts s req exclude with
      | none => exact absurd serves.capable (primaryModel_eq_none chosen m listed)
      | some primary =>
          have tried := (decides _ chosen).2.resolve_right fun none => none m listed serves
          obtain ⟨d, routed, rfl, -⟩ := route_of_serves unpinned chosen tried
          exact ⟨d, routed, (primaryModel_least chosen).mem, tried⟩

/-- The cheapest default model serves a short prompt, so the law holds for it. -/
theorem contextLaw_short : ContextLaw .ascii {} { prompt := "hi" } [] := by
  have tried : (primaryModel .ascii {} { prompt := "hi" } []).all
      (fun m => decide (RouteRequest.Serves .ascii {} { prompt := "hi" } m)) = true := by
    decide +kernel
  refine (contextLaw_iff rfl).mpr fun primary chosen => ?_
  rw [chosen] at tried
  have serves := of_decide_eq_true tried
  exact ⟨.inl serves.fits, .inl serves⟩

/-- A short prompt with a long answer, on the default catalog. -/
def longAnswer : RouteRequest := { prompt := "hi", maxOutputTokens := some 30000 }

/-- The smallest model cannot hold the answer, and the medium one could serve it. -/
theorem contextLaw_fails_longAnswer :
    route .ascii {} longAnswer [] =
        .error (.contextTooLarge "1+22500 tokens exceed small context window 16000") ∧
      (∃ m ∈ Settings.available {} [], longAnswer.Serves .ascii {} m) ∧
      ¬ ContextLaw .ascii {} longAnswer [] := by
  have refused : route .ascii {} longAnswer [] =
      .error (.contextTooLarge "1+22500 tokens exceed small context window 16000") := by
    decide +kernel
  have served : ∃ m ∈ Settings.available {} [], longAnswer.Serves .ascii {} m := by
    decide +kernel
  refine ⟨refused, served, fun law => ?_⟩
  obtain ⟨d, routed, -⟩ := law.served served
  rw [refused] at routed
  cases routed

/-! ### The budget error -/

/-- The law of `BudgetExceededError`: it is raised only when every model that holds the
request costs more than the budget. -/
def BudgetLaw (ts : TextSupport) (s : Settings) (req : RouteRequest) (exclude : List String) :
    Prop :=
  ∀ cost budget, route ts s req exclude = .error (.budgetExceeded cost budget) →
    ∀ m ∈ s.available exclude, req.FitsIn ts s m → req.budget s < req.costOn ts s m

/-- The law holds exactly when the models that are not tried are no cheaper for this
request: when the primary fits and is over the budget, some model of lower blended price
passes, or every model of the primary's blended price or more is over the budget too. -/
theorem budgetLaw_iff (unpinned : req.pinned = none) :
    BudgetLaw ts s req exclude ↔
      ∀ primary, primaryModel ts s req exclude = some primary → req.FitsIn ts s primary →
        req.costOn ts s primary ≤ req.budget s ∨
        (∃ m ∈ s.available exclude, req.SwitchDown ts s primary m) ∨
        ∀ m ∈ s.available exclude, primary.blended ≤ m.blended → req.FitsIn ts s m →
          req.budget s < req.costOn ts s m := by
  constructor
  · intro law primary chosen fits
    generalize routed : route ts s req exclude = result at *
    cases route_walk unpinned routed with
    | unserved none =>
        rw [chosen] at none
        cases none
    | tooLarge chosen' exceeds =>
        cases chosen.symm.trans chosen'
        exact absurd fits exceeds
    | primary chosen' _ affordable =>
        cases chosen.symm.trans chosen'
        exact .inl affordable
    | overBudget =>
        exact .inr (.inr fun m listed _ holds => law _ _ routed m listed holds)
    | downgraded chosen' _ _ found =>
        cases chosen.symm.trans chosen'
        have least := downgradeTo_least found
        exact .inr (.inl ⟨_, least.mem, least.passes⟩)
  · intro untried cost budget routed m listed holds
    cases route_walk unpinned routed with
    | unserved _ _ notBudget => exact absurd rfl (notBudget cost budget)
    | overBudget chosen fits costly none =>
        have noCandidate := downgradeTo_eq_none.mp none
        rcases lt_or_ge m.blended _ with cheaper | dearer
        · exact not_le.mp fun affordable => noCandidate m listed ⟨cheaper, holds, affordable⟩
        · rcases untried _ chosen fits with affordable | ⟨c, candidate, down⟩ | dear
          · exact absurd affordable (not_le.mpr costly)
          · exact absurd down (noCandidate c candidate)
          · exact dear m listed dearer holds

/-- Two models for simple tasks: the first is cheaper at equal counts, the second for
long answers. -/
def crossedPrices : Settings where
  catalog :=
    [ { name := "terse", tier := .simple, inputPricePer1k := 1 / 1000,
        outputPricePer1k := 3 / 1000, maxContextTokens := 16000 },
      { name := "verbose", tier := .simple, inputPricePer1k := 5 / 1000,
        outputPricePer1k := 1 / 1000, maxContextTokens := 16000 } ]

/-- Four thousand tokens of answer within half a cent. -/
def halfCent : RouteRequest :=
  { prompt := "hi", taskType := some "simple", maxOutputTokens := some 4000,
    budgetUsd := some (1 / 200) }

/-- A cent and a half pays for the cheapest model, so the law holds. -/
theorem budgetLaw_cents :
    BudgetLaw .ascii crossedPrices { halfCent with budgetUsd := some (3 / 200) } [] := by
  have affordable : (primaryModel .ascii crossedPrices
      { halfCent with budgetUsd := some (3 / 200) } []).all
      (fun m => decide (RouteRequest.costOn .ascii crossedPrices
        { halfCent with budgetUsd := some (3 / 200) } m ≤ 3 / 200)) = true := by
    decide +kernel
  refine (budgetLaw_iff rfl).mpr fun primary chosen _ => .inl ?_
  rw [chosen] at affordable
  exact of_decide_eq_true affordable

/-- The request is refused for the budget, and the second model would serve it. -/
theorem budgetLaw_fails_halfCent :
    crossedPrices.Priced ∧
      route .ascii crossedPrices halfCent [] =
        .error (.budgetExceeded (9001 / 1000000) (1 / 200)) ∧
      (∃ m ∈ crossedPrices.available [], halfCent.Serves .ascii crossedPrices m) ∧
      ¬ BudgetLaw .ascii crossedPrices halfCent [] := by
  have refused : route .ascii crossedPrices halfCent [] =
      .error (.budgetExceeded (9001 / 1000000) (1 / 200)) := by
    decide +kernel
  have served : ∃ m ∈ crossedPrices.available [], halfCent.Serves .ascii crossedPrices m := by
    decide +kernel
  refine ⟨by decide +kernel, refused, served, fun law => ?_⟩
  obtain ⟨m, listed, serves⟩ := served
  exact absurd serves.affordable (not_le.mpr (law _ _ refused m listed serves.fits))

end Laws

end LLMInference
