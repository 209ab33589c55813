import LLMInference.Complexity
import Mathlib.Data.List.Sort

/-!
Model routing (`app/router.py`): the cheapest capable model, then the budget check
that may switch the request down to a cheaper one.

* `route` follows the source's three return paths (forced, primary, downgraded) and its
  error paths in their order.
* `Routed` is the contract of a returned decision, read off the request and the
  exclusion set alone; `route_sound` shows that every decision meets it.
-/

namespace LLMInference

/-- The exceptions `route` raises, with the message of the source. -/
inductive RouteError where
  /-- `BudgetExceededError(projected_cost, budget)`. -/
  | budgetExceeded (projectedCost budget : ℚ)
  /-- `ContextTooLargeError(message)`. -/
  | contextTooLarge (message : String)
  /-- `NoModelAvailableError`, over the excluded names in sorted order. -/
  | noModelAvailable (excluded : List String)
  /-- `ValueError(message)`. -/
  | valueError (message : String)
  deriving DecidableEq, Repr

/-- `f"{x:.4f}"`. -/
def fmt4 (x : ℚ) : String := String.ofList (Decimal.formatFixed 4 x)

/-- `str(e)`. -/
def RouteError.message (ts : TextSupport) : RouteError → String
  | .budgetExceeded projectedCost budget =>
      "cheapest capable model projects $" ++ fmt4 projectedCost ++ " but budget is $" ++ fmt4 budget
  | .contextTooLarge message => message
  | .noModelAvailable excluded =>
      "every model is excluded ([" ++ ", ".intercalate (excluded.map ts.repr) ++ "])"
  | .valueError message => message

structure RoutingDecision where
  model : ModelSpec
  complexity : ComplexityResult
  inputTokens : ℕ
  projectedOutputTokens : ℕ
  projectedCost : ℚ
  /-- True when the budget check forced a cheaper model. -/
  downgraded : Bool
  notes : List String
  deriving DecidableEq, Repr

/-- What a caller asks for, the part `route` reads. -/
structure RouteRequest where
  prompt : String
  taskType : Option String := none
  maxOutputTokens : Option ℤ := none
  budgetUsd : Option ℚ := none
  forceModel : Option String := none
  deriving DecidableEq, Repr

/-- The blended price of a nominal 1k in / 1k out call, by which models are ranked. -/
def ModelSpec.blended (m : ModelSpec) : ℚ := m.cost 1000 1000

/-- `sorted(models, key=lambda m: m.cost(1000, 1000))`: stable, cheapest first. -/
def allModelsByPrice (catalog : List ModelSpec) : List ModelSpec :=
  catalog.insertionSort fun a b => a.blended ≤ b.blended

/-- Models whose tier can handle `tier`, cheapest first. -/
def capableModels (catalog : List ModelSpec) (tier : Complexity) : List ModelSpec :=
  allModelsByPrice (catalog.filter fun m => decide (tier ≤ m.tier))

/-- The request fits the model's context window. -/
def ModelSpec.Fits (m : ModelSpec) (inputTokens outputTokens : ℕ) : Prop :=
  inputTokens + outputTokens ≤ m.maxContextTokens

instance (m : ModelSpec) (i o : ℕ) : Decidable (m.Fits i o) :=
  inferInstanceAs (Decidable (_ ≤ _))

/-- The message of `_check_context`. -/
def contextMessage (m : ModelSpec) (inputTokens outputTokens : ℕ) : String :=
  toString inputTokens ++ "+" ++ toString outputTokens ++ " tokens exceed " ++ m.name ++
    " context window " ++ toString m.maxContextTokens

/-- `budget_usd`, or the default. -/
def RouteRequest.budget (req : RouteRequest) (s : Settings) : ℚ :=
  req.budgetUsd.getD s.defaultRequestBudgetUsd

/-- The tier and score of the request's task. -/
def RouteRequest.complexity (req : RouteRequest) (ts : TextSupport) (s : Settings) :
    ComplexityResult :=
  estimateComplexity ts req.prompt req.taskType req.maxOutputTokens s.charsPerToken

def RouteRequest.inputTokens (req : RouteRequest) (ts : TextSupport) (s : Settings) : ℕ :=
  countTokens ts req.prompt s.charsPerToken

def RouteRequest.projectedOutput (req : RouteRequest) (s : Settings) : ℕ :=
  estimateOutputTokens req.maxOutputTokens s.defaultMaxOutputTokens

/-- The pinned model, if one is named: an empty name pins nothing (`if force_model:`). -/
def RouteRequest.pinned (req : RouteRequest) : Option String :=
  req.forceModel.filter (· ≠ "")

/-- `[m for m in settings.catalog if m.name not in exclude]`. -/
def Settings.available (s : Settings) (exclude : List String) : List ModelSpec :=
  s.catalog.filter fun m => decide (m.name ∉ exclude)

/-- The forced path: honour the caller's choice, but still check window and budget. -/
def routeForced (ts : TextSupport) (s : Settings) (req : RouteRequest) (catalog : List ModelSpec)
    (name : String) : Except RouteError RoutingDecision :=
  let input := req.inputTokens ts s
  let output := req.projectedOutput s
  -- `{m.name: m for m in catalog}`: of several models with one name the last is kept.
  match (catalog.filter fun m => decide (m.name = name)).getLast? with
  | none => .error (.valueError ("unknown model '" ++ name ++ "'"))
  | some chosen =>
      if ¬ chosen.Fits input output then .error (.contextTooLarge (contextMessage chosen input output))
      else if req.budget s < chosen.cost input output then
        .error (.budgetExceeded (chosen.cost input output) (req.budget s))
      else
        .ok { model := chosen, complexity := req.complexity ts s, inputTokens := input,
              projectedOutputTokens := output, projectedCost := chosen.cost input output,
              downgraded := false, notes := ["forced model=" ++ name] }

/-- The first of the models, cheapest first, that is strictly cheaper than the primary,
fits its window and fits the budget. -/
def downgradeTo (s : Settings) (req : RouteRequest) (ts : TextSupport) (catalog : List ModelSpec)
    (primary : ModelSpec) : Option ModelSpec :=
  (allModelsByPrice catalog).find? fun candidate =>
    decide (candidate.blended < primary.blended) &&
      decide (candidate.Fits (req.inputTokens ts s) (req.projectedOutput s)) &&
      decide (candidate.cost (req.inputTokens ts s) (req.projectedOutput s) ≤ req.budget s)

/-- The unforced path: the cheapest capable model, or a switch down to fit the budget. -/
def routeByTier (ts : TextSupport) (s : Settings) (req : RouteRequest) (catalog : List ModelSpec) :
    Except RouteError RoutingDecision :=
  let input := req.inputTokens ts s
  let output := req.projectedOutput s
  let complexity := req.complexity ts s
  match capableModels catalog complexity.tier with
  | [] => .error (.valueError ("no model can serve tier " ++ complexity.tier.name))
  | primary :: _ =>
      if ¬ primary.Fits input output then .error (.contextTooLarge (contextMessage primary input output))
      else
        let primaryCost := primary.cost input output
        let firstNote := "tier=" ++ complexity.tier.name ++ " -> primary=" ++ primary.name ++
          " ($" ++ fmt4 primaryCost ++ ")"
        if primaryCost ≤ req.budget s then
          .ok { model := primary, complexity := complexity, inputTokens := input,
                projectedOutputTokens := output, projectedCost := primaryCost,
                downgraded := false, notes := [firstNote] }
        else
          match downgradeTo s req ts catalog primary with
          | none => .error (.budgetExceeded primaryCost (req.budget s))
          | some candidate =>
              let cost := candidate.cost input output
              .ok { model := candidate, complexity := complexity, inputTokens := input,
                    projectedOutputTokens := output, projectedCost := cost, downgraded := true,
                    notes := [firstNote,
                      "primary $" ++ fmt4 primaryCost ++ " > budget $" ++ fmt4 (req.budget s) ++
                        "; attempting downgrade",
                      "downgraded to " ++ candidate.name ++ " ($" ++ fmt4 cost ++ ") to fit budget"] }

/-- Choose a model for the request under its budget. -/
def route (ts : TextSupport) (s : Settings) (req : RouteRequest) (exclude : List String) :
    Except RouteError RoutingDecision :=
  match s.available exclude with
  | [] => .error (.noModelAvailable (exclude.insertionSort (· ≤ ·)))
  | m :: rest =>
      match req.pinned with
      | some name => routeForced ts s req (m :: rest) name
      | none => routeByTier ts s req (m :: rest)

/-! ### What a decision promises -/

/-- The contract of a decision for `req` with the names in `exclude` out of the running. -/
structure Routed (ts : TextSupport) (s : Settings) (req : RouteRequest) (exclude : List String)
    (d : RoutingDecision) : Prop where
  mem : d.model ∈ s.catalog
  notExcluded : d.model.name ∉ exclude
  complexity : d.complexity = req.complexity ts s
  inputTokens : d.inputTokens = req.inputTokens ts s
  output : d.projectedOutputTokens = req.projectedOutput s
  fits : d.model.Fits d.inputTokens d.projectedOutputTokens
  cost : d.projectedCost = d.model.cost d.inputTokens d.projectedOutputTokens
  affordable : d.projectedCost ≤ req.budget s
  pinned : ∀ name, req.pinned = some name → d.model.name = name
  tier : req.pinned = none → (req.complexity ts s).tier ≤ d.model.tier ∨ d.downgraded = true

section Sound

variable {ts : TextSupport} {s : Settings} {req : RouteRequest} {catalog : List ModelSpec}
  {d : RoutingDecision}

theorem mem_allModelsByPrice {m : ModelSpec} : m ∈ allModelsByPrice catalog ↔ m ∈ catalog :=
  (List.perm_insertionSort _ _).mem_iff

theorem mem_capableModels {m : ModelSpec} {tier : Complexity} :
    m ∈ capableModels catalog tier ↔ m ∈ catalog ∧ tier ≤ m.tier := by
  rw [capableModels, mem_allModelsByPrice, List.mem_filter, decide_eq_true_eq]

theorem mem_available {m : ModelSpec} {exclude : List String} :
    m ∈ s.available exclude ↔ m ∈ s.catalog ∧ m.name ∉ exclude := by
  rw [Settings.available, List.mem_filter, decide_eq_true_eq]

/-- What the forced path returns. -/
theorem routeForced_ok {name : String} (h : routeForced ts s req catalog name = .ok d) :
    d.model ∈ catalog ∧ d.model.name = name ∧ d.complexity = req.complexity ts s ∧
      d.inputTokens = req.inputTokens ts s ∧ d.projectedOutputTokens = req.projectedOutput s ∧
      d.model.Fits d.inputTokens d.projectedOutputTokens ∧
      d.projectedCost = d.model.cost d.inputTokens d.projectedOutputTokens ∧
      d.projectedCost ≤ req.budget s ∧ d.downgraded = false := by
  simp only [routeForced] at h
  split at h
  · cases h
  · rename_i chosen last
    have mem := List.mem_filter.mp (List.mem_of_getLast? last)
    split at h
    · cases h
    · rename_i fits
      split at h
      · cases h
      · rename_i affordable
        cases h
        exact ⟨mem.1, of_decide_eq_true mem.2, rfl, rfl, rfl, not_not.mp fits, rfl,
          not_lt.mp affordable, rfl⟩

/-- What the unforced path returns: the primary, or a strictly cheaper model. -/
theorem routeByTier_ok (h : routeByTier ts s req catalog = .ok d) :
    d.model ∈ catalog ∧ d.complexity = req.complexity ts s ∧
      d.inputTokens = req.inputTokens ts s ∧ d.projectedOutputTokens = req.projectedOutput s ∧
      d.model.Fits d.inputTokens d.projectedOutputTokens ∧
      d.projectedCost = d.model.cost d.inputTokens d.projectedOutputTokens ∧
      d.projectedCost ≤ req.budget s ∧
      ((req.complexity ts s).tier ≤ d.model.tier ∨ d.downgraded = true) := by
  simp only [routeByTier] at h
  split at h
  · cases h
  · rename_i primary rest capable
    have mem := mem_capableModels.mp (capable ▸ List.mem_cons_self : primary ∈ capableModels _ _)
    split at h
    · cases h
    · rename_i fits
      split at h
      · rename_i affordable
        cases h
        exact ⟨mem.1, rfl, rfl, rfl, not_not.mp fits, rfl, affordable, .inl mem.2⟩
      · split at h
        · cases h
        · rename_i candidate found
          have good := List.find?_some found
          simp only [Bool.and_eq_true, decide_eq_true_eq] at good
          have candidateMem := mem_allModelsByPrice.mp (List.mem_of_find?_eq_some found)
          cases h
          exact ⟨candidateMem, rfl, rfl, rfl, good.1.2, rfl, good.2, .inr rfl⟩

/-- Every decision `route` returns meets its contract. -/
theorem route_sound {exclude : List String} (h : route ts s req exclude = .ok d) :
    Routed ts s req exclude d := by
  unfold route at h
  split at h
  · cases h
  · rename_i m rest available
    rw [← available] at h
    split at h
    · rename_i name pinned
      obtain ⟨mem, named, complexity, input, output, fits, cost, affordable, -⟩ := routeForced_ok h
      obtain ⟨inCatalog, notExcluded⟩ := mem_available.mp mem
      refine ⟨inCatalog, notExcluded, complexity, input, output, fits, cost, affordable, ?_, ?_⟩
      · intro other pinned'
        rw [pinned] at pinned'
        exact named.trans (Option.some.inj pinned')
      · intro none
        rw [pinned] at none
        cases none
    · rename_i pinned
      obtain ⟨mem, complexity, input, output, fits, cost, affordable, tier⟩ := routeByTier_ok h
      obtain ⟨inCatalog, notExcluded⟩ := mem_available.mp mem
      refine ⟨inCatalog, notExcluded, complexity, input, output, fits, cost, affordable, ?_,
        fun _ => tier⟩
      intro name pinned'
      rw [pinned] at pinned'
      cases pinned'

end Sound

end LLMInference
