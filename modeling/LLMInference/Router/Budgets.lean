import LLMInference.Router.Choice

/-!
One request under two budgets.

The budget decides nothing but affordability: the primary, the windows and the projected
costs are the same. So a larger budget keeps a primary that was chosen and never turns a
success into an error; what the switch down finds can change, and then to a model of no
higher blended price.
-/

namespace LLMInference

/-- The request with another budget. -/
def RouteRequest.withBudget (req : RouteRequest) (budget : ℚ) : RouteRequest :=
  { req with budgetUsd := some budget }

section Budgets

variable {ts : TextSupport} {s : Settings} {req : RouteRequest} {exclude : List String}
  {budget larger : ℚ}

theorem RouteRequest.SwitchDown.withLarger {primary m : ModelSpec} (more : budget ≤ larger)
    (down : (req.withBudget budget).SwitchDown ts s primary m) :
    (req.withBudget larger).SwitchDown ts s primary m where
  cheaper := down.cheaper
  fits := down.fits
  affordable := down.affordable.trans more

/-- Under a larger budget the switch down finds the same model, or one of no higher
blended price that the smaller budget did not pay for. -/
theorem downgradeTo_withLarger {catalog : List ModelSpec} {primary m : ModelSpec}
    (more : budget ≤ larger)
    (found : downgradeTo s (req.withBudget budget) ts catalog primary = some m) :
    ∃ m', downgradeTo s (req.withBudget larger) ts catalog primary = some m' ∧
      (m' = m ∨ m'.blended ≤ m.blended ∧ budget < req.costOn ts s m') := by
  obtain ⟨m', found', same | ⟨ranked, fails⟩⟩ :=
    FirstFit.firstFit_relax ModelSpec.blended
      (fun b passes => switchDown_iff.mpr ((switchDown_iff.mp passes).withLarger more)) found
  · exact ⟨m', found', .inl same⟩
  · have down := (downgradeTo_least found').passes
    refine ⟨m', found', .inr ⟨ranked, not_le.mp fun affordable => fails ?_⟩⟩
    exact switchDown_iff.mpr ⟨down.cheaper, down.fits, affordable⟩

/-- A model that cannot do the task is of a lower tier than one that can. -/
theorem tier_le_of_not_capable {low high : ModelSpec} (incapable : ¬ req.Capable ts s low)
    (capable : req.Capable ts s high) : low.tier ≤ high.tier :=
  (Nat.le_of_lt (Nat.not_le.mp incapable)).trans capable

/-- What a larger budget changes. -/
theorem route_larger_budget {d : RoutingDecision} (unpinned : req.pinned = none)
    (more : budget ≤ larger) (routed : route ts s (req.withBudget budget) exclude = .ok d) :
    ∃ d', route ts s (req.withBudget larger) exclude = .ok d' ∧
      (d.downgraded = false → d'.model = d.model) ∧
      (d.model.tier ≤ d'.model.tier ∨
        d.downgraded = true ∧ d'.downgraded = true ∧ d'.model ≠ d.model ∧
          d'.model.blended ≤ d.model.blended ∧ budget < d'.projectedCost) := by
  have unpinned : ∀ b, (req.withBudget b).pinned = none := fun _ => unpinned
  cases route_walk (unpinned budget) routed with
  | primary chosen fits affordable model =>
      have serves : (req.withBudget larger).Serves ts s d.model :=
        ⟨model ▸ (primaryModel_least chosen).passes, model ▸ fits,
          model ▸ affordable.trans more⟩
      obtain ⟨d', routed', same, -⟩ :=
        route_of_serves (unpinned larger) (model ▸ chosen) serves
      exact ⟨d', routed', fun _ => same, .inl (same ▸ Nat.le_refl _)⟩
  | downgraded chosen fits costly found switched =>
      rename_i primary
      have kept : d.downgraded = false → False := fun kept => by simp [switched] at kept
      have lower : d.model.tier ≤ primary.tier := by
        have down := downgradeTo_least found
        exact tier_le_of_not_capable (down.passes.not_capable chosen down.mem)
          (primaryModel_least chosen).passes
      rcases le_or_gt (req.costOn ts s primary) larger with affordable | costly'
      · obtain ⟨d', routed', same, -⟩ :=
          route_of_serves (unpinned larger) chosen
            ⟨(primaryModel_least chosen).passes, fits, affordable⟩
        exact ⟨d', routed', fun unswitched => (kept unswitched).elim, .inl (same ▸ lower)⟩
      · obtain ⟨m', found', change⟩ := downgradeTo_withLarger more found
        obtain ⟨d', routed', same, switched'⟩ :=
          route_of_downgradeTo (unpinned larger) chosen fits costly' found'
        refine ⟨d', routed', fun unswitched => (kept unswitched).elim, ?_⟩
        have sound := route_sound routed'
        rcases eq_or_ne d'.model d.model with unchanged | changed
        · exact .inl (unchanged ▸ Nat.le_refl _)
        · obtain ⟨ranked, unpaid⟩ := change.resolve_left fun eq => changed (same.trans eq)
          refine .inr ⟨switched, switched', changed, same ▸ ranked, ?_⟩
          rw [sound.cost, sound.inputTokens, sound.output, same]
          exact unpaid

/-- Half a dollar instead of a tenth of a cent: the complex task goes up to a large model. -/
theorem route_larger_budget_complex :
    ∃ d d', route .ascii {}
        (RouteRequest.withBudget { prompt := "hi", taskType := some "complex" } (1 / 1000)) [] =
          .ok d ∧
      route .ascii {}
        (RouteRequest.withBudget { prompt := "hi", taskType := some "complex" } (1 / 2)) [] =
          .ok d' ∧
      (d.downgraded = false → d'.model = d.model) := by
  generalize routed : route .ascii {}
    (RouteRequest.withBudget { prompt := "hi", taskType := some "complex" } (1 / 1000)) [] = result
  have served : result.toOption.isSome = true := by
    rw [← routed]
    decide +kernel
  cases result with
  | error e => cases served
  | ok d =>
      have more : (1 / 1000 : ℚ) ≤ 1 / 2 := by norm_num
      obtain ⟨d', routed', same, -⟩ := route_larger_budget rfl more routed
      exact ⟨d, d', rfl, routed', same⟩

/-- A capable but dear model, and two candidates for the switch down: by blended price the
weaker one is first, for a long answer the stronger one is cheaper. -/
def crossedTiers : Settings where
  catalog :=
    [ { name := "full", tier := .complex, inputPricePer1k := 1 / 100,
        outputPricePer1k := 1 / 100, maxContextTokens := 16000 },
      { name := "weak", tier := .simple, inputPricePer1k := 0,
        outputPricePer1k := 4 / 1000, maxContextTokens := 16000 },
      { name := "strong", tier := .moderate, inputPricePer1k := 5 / 1000,
        outputPricePer1k := 1 / 1000, maxContextTokens := 16000 } ]

/-- A complex task with four thousand tokens of answer. -/
def longComplex : RouteRequest :=
  { prompt := "hi", taskType := some "complex", maxOutputTokens := some 4000 }

/-- Three times the budget, and the answer comes from a model of a lower tier. -/
theorem larger_budget_lower_tier :
    crossedTiers.Priced ∧
      ∃ d d', route .ascii crossedTiers (longComplex.withBudget (1 / 200)) [] = .ok d ∧
        route .ascii crossedTiers (longComplex.withBudget (3 / 200)) [] = .ok d' ∧
        ¬ d.model.tier ≤ d'.model.tier := by
  refine ⟨by decide +kernel, ?_⟩
  generalize routed : route .ascii crossedTiers (longComplex.withBudget (1 / 200)) [] = small
  generalize routed' : route .ascii crossedTiers (longComplex.withBudget (3 / 200)) [] = large
  have tiers : small.toOption.map (·.model.tier) = some .moderate ∧
      large.toOption.map (·.model.tier) = some .simple := by
    rw [← routed, ← routed']
    decide +kernel
  cases small with
  | error e => cases tiers.1
  | ok d =>
      cases large with
      | error e => cases tiers.2
      | ok d' =>
          have moderate : d.model.tier = .moderate := Option.some.inj tiers.1
          have simple : d'.model.tier = .simple := Option.some.inj tiers.2
          refine ⟨d, d', rfl, rfl, ?_⟩
          rw [moderate, simple]
          decide

end Budgets

end LLMInference
