import Mathlib.Algebra.GroupWithZero.Nat
import Mathlib.Data.Nat.Notation
import Mathlib.Logic.Relation

/-!
Runs of labelled partial step functions.

A system is a state type `σ`, an action type `α` and a step function
`step : σ → α → Option σ`; `none` means that the action is not enabled. A run
condition `ok : σ → α → Prop` restricts the steps a run may take, so one step
function serves both the unrestricted runs (`Always`) and the runs a
conditional statement quantifies over.

* `Reaches.invariant`, `Reaches.invariant_of`: what the start satisfies and every
  step preserves holds in every reached state; the second form also lets the step use
  that the state before it was reached.
* `Reaches.simulate`: a refinement, step by step, is one of runs.
* `recording`: a run with a record of its steps. `Reaches.forget`, `Reaches.recorded`: the
  record neither adds runs nor takes any away.
* `exec`, `exec_reaches`: an executable run over a list of actions is a run, so a
  concrete trace can be evaluated.
* `exec_length_le`, `exec_length_le_add`: a measure that every step lowers bounds the length of a
  run, with what the actions add to it.
* `exec_map_eq`: systems that step alike run alike.
* `exists_exec_of_progress`: where there is always a step that lowers a measure, an end is reached.
-/

namespace Runs

variable {σ α : Type*}

/-- No condition on the steps of a run. -/
def Always : σ → α → Prop := fun _ _ => True

instance (s : σ) (a : α) : Decidable (Always s a) :=
  inferInstanceAs (Decidable True)

/-- `Reaches step ok s₀ s`: some run of `step` from `s₀`, each of whose steps
satisfies `ok` in the state it is taken from, ends in `s`. -/
inductive Reaches (step : σ → α → Option σ) (ok : σ → α → Prop) (s₀ : σ) : σ → Prop
  | refl : Reaches step ok s₀ s₀
  | tail {s s' : σ} {a : α} : Reaches step ok s₀ s → ok s a → step s a = some s' →
      Reaches step ok s₀ s'

section Invariants

variable {step : σ → α → Option σ} {ok : σ → α → Prop} {s₀ s : σ}

/-- The invariant rule. -/
theorem Reaches.invariant {I : σ → Prop} (reached : Reaches step ok s₀ s) (start : I s₀)
    (preserved : ∀ s a s', I s → ok s a → step s a = some s' → I s') : I s := by
  induction reached with
  | refl => exact start
  | tail _ allowed stepped ih => exact preserved _ _ _ ih allowed stepped

/-- The invariant rule, with what is already known of reached states at hand. -/
theorem Reaches.invariant_of {I : σ → Prop} (reached : Reaches step ok s₀ s) (start : I s₀)
    (preserved : ∀ s a s', Reaches step ok s₀ s → I s → ok s a → step s a = some s' → I s') :
    I s := by
  induction reached with
  | refl => exact start
  | tail before allowed stepped ih => exact preserved _ _ _ before ih allowed stepped

/-- Fewer conditions, more runs. -/
theorem Reaches.weaken {ok' : σ → α → Prop} (reached : Reaches step ok s₀ s)
    (weaker : ∀ s a, ok s a → ok' s a) : Reaches step ok' s₀ s := by
  induction reached with
  | refl => exact .refl
  | tail _ allowed stepped ih => exact ih.tail (weaker _ _ allowed) stepped

/-- Fewer conditions again, where an invariant of the run helps to meet them. -/
theorem Reaches.weaken_of {ok' : σ → α → Prop} {I : σ → Prop} (reached : Reaches step ok s₀ s)
    (start : I s₀) (weaker : ∀ s a, I s → ok s a → ok' s a)
    (preserved : ∀ s a s', I s → ok' s a → step s a = some s' → I s') :
    Reaches step ok' s₀ s ∧ I s := by
  induction reached with
  | refl => exact ⟨.refl, start⟩
  | tail _ allowed stepped ih =>
      obtain ⟨before, holds⟩ := ih
      have allowed' := weaker _ _ holds allowed
      exact ⟨before.tail allowed' stepped, preserved _ _ _ holds allowed' stepped⟩

/-- A simulation: where every step of the run is a step of a second system, seen through `f`, or
leaves what `f` sees alone, the second system has the run that `f` sees. -/
theorem Reaches.simulate {τ β : Type*} {step' : τ → β → Option τ} {ok' : τ → β → Prop} {f : σ → τ}
    {I : σ → Prop} (reached : Reaches step ok s₀ s) (start : I s₀)
    (preserved : ∀ s a s', I s → ok s a → step s a = some s' → I s')
    (seen : ∀ s a s', I s → ok s a → step s a = some s' →
      f s' = f s ∨ ∃ b, ok' (f s) b ∧ step' (f s) b = some (f s')) :
    Reaches step' ok' (f s₀) (f s) := by
  induction reached with
  | refl => exact .refl
  | tail before allowed stepped ih =>
      rcases seen _ _ _ (before.invariant start preserved) allowed stepped with same | ⟨b, ok, made⟩
      · rw [same]
        exact ih
      · exact ih.tail ok made

theorem Reaches.trans {s₁ : σ} (first : Reaches step ok s₀ s₁)
    (second : Reaches step ok s₁ s) : Reaches step ok s₀ s := by
  induction second with
  | refl => exact first
  | tail _ allowed stepped ih => exact ih.tail allowed stepped

end Invariants

/-! ### Records -/

section Recording

variable {γ : Type*} {step : σ → α → Option σ} {note : σ → α → γ → γ} {ok : σ → α → Prop}

/-- The step, with a note of it in a record that no step reads. -/
def recording (step : σ → α → Option σ) (note : σ → α → γ → γ) (p : σ × γ) (a : α) :
    Option (σ × γ) :=
  (step p.1 a).map fun s => (s, note p.1 a p.2)

theorem recording_eq_some {p p' : σ × γ} {a : α} :
    recording step note p a = some p' ↔ step p.1 a = some p'.1 ∧ p'.2 = note p.1 a p.2 := by
  rw [recording, Option.map_eq_some_iff]
  constructor
  · rintro ⟨s, stepped, rfl⟩
    exact ⟨stepped, rfl⟩
  · rintro ⟨stepped, noted⟩
    exact ⟨p'.1, stepped, Prod.ext rfl noted.symm⟩

/-- A run with a record is a run. -/
theorem Reaches.forget {ok' : σ × γ → α → Prop} {p₀ p : σ × γ}
    (reached : Reaches (recording step note) ok' p₀ p) (weaker : ∀ p a, ok' p a → ok p.1 a) :
    Reaches step ok p₀.1 p.1 := by
  induction reached with
  | refl => exact .refl
  | tail _ allowed stepped ih => exact ih.tail (weaker _ _ allowed) (recording_eq_some.mp stepped).1

/-- Every run has a record. -/
theorem Reaches.recorded {s₀ s : σ} (reached : Reaches step ok s₀ s) (g₀ : γ) :
    ∃ g, Reaches (recording step note) (fun p => ok p.1) (s₀, g₀) (s, g) := by
  induction reached with
  | refl => exact ⟨g₀, .refl⟩
  | tail _ allowed stepped ih =>
      obtain ⟨g, before⟩ := ih
      exact ⟨_, before.tail allowed (recording_eq_some.mpr ⟨stepped, rfl⟩)⟩

end Recording

/-! ### Executable runs -/

section Exec

variable (step : σ → α → Option σ) (ok : σ → α → Prop) [∀ s a, Decidable (ok s a)]

/-- Run a list of actions, checking the run condition at every step. -/
def exec (s : σ) : List α → Option σ
  | [] => some s
  | a :: rest =>
      if ok s a then
        match step s a with
        | none => none
        | some s' => exec s' rest
      else none

theorem exec_reaches {s s' : σ} (acts : List α) (ran : exec step ok s acts = some s') :
    Reaches step ok s s' := by
  induction acts generalizing s with
  | nil =>
      simp only [exec, Option.some.injEq] at ran
      exact ran ▸ .refl
  | cons a rest ih =>
      simp only [exec] at ran
      split at ran
      · rename_i allowed
        cases stepped : step s a with
        | none => simp [stepped] at ran
        | some next =>
            simp only [stepped] at ran
            exact (Reaches.refl.tail allowed stepped).trans (ih ran)
      · cases ran

/-- A run goes on from where its beginning ends. -/
theorem exec_append (s : σ) (acts rest : List α) :
    exec step ok s (acts ++ rest) = (exec step ok s acts).bind fun s' => exec step ok s' rest := by
  induction acts generalizing s with
  | nil => rfl
  | cons a acts ih =>
      simp only [exec, List.cons_append]
      split
      · cases step s a with
        | none => rfl
        | some next => exact ih next
      · rfl

theorem exec_cons_of {s s' : σ} {a : α} {rest : List α} (allowed : ok s a)
    (stepped : step s a = some s') : exec step ok s (a :: rest) = exec step ok s' rest := by
  rw [exec, if_pos allowed, stepped]

/-- The first step of a run. -/
theorem exec_head {s s' : σ} {a : α} {rest : List α} (ran : exec step ok s (a :: rest) = some s') :
    ∃ next, ok s a ∧ step s a = some next ∧ exec step ok next rest = some s' := by
  rw [exec] at ran
  split at ran
  · rename_i allowed
    cases stepped : step s a with
    | none => simp [stepped] at ran
    | some next => exact ⟨next, allowed, rfl, by simpa [stepped] using ran⟩
  · cases ran

/-- The last step of a run. -/
theorem exec_concat {s s' : σ} {acts : List α} {a : α}
    (ran : exec step ok s (acts ++ [a]) = some s') :
    ∃ mid, exec step ok s acts = some mid ∧ ok mid a ∧ step mid a = some s' := by
  rw [exec_append, Option.bind_eq_some_iff] at ran
  obtain ⟨mid, before, last⟩ := ran
  obtain ⟨next, allowed, stepped, rest⟩ := exec_head step ok last
  cases rest
  exact ⟨mid, before, allowed, stepped⟩

/-- Where an invariant makes every step lower a measure, the measure pays for the run. -/
theorem exec_length_le {I : σ → Prop} {μ : σ → ℕ}
    (preserved : ∀ s a s', I s → step s a = some s' → I s')
    (lowers : ∀ s a s', I s → step s a = some s' → μ s' < μ s) {s s' : σ} (start : I s)
    (acts : List α) (ran : exec step ok s acts = some s') : acts.length + μ s' ≤ μ s := by
  induction acts generalizing s with
  | nil =>
      simp only [exec, Option.some.injEq] at ran
      simp [ran]
  | cons a rest ih =>
      simp only [exec] at ran
      split at ran
      · cases stepped : step s a with
        | none => simp [stepped] at ran
        | some next =>
            simp only [stepped] at ran
            have shorter := ih (preserved s a next start stepped) ran
            have lower := lowers s a next start stepped
            simp only [List.length_cons]
            omega
      · cases ran

/-- Where every step lowers a measure by one but for what its action adds, the measure and what the
actions add pay for the run. -/
theorem exec_length_le_add {μ : σ → ℕ} {gain : α → ℕ}
    (pays : ∀ s a s', ok s a → step s a = some s' → μ s' + 1 ≤ μ s + gain a) {s s' : σ}
    (acts : List α) (ran : exec step ok s acts = some s') :
    acts.length + μ s' ≤ μ s + (acts.map gain).sum := by
  induction acts generalizing s with
  | nil =>
      simp only [exec, Option.some.injEq] at ran
      simp [ran]
  | cons a rest ih =>
      obtain ⟨next, allowed, stepped, ran⟩ := exec_head step ok ran
      have tail := ih ran
      have head := pays s a next allowed stepped
      simp only [List.length_cons, List.map_cons, List.sum_cons]
      omega

/-- Where an invariant leaves a step that lowers a measure until the end is reached, some run of
such steps, no longer than the measure, reaches it. -/
theorem exists_exec_of_progress (I ends : σ → Prop) (good : α → Prop) (μ : σ → ℕ)
    (progress : ∀ s, I s →
      ends s ∨ ∃ a s', good a ∧ ok s a ∧ step s a = some s' ∧ I s' ∧ μ s' < μ s)
    {s : σ} (start : I s) :
    ∃ acts s', (∀ a ∈ acts, good a) ∧ acts.length ≤ μ s ∧ exec step ok s acts = some s' ∧ I s' ∧
      ends s' := by
  induction measure : μ s using Nat.strongRecOn generalizing s with
  | ind n ih =>
      rcases progress s start with ended | ⟨a, next, fine, allowed, stepped, kept, lower⟩
      · exact ⟨[], s, List.forall_mem_nil _, Nat.zero_le _, rfl, start, ended⟩
      · obtain ⟨acts, s', all, short, ran, kept', ended⟩ := ih (μ next) (measure ▸ lower) kept rfl
        refine ⟨a :: acts, s', List.forall_mem_cons.mpr ⟨fine, all⟩, ?_,
          (exec_cons_of step ok allowed stepped).trans ran, kept', ended⟩
        rw [List.length_cons]
        omega

/-- Two systems in a relation that their steps keep go through runs that look alike. -/
theorem exec_map_eq {τ γ : Type*} {step' : τ → α → Option τ} {ok' : τ → α → Prop}
    [∀ t a, Decidable (ok' t a)] {R : σ → τ → Prop} {f : σ → γ} {g : τ → γ}
    (alike : ∀ s t, R s t → f s = g t) (allowed : ∀ s t a, R s t → (ok s a ↔ ok' t a))
    (steps : ∀ s t a, R s t → ok' t a → (step s a = none ∧ step' t a = none) ∨
      ∃ s' t', step s a = some s' ∧ step' t a = some t' ∧ R s' t')
    {s : σ} {t : τ} (start : R s t) (acts : List α) :
    (exec step ok s acts).map f = (exec step' ok' t acts).map g := by
  induction acts generalizing s t with
  | nil => exact congrArg some (alike s t start)
  | cons a rest ih =>
      by_cases fine : ok' t a
      · have fine' : ok s a := (allowed s t a start).mpr fine
        rcases steps s t a start fine with ⟨stuck, stuck'⟩ | ⟨s', t', stepped, stepped', kept⟩
        · rw [exec, exec, if_pos fine, if_pos fine', stuck, stuck']
          rfl
        · rw [exec_cons_of step ok fine' stepped, exec_cons_of step' ok' fine stepped']
          exact ih kept
      · rw [exec, exec, if_neg fine, if_neg fun fine' => fine ((allowed s t a start).mp fine')]
        rfl

/-- Some run over the listed actions ends in a state where `p` holds. -/
def execHolds (s : σ) (acts : List α) (p : σ → Bool) : Bool :=
  (exec step ok s acts).any p

theorem exists_reaches_of_execHolds {s : σ} {acts : List α} {p : σ → Bool}
    (holds : execHolds step ok s acts p = true) : ∃ s', Reaches step ok s s' ∧ p s' = true := by
  obtain ⟨s', ran, good⟩ := (Option.any_eq_true ..).mp holds
  exact ⟨s', exec_reaches step ok acts ran, good⟩

end Exec

end Runs
