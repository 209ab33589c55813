import LLMInference.Gate
import LLMInference.Lib.Runs
import Mathlib.Data.List.Nodup

/-!
Wake-ups in the capacity gate.

`step` interleaves acquire, release, resize, the runs of marked waiters and the
cancellations of waiters, each of which is an admission timeout or a cancelled task.

* `Covered`: every free slot has a marked waiter to take it, unless nobody is left
  unmarked. Steps that meet `KeepsMarks` preserve it.
* `no_lost_wakeup`: in a run of such steps, a waiter and a free slot imply a marked waiter.
* `lost_mark_strands`: the condition is exact. A step that fails it can be continued, by the
  marked waiters running, to a gate that has a free slot, a waiter and no mark.
-/

namespace LLMInference

inductive GateAct where
  /-- Caller `id` enters `acquire()`. -/
  | acquire (id : ℕ)
  | release
  | resize (capacity : ℤ)
  /-- The marked waiter `id` runs. -/
  | wake (id : ℕ)
  /-- The waiter `id` is cancelled. -/
  | cancel (id : ℕ)
  deriving DecidableEq, Repr

namespace CapacityGate

/-- A slot is released by one of its holders; a caller parks at most once at a time. -/
def step (g : CapacityGate) : GateAct → Option CapacityGate
  | .acquire id => if g.waiter id = none then some (g.acquire id).2 else none
  | .release => if 0 < g.active then some g.release else none
  | .resize capacity => some (g.resize capacity)
  | .wake id => if g.runnable id then some (g.resume id).2 else none
  | .cancel id => if (g.waiter id).isSome then some (g.abandon id) else none

/-- The run condition: a waiter that is cancelled while marked leaves enough marks behind
for the free slots, or nobody who could use one. -/
def KeepsMarks (g : CapacityGate) : GateAct → Prop
  | .cancel id => g.runnable id = true → g.parked = 0 ∨ g.spare < g.marked
  | _ => True

instance (g : CapacityGate) (a : GateAct) : Decidable (g.KeepsMarks a) :=
  match a with
  | .cancel _ => inferInstanceAs (Decidable (_ → _))
  | .acquire _ | .release | .resize _ | .wake _ => inferInstanceAs (Decidable True)

/-- Every free slot is covered by a mark, unless nobody is left unmarked. -/
structure Covered (g : CapacityGate) : Prop where
  active : 0 ≤ g.active
  marks : g.parked = 0 ∨ g.spare ≤ g.marked

/-- A slot is free, somebody waits for one, and nobody is about to run. -/
structure Stranded (g : CapacityGate) : Prop where
  free : g.active < g.capacity
  waiting : g.waiters ≠ []
  unmarked : ∀ w ∈ g.waiters, w.marked = false

section Counts

variable {g g' : CapacityGate} {id : ℕ}

/-- The counts after the waiter `id` has left. -/
theorem counts_leave {w : Waiter} (found : g.waiter id = some w) (g' : CapacityGate)
    (left : g'.waiters = g.waiters.eraseP fun w => w.id == id) :
    g'.parked + (if w.marked then 0 else 1) = g.parked ∧
      g'.marked + (if w.marked then 1 else 0) = g.marked := by
  have parked := Pool.countP_eraseP found (!·.marked)
  have marked := Pool.countP_eraseP found (·.marked)
  simp only [CapacityGate.parked, CapacityGate.marked, left]
  cases mark : w.marked <;> simp_all

theorem runnable_iff : g.runnable id = true ↔ ∃ w, g.waiter id = some w ∧ w.marked = true := by
  unfold runnable
  exact Option.any_eq_true ..

/-- Parking adds an unmarked waiter. -/
theorem counts_park (id : ℕ) (ws : List Waiter) :
    (ws ++ [(⟨id, false⟩ : Waiter)]).countP (!·.marked) = ws.countP (!·.marked) + 1 ∧
      (ws ++ [(⟨id, false⟩ : Waiter)]).countP (·.marked) = ws.countP (·.marked) := by
  simp [List.countP_append]

/-- A waiter that runs gives up its mark for a slot, or parks again over capacity. -/
theorem counts_resume (runnable : g.runnable id = true) :
    (g.active < g.capacity ∧ (g.resume id).2.active = g.active + 1 ∧
      (g.resume id).2.parked = g.parked ∧ (g.resume id).2.marked + 1 = g.marked) ∨
    (g.capacity ≤ g.active ∧ (g.resume id).2.active = g.active ∧
      (g.resume id).2.parked = g.parked + 1 ∧ (g.resume id).2.marked + 1 = g.marked) := by
  obtain ⟨w, found, marked⟩ := runnable_iff.mp runnable
  by_cases room : g.active < g.capacity
  · have counts := counts_leave found (g.resume id).2 (by simp [resume, room])
    simp only [marked, if_true, Nat.add_zero] at counts
    exact .inl ⟨room, by simp [resume, room], counts⟩
  · have counts := counts_leave found (g.abandon id) rfl
    simp only [marked, if_true, Nat.add_zero] at counts
    have park := counts_park id (g.abandon id).waiters
    refine .inr ⟨not_lt.mp room, by simp [resume, room], ?_, ?_⟩
    · simp only [resume, room, if_false]
      exact park.1.trans (congrArg (· + 1) counts.1)
    · simp only [resume, room, if_false]
      exact (congrArg (· + 1) park.2).trans counts.2

@[simp] theorem resume_capacity : (g.resume id).2.capacity = g.capacity := by
  unfold resume
  simp only
  split <;> rfl

end Counts

section Steps

variable {g g' : CapacityGate} {id : ℕ}

theorem Covered.acquire (covered : g.Covered) : (g.acquire id).2.Covered := by
  obtain ⟨active, marks⟩ := covered
  unfold CapacityGate.acquire
  split
  · refine ⟨by simp only; omega, ?_⟩
    rcases marks with none | enough
    · exact .inl none
    · right
      simp only [spare, CapacityGate.marked] at enough ⊢
      omega
  · rename_i full
    refine ⟨active, .inr ?_⟩
    simp only [spare, CapacityGate.marked]
    omega

theorem Covered.release (covered : g.Covered) : g.release.Covered := by
  obtain ⟨active, marks⟩ := covered
  obtain ⟨parked, marked⟩ := countP_notify 1 g.waiters
  refine ⟨le_max_left _ _, ?_⟩
  simp only [CapacityGate.release, spare, CapacityGate.parked, CapacityGate.marked, parked,
    marked] at marks ⊢
  omega

theorem Covered.resize (covered : g.Covered) (capacity : ℤ) : (g.resize capacity).Covered := by
  obtain ⟨active, marks⟩ := covered
  refine ⟨active, ?_⟩
  by_cases grew : g.capacity < max 1 capacity
  · -- As many marks as the whole capacity, not only as the new headroom.
    obtain ⟨parked, marked⟩ := countP_notify (max 1 capacity).toNat g.waiters
    simp only [CapacityGate.resize, grew, if_true, spare, CapacityGate.parked,
      CapacityGate.marked, parked, marked]
    omega
  · simp only [CapacityGate.resize, grew, if_false, spare, CapacityGate.parked,
      CapacityGate.marked] at marks ⊢
    omega

theorem Covered.resume (covered : g.Covered) (runnable : g.runnable id = true) :
    (g.resume id).2.Covered := by
  obtain ⟨active, marks⟩ := covered
  rcases counts_resume runnable with ⟨room, slot, parked, marked⟩ | ⟨full, slot, parked, marked⟩
  · refine ⟨by omega, ?_⟩
    simp only [spare, resume_capacity, slot, parked] at marks ⊢
    omega
  · refine ⟨by omega, .inr ?_⟩
    simp only [spare, resume_capacity, slot]
    omega

theorem Covered.abandon (covered : g.Covered) {w : Waiter} (found : g.waiter id = some w)
    (keeps : g.KeepsMarks (.cancel id)) : (g.abandon id).Covered := by
  obtain ⟨active, marks⟩ := covered
  obtain ⟨parked, marked⟩ := counts_leave found (g.abandon id) rfl
  refine ⟨active, ?_⟩
  have slots : (g.abandon id).spare = g.spare := rfl
  cases mark : w.marked with
  | true =>
      have enough := keeps (runnable_iff.mpr ⟨w, found, mark⟩)
      simp only [mark, if_true] at parked marked
      rw [slots]
      omega
  | false =>
      simp only [mark, Bool.false_eq_true, if_false] at parked marked
      rw [slots]
      omega

theorem Covered.step {a : GateAct} (covered : g.Covered) (keeps : g.KeepsMarks a)
    (stepped : g.step a = some g') : g'.Covered := by
  cases a with
  | acquire id =>
      obtain ⟨-, ⟨⟩⟩ := Option.ite_none_right_eq_some.mp stepped
      exact covered.acquire
  | release =>
      obtain ⟨-, ⟨⟩⟩ := Option.ite_none_right_eq_some.mp stepped
      exact covered.release
  | resize capacity =>
      cases stepped
      exact covered.resize capacity
  | wake id =>
      obtain ⟨runnable, ⟨⟩⟩ := Option.ite_none_right_eq_some.mp stepped
      exact covered.resume runnable
  | cancel id =>
      obtain ⟨present, ⟨⟩⟩ := Option.ite_none_right_eq_some.mp stepped
      obtain ⟨w, found⟩ := Option.isSome_iff_exists.mp present
      exact covered.abandon found keeps

end Steps

/-- In a run in which every cancelled waiter's mark can be spared, a waiter and a free slot
imply a waiter that is about to run. -/
theorem no_lost_wakeup (capacity : ℤ) {g : CapacityGate}
    (reached : Runs.Reaches step KeepsMarks (create capacity) g) (waiting : g.waiters ≠ [])
    (free : g.active < g.capacity) : ∃ w ∈ g.waiters, w.marked = true := by
  have covered : g.Covered := by
    apply reached.invariant ⟨le_rfl, .inl rfl⟩
    intro g a g' covered keeps stepped
    exact covered.step keeps stepped
  rcases covered.marks with allMarked | enough
  · obtain ⟨w, mem⟩ := List.exists_mem_of_ne_nil _ waiting
    refine ⟨w, mem, ?_⟩
    simpa using List.countP_eq_zero.mp allMarked w mem
  · have positive : 0 < g.marked := by
      unfold spare at enough
      omega
    obtain ⟨w, mem, mark⟩ := List.countP_pos_iff.mp positive
    exact ⟨w, mem, mark⟩

/-- One of two waiters gives up before the slot is released to the other. -/
theorem no_lost_wakeup_after_release :
    ∃ g, Runs.Reaches step KeepsMarks (create 1) g ∧ g.waiters ≠ [] ∧ g.active < g.capacity ∧
      ∃ w ∈ g.waiters, w.marked = true := by
  have reached : Runs.Reaches step KeepsMarks (create 1) ⟨1, 0, 1, [⟨1, true⟩]⟩ :=
    Runs.exec_reaches step KeepsMarks
      [.acquire 0, .acquire 1, .acquire 2, .cancel 2, .release] (by decide)
  exact ⟨_, reached, by decide, by decide, no_lost_wakeup 1 reached (by decide) (by decide)⟩

/-- The slot is released to a waiter that is cancelled before it runs: the other waiter
stays parked beside a free slot, with nobody left to release. -/
theorem wakeup_lost_by_cancel :
    ∃ g, Runs.Reaches step Runs.Always (create 1) g ∧ g.Stranded ∧ g.active = 0 := by
  have reached : Runs.Reaches step Runs.Always (create 1) ⟨1, 0, 1, [⟨2, false⟩]⟩ :=
    Runs.exec_reaches step Runs.Always
      [.acquire 0, .acquire 1, .acquire 2, .release, .cancel 1] (by decide)
  exact ⟨_, reached, ⟨by decide, by decide, by decide⟩, rfl⟩

/-! ### The condition is exact -/

/-- No caller is parked twice. -/
def Distinct (g : CapacityGate) : Prop := (g.waiters.map (·.id)).Nodup

section Exact

variable {g g' : CapacityGate} {id : ℕ}

theorem map_id_eraseP (ws : List Waiter) :
    (ws.eraseP fun w => w.id == id).map (·.id) = (ws.map (·.id)).erase id := by
  rw [List.erase_eq_eraseP', List.eraseP_map]
  rfl

theorem Distinct.step {a : GateAct} (distinct : g.Distinct) (stepped : g.step a = some g') :
    g'.Distinct := by
  unfold Distinct at distinct ⊢
  cases a with
  | acquire id =>
      obtain ⟨absent, ⟨⟩⟩ := Option.ite_none_right_eq_some.mp stepped
      have new : ∀ w ∈ g.waiters, w.id ≠ id := by
        intro w mem same
        exact List.find?_eq_none.mp absent w mem (beq_iff_eq.mpr same)
      unfold CapacityGate.acquire
      split
      · exact distinct
      · simpa [List.nodup_append, distinct] using new
  | release =>
      obtain ⟨-, ⟨⟩⟩ := Option.ite_none_right_eq_some.mp stepped
      rw [CapacityGate.release, map_id_notify]
      exact distinct
  | resize capacity =>
      cases stepped
      simp only [CapacityGate.resize]
      split
      · rw [map_id_notify]
        exact distinct
      · exact distinct
  | wake id =>
      obtain ⟨-, ⟨⟩⟩ := Option.ite_none_right_eq_some.mp stepped
      have rest : ((g.waiters.eraseP fun w => w.id == id).map (·.id)).Nodup := by
        rw [map_id_eraseP]
        exact distinct.erase id
      unfold CapacityGate.resume
      simp only
      split
      · exact rest
      · have gone : id ∉ (g.waiters.eraseP fun w => w.id == id).map (·.id) := by
          rw [map_id_eraseP]
          exact distinct.not_mem_erase
        rw [List.map_append, List.map_singleton, List.nodup_append]
        refine ⟨rest, List.nodup_singleton id, ?_⟩
        intro other mem last eq same
        rw [List.mem_singleton] at eq
        subst eq same
        exact gone mem
  | cancel id =>
      obtain ⟨-, ⟨⟩⟩ := Option.ite_none_right_eq_some.mp stepped
      rw [CapacityGate.abandon, map_id_eraseP]
      exact distinct.erase id

/-- A marked waiter is about to run. -/
theorem Distinct.runnable (distinct : g.Distinct) {w : Waiter} (mem : w ∈ g.waiters)
    (mark : w.marked = true) : g.runnable w.id = true := by
  refine runnable_iff.mpr ⟨w, ?_, mark⟩
  unfold waiter
  cases found : g.waiters.find? fun v => v.id == w.id with
  | none => exact absurd (beq_self_eq_true w.id) (List.find?_eq_none.mp found w mem)
  | some v =>
      have same : v.id = w.id := by simpa using List.find?_some found
      exact congrArg some (List.inj_on_of_nodup_map distinct (List.mem_of_find?_eq_some found)
        mem same)

/-- With more free slots than marks and an unmarked waiter, letting the marked waiters run
strands it: each takes a slot and a mark away. -/
theorem Distinct.strands (distinct : g.Distinct) (parked : 0 < g.parked)
    (more : (g.marked : ℤ) < g.spare) :
    ∃ g', Runs.Reaches CapacityGate.step Runs.Always g g' ∧ g'.Stranded := by
  induction marks : g.marked generalizing g with
  | zero =>
      refine ⟨g, .refl, ?_, ?_, ?_⟩
      · unfold spare at more
        omega
      · rintro none
        rw [CapacityGate.parked, none] at parked
        cases parked
      · simpa using List.countP_eq_zero.mp marks
  | succ n ih =>
      have positive : 0 < g.marked := marks.symm ▸ n.succ_pos
      obtain ⟨w, mem, mark⟩ := List.countP_pos_iff.mp positive
      have runnable := distinct.runnable mem mark
      have stepped : g.step (.wake w.id) = some (g.resume w.id).2 := if_pos runnable
      rcases counts_resume runnable with ⟨room, slot, parked', marked'⟩ | ⟨full, -, -, -⟩
      · have more' : ((g.resume w.id).2.marked : ℤ) < (g.resume w.id).2.spare := by
          simp only [spare, resume_capacity, slot] at more ⊢
          omega
        obtain ⟨g', run, stranded⟩ :=
          ih (distinct.step stepped) (parked'.symm ▸ parked) more' (by omega)
        exact ⟨g', (Runs.Reaches.refl.tail trivial stepped).trans run, stranded⟩
      · unfold spare at more
        omega

/-- A step that fails the run condition can be continued to a stranded gate. -/
theorem lost_mark_strands {capacity : ℤ} {a : GateAct}
    (reached : Runs.Reaches CapacityGate.step Runs.Always (create capacity) g)
    (loses : ¬ g.KeepsMarks a) (stepped : g.step a = some g') :
    ∃ g'', Runs.Reaches CapacityGate.step Runs.Always g' g'' ∧ g''.Stranded := by
  have distinct : g.Distinct := by
    apply reached.invariant List.nodup_nil
    intro g a g' distinct _ stepped
    exact Distinct.step distinct stepped
  cases a with
  | cancel id =>
      simp only [KeepsMarks, Classical.not_imp, not_or, not_lt] at loses
      obtain ⟨runnable, unmarked, slots⟩ := loses
      obtain ⟨w, found, mark⟩ := runnable_iff.mp runnable
      obtain ⟨-, ⟨⟩⟩ := Option.ite_none_right_eq_some.mp stepped
      obtain ⟨parked, marked⟩ := counts_leave found (g.abandon id) rfl
      simp only [mark, if_true] at parked marked
      have same : (g.abandon id).spare = g.spare := rfl
      exact (distinct.step stepped).strands (by omega) (by omega)
  | _ => exact absurd trivial loses

end Exact

end CapacityGate

end LLMInference
