import LLMInference.Lib.Pool
import Mathlib.Algebra.Order.Group.Int
import Mathlib.Tactic.Linarith

/-!
The capacity gate (`app/gate.py`): a concurrency limit that can be raised and lowered
while requests run and wait.

The condition variable is CPython's `asyncio.Condition`. A parked caller is a `Waiter` in
FIFO order; `notify n` marks the first `n` unmarked ones; a marked waiter leaves the list
when it runs, looks at the counters again, and parks anew at the end if there is no
room. The condition's lock is held only between suspension points, so each method is
one step.
-/

namespace LLMInference

/-- A future in `Condition._waiters`; `marked` once its result is set. -/
structure Waiter where
  id : ℕ
  marked : Bool
  deriving DecidableEq, Repr

structure CapacityGate where
  capacity : ℤ
  active : ℤ
  waiting : ℤ
  waiters : List Waiter
  deriving DecidableEq, Repr

/-- `Condition.notify(n)`. -/
def notify : ℕ → List Waiter → List Waiter
  | 0, ws => ws
  | _ + 1, [] => []
  | n + 1, w :: rest =>
      if w.marked then w :: notify (n + 1) rest else { w with marked := true } :: notify n rest

namespace CapacityGate

def create (capacity : ℤ) : CapacityGate :=
  { capacity := max 1 capacity, active := 0, waiting := 0, waiters := [] }

/-- `acquire()` up to its first suspension point: whether caller `id` was admitted at
once; otherwise it is parked. -/
def acquire (g : CapacityGate) (id : ℕ) : Bool × CapacityGate :=
  if g.active < g.capacity then (true, { g with active := g.active + 1 })
  else
    (false, { g with waiting := g.waiting + 1, waiters := g.waiters ++ [{ id, marked := false }] })

/-- The future of the parked caller `id`. -/
def waiter (g : CapacityGate) (id : ℕ) : Option Waiter := g.waiters.find? fun w => w.id == id

/-- The parked caller `id` is about to run. -/
def runnable (g : CapacityGate) (id : ℕ) : Bool := (g.waiter id).any (·.marked)

/-- The marked caller `id` runs: it is admitted if there is room by now, and parks again
otherwise. -/
def resume (g : CapacityGate) (id : ℕ) : Bool × CapacityGate :=
  let rest := g.waiters.eraseP fun w => w.id == id
  if g.active < g.capacity then
    (true, { g with active := g.active + 1, waiting := g.waiting - 1, waiters := rest })
  else (false, { g with waiters := rest ++ [{ id, marked := false }] })

/-- The parked caller `id` is cancelled: `acquire` unwinds. A mark it held is gone. -/
def abandon (g : CapacityGate) (id : ℕ) : CapacityGate :=
  { g with waiting := g.waiting - 1, waiters := g.waiters.eraseP fun w => w.id == id }

def release (g : CapacityGate) : CapacityGate :=
  { g with active := max 0 (g.active - 1), waiters := notify 1 g.waiters }

/-- `resize(capacity)`: a grown gate wakes every waiter the new headroom can admit. -/
def resize (g : CapacityGate) (capacity : ℤ) : CapacityGate :=
  let capacity := max 1 capacity
  let waiters := if g.capacity < capacity then notify capacity.toNat g.waiters else g.waiters
  { g with capacity, waiters }

/-! ### Marks -/

/-- Waiters that nobody has woken yet. -/
def parked (g : CapacityGate) : ℕ := g.waiters.countP (!·.marked)

/-- Waiters that are about to run. -/
def marked (g : CapacityGate) : ℕ := g.waiters.countP (·.marked)

/-- Free slots; negative while a shrunken gate is still over its capacity. -/
def spare (g : CapacityGate) : ℤ := g.capacity - g.active

end CapacityGate

/-- A notification takes its marks from the unmarked waiters. -/
theorem countP_notify (n : ℕ) (ws : List Waiter) :
    (notify n ws).countP (!·.marked) = ws.countP (!·.marked) - n ∧
      (notify n ws).countP (·.marked) = ws.countP (·.marked) + min n (ws.countP (!·.marked)) := by
  fun_induction notify n ws with
  | case1 ws => simp
  | case2 n => simp
  | case3 n w rest marked ih =>
      obtain ⟨unmarked, marks⟩ := ih
      simp only [List.countP_cons, marked, unmarked, marks]
      constructor
      · rfl
      · simp only [Bool.not_true, Bool.false_eq_true, if_true, if_false]
        omega
  | case4 n w rest unmarkedHead ih =>
      obtain ⟨unmarked, marks⟩ := ih
      rw [Bool.not_eq_true] at unmarkedHead
      simp only [List.countP_cons, unmarkedHead, unmarked, marks, Bool.not_true, Bool.not_false,
        Bool.false_eq_true, if_true, if_false]
      constructor <;> omega

/-- Marking keeps who waits. -/
theorem map_id_notify (n : ℕ) (ws : List Waiter) :
    (notify n ws).map (·.id) = ws.map (·.id) := by
  fun_induction notify n ws with
  | case1 ws => rfl
  | case2 n => rfl
  | case3 n w rest marked ih => simp [ih]
  | case4 n w rest unmarked ih => simp [ih]

end LLMInference
