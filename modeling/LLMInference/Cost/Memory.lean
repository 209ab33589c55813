import LLMInference.Cost.Base
import LLMInference.Lib.Pool

/-!
The in-memory ledger (`app/cost/memory.py`): spend per user over a rolling window.

The lock is held only between suspension points, so every method is one step. `now` is
the reading of the clock at its start.
-/

namespace LLMInference

/-- `(timestamp, amount, entry_id)`. -/
structure Entry where
  timestamp : ℚ
  amount : ℚ
  entryId : ℕ
  deriving DecidableEq, Repr

/-- The sum of the amounts. -/
def amounts (es : List Entry) : ℚ := (es.map (·.amount)).sum

/-- `_drop`: without the first entry called `id`. -/
def dropEntry (es : List Entry) (id : ℕ) : List Entry := es.eraseP fun e => e.entryId == id

/-- The amount held under `id`, 0 if nothing is. -/
def heldUnder (es : List Entry) (id : ℕ) : ℚ :=
  ((es.find? fun e => e.entryId == id).map (·.amount)).getD 0

structure Ledger where
  windowSeconds : ℚ := 24 * 3600
  /-- A user without an entry has the empty list. -/
  spend : String → List Entry := fun _ => []
  records : List UsageRecord := []

namespace Ledger

def setSpend (l : Ledger) (userId : String) (es : List Entry) : Ledger :=
  { l with spend := Function.update l.spend userId es }

/-- The entries of a user that `_prune` keeps at `now`. -/
def inWindow (l : Ledger) (userId : String) (now : ℚ) : List Entry :=
  (l.spend userId).filter fun e => decide (now - l.windowSeconds ≤ e.timestamp)

/-- `_prune`. -/
def prune (l : Ledger) (userId : String) (now : ℚ) : Ledger :=
  l.setSpend userId (l.inWindow userId now)

def spent (l : Ledger) (userId : String) (now : ℚ) : ℚ × Ledger :=
  (amounts (l.inWindow userId now), l.prune userId now)

def reserve (l : Ledger) (id : ℕ) (userId : String) (amount limit now : ℚ) :
    Except LedgerError Reservation × Ledger :=
  let live := l.inWindow userId now
  if limit + epsilon < amounts live + amount then
    (.error (.userBudgetExceeded userId (amounts live) limit amount), l.prune userId now)
  else
    (.ok { id, userId, amount, createdAt := now },
      l.setSpend userId (live ++ [{ timestamp := now, amount, entryId := id }]))

/-- `settle`. A closed reservation is left alone. -/
def settle (l : Ledger) (r : Reservation) (c : Charge) (now : ℚ) : Reservation × Ledger :=
  if r.closed then (r, l)
  else
    let kept := dropEntry (l.spend r.userId) r.id
    ({ r with closed := true },
      { l.setSpend r.userId (kept ++ [{ timestamp := now, amount := c.cost, entryId := r.id }]) with
        records := l.records ++ [c.record r now] })

/-- `release`. A closed reservation is left alone. -/
def release (l : Ledger) (r : Reservation) : Reservation × Ledger :=
  if r.closed then (r, l)
  else ({ r with closed := true }, l.setSpend r.userId (dropEntry (l.spend r.userId) r.id))

/-- `summary()` for one user: the settled cost on record. -/
def summary (l : Ledger) (userId : String) : ℚ :=
  ((l.records.filter fun r => decide (r.userId = userId)).map (·.cost)).sum

/-- The in-memory ledger as a backend: no call ever fails or suspends its caller. -/
def backend : LedgerBackend Ledger where
  networked := false
  spent _ l userId now := let (total, l') := l.spent userId now; (.ok total, l')
  reserve _ l id userId amount limit now := l.reserve id userId amount limit now
  settle _ l r c now := (none, l.settle r c now)
  release _ l r := (none, l.release r)
  reserve_ok {_ l id userId amount limit now r l'} granted := by
    unfold reserve at granted
    simp only at granted
    split at granted <;> cases granted
    rfl
  settle_closes _ l r c now := by
    unfold settle
    cases closed : r.closed with
    | true => simp [← closed]
    | false => rfl

/-! ### What the operations do to a user's entries -/

section Entries

variable {l : Ledger} {userId other : String} {id : ℕ}

@[simp] theorem setSpend_self (es : List Entry) : (l.setSpend userId es).spend userId = es := by
  simp [setSpend]

@[simp] theorem setSpend_ne (es : List Entry) (ne : other ≠ userId) :
    (l.setSpend userId es).spend other = l.spend other := by
  simp [setSpend, ne]

@[simp] theorem setSpend_records (es : List Entry) : (l.setSpend userId es).records = l.records :=
  rfl

@[simp] theorem setSpend_windowSeconds (es : List Entry) :
    (l.setSpend userId es).windowSeconds = l.windowSeconds := rfl

/-- A reserve is refused exactly when the window has no room for it. -/
theorem reserve_cases (id : ℕ) (userId : String) (amount limit now : ℚ) :
    (limit + epsilon < amounts (l.inWindow userId now) + amount ∧
      l.reserve id userId amount limit now =
        (.error (.userBudgetExceeded userId (amounts (l.inWindow userId now)) limit amount),
          l.prune userId now)) ∨
    (amounts (l.inWindow userId now) + amount ≤ limit + epsilon ∧
      l.reserve id userId amount limit now =
        (.ok { id, userId, amount, createdAt := now },
          l.setSpend userId
            (l.inWindow userId now ++ [{ timestamp := now, amount, entryId := id }]))) := by
  unfold reserve
  by_cases exceeds : limit + epsilon < amounts (l.inWindow userId now) + amount
  · exact .inl ⟨exceeds, by simp [exceeds]⟩
  · exact .inr ⟨not_lt.mp exceeds, by simp [exceeds]⟩

end Entries

end Ledger

section Amounts

variable {es : List Entry} {id : ℕ}

@[simp] theorem amounts_append (es es' : List Entry) :
    amounts (es ++ es') = amounts es + amounts es' := by
  simp [amounts]

@[simp] theorem amounts_singleton (e : Entry) : amounts [e] = e.amount := by
  simp [amounts]

/-- Keeping fewer entries of non-negative amount never raises the sum. -/
theorem amounts_le_of_sublist {es' : List Entry} (sub : es'.Sublist es)
    (nonneg : ∀ e ∈ es, 0 ≤ e.amount) : amounts es' ≤ amounts es := by
  apply (sub.map (·.amount)).sum_le_sum
  intro x mem
  obtain ⟨e, here, rfl⟩ := List.mem_map.mp mem
  exact nonneg e here

theorem amounts_nonneg (nonneg : ∀ e ∈ es, 0 ≤ e.amount) : 0 ≤ amounts es := by
  apply List.sum_nonneg
  intro x mem
  obtain ⟨e, here, rfl⟩ := List.mem_map.mp mem
  exact nonneg e here

/-- Dropping an entry takes its amount out of the sum. -/
theorem amounts_dropEntry (es : List Entry) (id : ℕ) :
    amounts (dropEntry es id) + heldUnder es id = amounts es := by
  unfold amounts dropEntry heldUnder
  induction es with
  | nil => simp
  | cons e rest ih =>
      by_cases here : e.entryId = id
      · simp [here, add_comm]
      · have miss : (e.entryId == id) = false := beq_eq_false_iff_ne.mpr here
        simp only [List.eraseP_cons, List.find?_cons, miss, cond_false, List.map_cons,
          List.sum_cons]
        rw [← ih, add_assoc]

/-- Under distinct identifiers, dropping an entry is filtering it out. -/
theorem dropEntry_eq_filter (distinct : (es.map (·.entryId)).Nodup) (id : ℕ) :
    dropEntry es id = es.filter fun e => decide (e.entryId ≠ id) := by
  unfold dropEntry
  induction es with
  | nil => rfl
  | cons e rest ih =>
      rw [List.map_cons, List.nodup_cons] at distinct
      by_cases here : e.entryId = id
      · have kept : rest.filter (fun a => decide (a.entryId ≠ id)) = rest := by
          apply List.filter_eq_self.mpr
          intro a mem
          apply decide_eq_true
          intro same
          exact distinct.1 (here.trans same.symm ▸ List.mem_map_of_mem mem)
        rw [List.eraseP_cons_of_pos (by simpa using here), List.filter_cons_of_neg (by simpa using here),
          kept]
      · rw [List.eraseP_cons_of_neg (by simpa using here), List.filter_cons_of_pos (by simpa using here),
          ih distinct.2]

theorem notMem_dropEntry (distinct : (es.map (·.entryId)).Nodup) (id : ℕ) :
    id ∉ (dropEntry es id).map (·.entryId) := by
  rw [dropEntry_eq_filter distinct]
  intro mem
  obtain ⟨e, kept, same⟩ := List.mem_map.mp mem
  exact absurd same (of_decide_eq_true (List.mem_filter.mp kept).2)

end Amounts

end LLMInference
