import LLMInference.Cost.Entries
import LLMInference.Cost.Reports

/-!
The entries of both ledgers while nothing has left the window.

`Booked`: a user's entries, the same in both, are the bills on record and the open holds
(`Entered`), and every open hold has its entry. It stands in `Kept`, the invariant of the
runs within the window.
-/

namespace LLMInference

namespace Lockstep

/-! ### What the two hold within the window -/

/-- Every entry in memory is younger than the window at `t`. -/
def Within (s : Lockstep) (t : ℚ) : Prop :=
  ∀ userId, ∀ e ∈ s.memory.spend userId, t - s.memory.windowSeconds < e.timestamp

/-- When the operation takes place. -/
def timeOf (s : Lockstep) : LedgerAct → ℚ
  | .reserve _ _ _ _ now => now
  | .settle _ _ now => now
  | .release _ => s.now
  | .spent _ now => now

/-- The run condition: amounts the members' text carries, and everything takes place before
any entry leaves the window. -/
def WithinRun (s : Lockstep) : LockAct → Prop
  | .call a => a.InUnits ∧ s.Within (s.timeOf a)
  | .tick t => s.Within t

/-- The reservation is open. -/
def Open (s : Lockstep) (r : Reservation) : Prop :=
  ∃ p ∈ s.reservations, p.1 = some r ∧ r.closed = false

/-- The hold of a reservation that is open. -/
def openHold (p : Option Reservation × Option Reservation) : Option Reservation :=
  p.1.filter fun r => !r.closed

/-- What the reservation still holds of the user's budget. -/
def holding (userId : String) (p : Option Reservation × Option Reservation) : ℚ :=
  match openHold p with
  | some r => if r.userId = userId then r.amount else 0
  | none => 0

/-- The reservation is the user's, and open. -/
def holds (userId : String) (p : Option Reservation × Option Reservation) : Bool :=
  (openHold p).any fun r => decide (r.userId = userId)

/-- The user's entries are the bills on record and the open holds, in both ledgers. -/
structure Entered (cfg : RedisConfig) (s : Lockstep) (userId : String) : Prop where
  reads : Reads s.redis.server (cfg.spendKey userId) cfg.windowSeconds (s.memory.spend userId)
  sum : amounts (s.memory.spend userId) =
    s.memory.summary userId + (s.reservations.map (holding userId)).sum
  count : (s.memory.spend userId).length =
    (s.memory.recordsOf userId).length + s.reservations.countP (holds userId)

/-- The entry of an open reservation. -/
def holdOf (r : Reservation) : Entry :=
  { timestamp := r.createdAt, amount := r.amount, entryId := r.id }

/-- No two reservations have one identifier. -/
def Apart (reservations : List (Option Reservation × Option Reservation)) : Prop :=
  ∀ (i j : ℕ) (r r' : Reservation) (y y' : Option Reservation),
    reservations[i]? = some (some r, y) → reservations[j]? = some (some r', y') →
    r.id = r'.id → i = j

/-- Within the window nothing is lost: an open reservation has its entry, and its identifier
for itself. -/
structure Booked (cfg : RedisConfig) (s : Lockstep) : Prop where
  entered : ∀ userId, s.Entered cfg userId
  kept : Pool.Each (fun _ p => ∀ r, openHold p = some r → holdOf r ∈ s.memory.spend r.userId)
    s.reservations
  apart : Apart s.reservations

section Window

variable {cfg : RedisConfig} {s : Lockstep} {userId : String} {t : ℚ}

theorem Within.earlier {t' : ℚ} (within : s.Within t') (le : t ≤ t') : s.Within t := by
  intro userId e mem
  have young := within userId e mem
  linarith

theorem Within.live_eq (within : s.Within t) (userId : String) :
    live s.memory.windowSeconds t (s.memory.spend userId) = s.memory.spend userId :=
  List.filter_eq_self.mpr fun e mem => decide_eq_true (within userId e mem)

theorem Within.inWindow_eq (within : s.Within t) (userId : String) :
    s.memory.inWindow userId t = s.memory.spend userId :=
  List.filter_eq_self.mpr fun e mem => decide_eq_true (within userId e mem).le

/-- The window of a new entry lasts, and so does the key. -/
theorem Within.ttl_pos (within : s.Within t) (window : s.memory.windowSeconds = cfg.windowSeconds)
    (userId : String) (e : Entry) (mem : e ∈ s.memory.spend userId) (new : e.timestamp = t) :
    0 < ttl cfg.windowSeconds := by
  have young := within userId e mem
  apply LLMInference.ttl_pos
  rw [← window]
  linarith

/-- No entry is exactly as old as the window. -/
theorem Within.boundary_eq (within : s.Within t) (userId : String) : s.boundary userId t = 0 := by
  have none : (s.memory.spend userId).filter
      (fun e => decide (e.timestamp = t - s.memory.windowSeconds)) = [] := by
    apply List.filter_eq_nil_iff.mpr
    intro e mem same
    exact absurd (of_decide_eq_true same) (within userId e mem).ne'
  rw [boundary, none]
  rfl

/-- Pruning within the window changes nothing. -/
theorem Within.prune_eq (within : s.Within t) (userId : String) :
    s.memory.prune userId t = s.memory := by
  rw [Ledger.prune, within.inWindow_eq, Ledger.setSpend, Function.update_eq_self]

/-- Time alone changes nothing that is within the window. -/
theorem Booked.moveTo (booked : s.Booked cfg) (refines : s.Refines cfg) (le : s.now ≤ t)
    (within : s.Within t) : (s.moveTo t).Booked cfg := by
  refine ⟨fun userId => ?_, booked.kept, booked.apart⟩
  have entered := booked.entered userId
  refine ⟨?_, entered.sum, entered.count⟩
  rcases entered.reads.later (refines.clock.trans_le le) with same | ⟨gone, old⟩
  · exact same
  · have empty : s.memory.spend userId = [] := by
      apply List.eq_nil_iff_forall_not_mem.mpr
      intro e mem
      have young := within userId e mem
      have late := old e mem
      have slack := le_ttl cfg.windowSeconds
      rw [refines.window] at young
      linarith
    rw [show (s.moveTo t).memory.spend userId = [] from empty]
    exact gone

end Window

section Holds

variable {cfg : RedisConfig} {s s' : Lockstep} {userId : String} {r : Reservation}
  {p : Option Reservation × Option Reservation}

theorem openHold_eq_some : openHold p = some r ↔ p.1 = some r ∧ r.closed = false := by
  rw [openHold, Option.filter_eq_some_iff, Bool.not_eq_true']

theorem fst_of_openHold (opened : openHold p = some r) : p.1 = some r ∧ r.closed = false :=
  openHold_eq_some.mp opened

theorem holding_of_open (opened : openHold p = some r) (userId : String) :
    holding userId p = if r.userId = userId then r.amount else 0 := by
  rw [holding, opened]

theorem holds_of_open (opened : openHold p = some r) (userId : String) :
    holds userId p = decide (r.userId = userId) := by
  rw [holds, opened, Option.any_some]

theorem holding_of_none (idle : openHold p = none) (userId : String) : holding userId p = 0 := by
  rw [holding, idle]

theorem holds_of_none (idle : openHold p = none) (userId : String) : holds userId p = false := by
  rw [holds, idle, Option.any_none]

/-- An operation on one user leaves the others' books alone. -/
theorem Booked.change (booked : s.Booked cfg)
    (redis : s.redis.server.SameBut (cfg.spendKey userId) s'.redis.server)
    (memory : ∀ other, other ≠ userId → s'.memory.spend other = s.memory.spend other ∧
      s'.memory.recordsOf other = s.memory.recordsOf other)
    (reservations : ∀ other, other ≠ userId →
      (s'.reservations.map (holding other)).sum = (s.reservations.map (holding other)).sum ∧
        s'.reservations.countP (holds other) = s.reservations.countP (holds other))
    (entered : s'.Entered cfg userId)
    (kept : Pool.Each (fun _ p => ∀ r, openHold p = some r →
      holdOf r ∈ s'.memory.spend r.userId) s'.reservations)
    (apart : Apart s'.reservations) : s'.Booked cfg := by
  refine ⟨fun other => ?_, kept, apart⟩
  by_cases mine : other = userId
  · exact mine ▸ entered
  · obtain ⟨spend, records⟩ := memory other mine
    obtain ⟨sum, count⟩ := reservations other mine
    have old := booked.entered other
    have key : cfg.spendKey other ≠ cfg.spendKey userId :=
      fun same => mine (cfg.spendKey_injective same)
    have summary : s'.memory.summary other = s.memory.summary other := by
      show ((s'.memory.recordsOf other).map (·.cost)).sum =
        ((s.memory.recordsOf other).map (·.cost)).sum
      rw [records]
    constructor
    · rw [spend]
      exact old.reads.elsewhere redis key
    · rw [spend, summary, sum]
      exact old.sum
    · rw [spend, records, count]
      exact old.count

/-- A reservation that changes and keeps its identifier stays apart from the others. -/
theorem Apart.set {l : List (Option Reservation × Option Reservation)} {h : ℕ} {r r' : Reservation}
    {x y : Option Reservation} (apart : Apart l) (here : l[h]? = some (some r, x))
    (same : r'.id = r.id) : Apart (l.set h (some r', y)) := by
  have was : ∀ {i : ℕ} {q : Reservation} {z : Option Reservation},
      (l.set h (some r', y))[i]? = some (some q, z) →
      ∃ q₀ z₀, l[i]? = some (some q₀, z₀) ∧ q₀.id = q.id := by
    intro i q z found
    rcases Pool.get_set found with ⟨rfl, eq⟩ | ⟨-, old⟩
    · cases eq
      exact ⟨r, x, here, same.symm⟩
    · exact ⟨q, z, old, rfl⟩
  intro i j q q' z z' found found' id
  obtain ⟨q₀, z₀, at₀, id₀⟩ := was found
  obtain ⟨q₁, z₁, at₁, id₁⟩ := was found'
  exact apart i j q₀ q₁ z₀ z₁ at₀ at₁ (id₀.trans (id.trans id₁.symm))

/-- A new reservation has an identifier of its own. -/
theorem Apart.spawn {l : List (Option Reservation × Option Reservation)} {x y : Option Reservation}
    (apart : Apart l) (fresh : ∀ p ∈ l, ∀ r r', p.1 = some r → x = some r' → r.id ≠ r'.id) :
    Apart (l ++ [(x, y)]) := by
  intro i j r r' z z' found found' id
  rcases Pool.get_spawn found with was | ⟨new, eq⟩ <;>
  rcases Pool.get_spawn found' with was' | ⟨new', eq'⟩
  · exact apart i j r r' z z' was was' id
  · cases eq'
    exact absurd id (fresh _ (List.mem_of_getElem? was) r r' rfl rfl)
  · cases eq
    exact absurd id.symm (fresh _ (List.mem_of_getElem? was') r' r rfl rfl)
  · exact new.trans new'.symm

end Holds

section Operations

variable {cfg : RedisConfig} {s : Lockstep} {userId : String}

/-- Asking for a total changes nothing that is within the window. -/
theorem Booked.spent (booked : s.Booked cfg) (refines : s.Refines cfg) (within : s.Within s.now)
    (userId : String) : (s.spentBoth cfg userId).1.Booked cfg := by
  have young := within.live_eq userId
  rw [refines.window] at young
  have entered := booked.entered userId
  simp only [spentBoth, Ledger.spent, RedisLedger.spent, RedisLedger.eval,
    RedisConfig.pruneScript, RedisServer.run, within.prune_eq]
  refine booked.change (RedisServer.sameBut_putZset _) (fun _ _ => ⟨rfl, rfl⟩)
    (fun _ _ => ⟨rfl, rfl⟩) ⟨?_, entered.sum, entered.count⟩ booked.kept booked.apart
  have pruned := entered.reads.prune s.now
  rw [young] at pruned
  exact pruned

/-- A reserve is refused by both, or granted by both and entered by both. -/
theorem Booked.reserve {id : ℕ} {amount limit : ℚ} (booked : s.Booked cfg)
    (refines : s.Refines cfg) (within : s.Within s.now) (fresh : id ∉ s.ids)
    (after : (s.reserveBoth cfg id userId amount limit).1.Within s.now) :
    (s.reserveBoth cfg id userId amount limit).1.Booked cfg := by
  have entered := booked.entered userId
  obtain ⟨tidy, -⟩ := refines.agree userId
  have young := within.live_eq userId
  rw [refines.window] at young
  have pruned := entered.reads.prune s.now
  rw [young] at pruned
  have unused : ∀ p ∈ s.reservations, ∀ r, p.1 = some r → r.id ≠ id :=
    fun p mem r here eq => fresh (eq ▸ (refines.held p mem).2 r here)
  have memory := Ledger.reserve_cases (l := s.memory) id userId amount limit s.now
  have redis := redis_reserve_cases s.now entered.reads tidy.units id amount limit
  rw [within.inWindow_eq] at memory
  rw [young] at redis
  rcases memory with ⟨overM, eqM⟩ | ⟨fitsM, eqM⟩ <;> rcases redis with ⟨overR, eqR⟩ | ⟨fitsR, eqR⟩
  · -- Refused by both: the two only pruned.
    simp only [reserveBoth, eqM, eqR, within.prune_eq, Except.toOption]
    have idle : ∀ x : Option Reservation, openHold (none, x) = none := fun _ => rfl
    refine booked.change (RedisServer.sameBut_putZset _) (fun _ _ => ⟨rfl, rfl⟩)
      (fun other _ => ⟨?_, ?_⟩) ⟨pruned, ?_, ?_⟩ ?_
      (booked.apart.spawn fun _ _ _ _ _ eq => by cases eq)
    · simp [holding_of_none (idle _)]
    · simp [List.countP_append, holds_of_none (idle _)]
    · simpa [holding_of_none (idle _)] using entered.sum
    · simpa [List.countP_append, holds_of_none (idle _)] using entered.count
    · exact booked.kept.spawn (fun r opened => by cases opened) fun _ _ _ kept => kept
  · exact absurd overM (not_lt.mpr fitsR)
  · exact absurd overR (not_lt.mpr fitsM)
  · -- Granted by both: the new entry is the new hold.
    simp only [reserveBoth, eqM, eqR, Except.toOption] at after ⊢
    let r : Reservation := { id, userId, amount, createdAt := s.now }
    have opened : openHold (some r, some r) = some r := rfl
    have new : id ∉ (s.memory.spend userId).map (·.entryId) := by
      intro mem
      obtain ⟨e, inside, rfl⟩ := List.mem_map.mp mem
      exact fresh (tidy.known e inside)
    have positive := Within.ttl_pos after refines.window userId (holdOf r)
      (by simp [holdOf, r]) rfl
    have charged := pruned.append (holdOf r) new tidy.past refines.clock positive
    refine booked.change (((RedisServer.sameBut_putZset _).trans
        (RedisServer.sameBut_putZset _)).trans (RedisServer.sameBut_expireZset _))
      (fun other mine => ⟨Ledger.setSpend_ne _ mine, rfl⟩) (fun other mine => ⟨?_, ?_⟩)
      ⟨?_, ?_, ?_⟩ ?_ (booked.apart.spawn fun p mem q q' here eq => ?_)
    · simp [holding_of_open opened, r, Ne.symm mine]
    · simp [List.countP_append, holds_of_open opened, r, Ne.symm mine]
    · rw [Ledger.setSpend_self]
      exact charged
    · rw [Ledger.setSpend_self, amounts_append, entered.sum, List.map_append, List.sum_append]
      simp [holding_of_open opened, r, Ledger.summary, add_assoc]
    · rw [Ledger.setSpend_self, List.length_append, entered.count, List.countP_append]
      simp [holds_of_open opened, r, Ledger.recordsOf, add_assoc]
    · refine booked.kept.spawn (fun q here => ?_) fun _ p _ kept q here => ?_
      · cases opened.symm.trans here
        rw [Ledger.setSpend_self]
        exact List.mem_append_right _ (List.mem_singleton_self _)
      · by_cases mine : q.userId = userId
        · rw [mine, Ledger.setSpend_self]
          exact List.mem_append_left _ (mine ▸ kept q here)
        · rw [Ledger.setSpend_ne _ mine]
          exact kept q here
    · cases eq
      exact unused p mem q here

end Operations

section Closing

variable {cfg : RedisConfig} {s : Lockstep} {h : ℕ} {r : Reservation} {c : Charge}
  {p : Option Reservation × Option Reservation}

theorem set_same (here : s.reservations[h]? = some p) :
    s.reservations.set h p = s.reservations := by
  obtain ⟨inside, eq⟩ := List.getElem?_eq_some_iff.mp here
  rw [← eq, List.set_getElem_self]

/-- A closed reservation, or none at all, is left as it is. -/
theorem settleBoth_idle (here : s.reservations[h]? = some p) (same : p.1 = p.2)
    (idle : openHold p = none) : s.settleBoth cfg h c p = s := by
  obtain ⟨m, y⟩ := p
  obtain rfl : m = y := same
  have unchanged := set_same here
  cases m with
  | none => simp [settleBoth, unchanged]
  | some r =>
      have closed : r.closed = true := by simpa [openHold, Option.filter_some] using idle
      simp [settleBoth, Ledger.settle, RedisLedger.settle, closed, unchanged]

theorem releaseBoth_idle (here : s.reservations[h]? = some p) (same : p.1 = p.2)
    (idle : openHold p = none) : s.releaseBoth cfg h p = s := by
  obtain ⟨m, y⟩ := p
  obtain rfl : m = y := same
  have unchanged := set_same here
  cases m with
  | none => simp [releaseBoth, unchanged]
  | some r =>
      have closed : r.closed = true := by simpa [openHold, Option.filter_some] using idle
      simp [releaseBoth, Ledger.release, RedisLedger.release, closed, unchanged]

/-- Dropping the entry of an open reservation takes out its amount, and one entry. -/
theorem Booked.dropped (booked : s.Booked cfg) (here : s.reservations[h]? = some p)
    (opened : openHold p = some r)
    (distinct : ((s.memory.spend r.userId).map (·.entryId)).Nodup) :
    amounts (dropEntry (s.memory.spend r.userId) r.id) + r.amount =
        amounts (s.memory.spend r.userId) ∧
      (dropEntry (s.memory.spend r.userId) r.id).length + 1 =
        (s.memory.spend r.userId).length := by
  have mem := booked.kept h p here r opened
  have held : heldUnder (s.memory.spend r.userId) r.id = r.amount :=
    heldUnder_of_mem distinct mem
  constructor
  · rw [← held]
    exact amounts_dropEntry _ _
  · have one := List.length_eraseP_of_mem mem
      (p := fun e : Entry => e.entryId == r.id) (by simp [holdOf])
    have positive := List.length_pos_of_mem mem
    unfold dropEntry
    omega

/-- What the reservations hold once this one is closed. -/
theorem closed_sums (here : s.reservations[h]? = some p) (opened : openHold p = some r)
    (y : Option Reservation) (userId : String) :
    ((s.reservations.set h (some { r with closed := true }, y)).map (holding userId)).sum +
        (if r.userId = userId then r.amount else 0) =
      (s.reservations.map (holding userId)).sum ∧
    (s.reservations.set h (some { r with closed := true }, y)).countP (holds userId) +
        (if r.userId = userId then 1 else 0) = s.reservations.countP (holds userId) := by
  have idle : openHold (some { r with closed := true }, y) = none := rfl
  have sum := Pool.sum_step here (some { r with closed := true }, y) (holding userId)
  have count := Pool.countP_step here (some { r with closed := true }, y) (holds userId)
  rw [holding_of_open opened, holding_of_none idle, add_zero] at sum
  rw [holds_of_open opened, holds_of_none idle] at count
  refine ⟨sum, ?_⟩
  simpa using count

/-- The other open reservations keep their entries. -/
theorem Booked.kept_closed (booked : s.Booked cfg) (here : s.reservations[h]? = some p)
    (opened : openHold p = some r)
    (distinct : ((s.memory.spend r.userId).map (·.entryId)).Nodup) (y : Option Reservation) :
    Pool.Each (fun _ q => ∀ r', openHold q = some r' → holdOf r' ∈ s.memory.spend r'.userId ∧
        (r'.userId = r.userId → holdOf r' ∈ dropEntry (s.memory.spend r.userId) r.id))
      (s.reservations.set h (some { r with closed := true }, y)) := by
  refine booked.kept.step (fun r' opened' => by cases opened') ?_
  intro j q ne at' kept r' opened'
  refine ⟨kept r' opened', fun mine => ?_⟩
  rw [dropEntry_eq_filter distinct, List.mem_filter]
  refine ⟨mine ▸ kept r' opened', decide_eq_true fun same => ne ?_⟩
  obtain ⟨q₁, q₂⟩ := q
  obtain ⟨p₁, p₂⟩ := p
  obtain ⟨rfl, -⟩ := fst_of_openHold opened
  obtain ⟨rfl, -⟩ := fst_of_openHold opened'
  exact booked.apart j h r' r q₂ p₂ at' here same

theorem Booked.release (booked : s.Booked cfg) (refines : s.Refines cfg)
    (here : s.reservations[h]? = some p) : (s.releaseBoth cfg h p).Booked cfg := by
  have same := (refines.held p (List.mem_of_getElem? here)).1
  cases opened : openHold p with
  | none => rwa [releaseBoth_idle here same opened]
  | some r =>
      obtain ⟨distinct, -⟩ := (refines.agree r.userId).1
      obtain ⟨sum, length⟩ := booked.dropped here opened distinct
      have kept := booked.kept_closed here opened distinct (some { r with closed := true })
      have sums := closed_sums here opened (some { r with closed := true })
      have entered := booked.entered r.userId
      obtain ⟨m, y⟩ := p
      obtain rfl : m = y := same
      obtain ⟨rfl, notClosed⟩ := fst_of_openHold opened
      simp only [releaseBoth, Ledger.release, RedisLedger.release, RedisLedger.eval,
        RedisConfig.releaseScript, RedisServer.run, notClosed, Bool.false_eq_true, if_false]
      refine booked.change (RedisServer.sameBut_dropFirst r.id)
        (fun other mine => ⟨Ledger.setSpend_ne _ mine, rfl⟩) (fun other mine => ?_) ⟨?_, ?_, ?_⟩ ?_
        (booked.apart.set here rfl)
      · simpa [Ne.symm mine] using sums other
      · rw [Ledger.setSpend_self]
        exact entered.reads.drop distinct r.id
      · have changed := (sums r.userId).1
        rw [if_pos rfl] at changed
        have before := entered.sum
        rw [Ledger.setSpend_self]
        dsimp only [Ledger.summary, Ledger.setSpend_records] at before ⊢
        linarith
      · have changed := (sums r.userId).2
        rw [if_pos rfl] at changed
        have before := entered.count
        rw [Ledger.setSpend_self]
        dsimp only [Ledger.recordsOf, Ledger.setSpend_records] at before ⊢
        omega
      · refine kept.mono fun _ q _ kept r' opened' => ?_
        by_cases mine : r'.userId = r.userId
        · rw [mine, Ledger.setSpend_self]
          exact (kept r' opened').2 mine
        · rw [Ledger.setSpend_ne _ mine]
          exact (kept r' opened').1

theorem Booked.settle (booked : s.Booked cfg) (refines : s.Refines cfg)
    (here : s.reservations[h]? = some p) (after : (s.settleBoth cfg h c p).Within s.now) :
    (s.settleBoth cfg h c p).Booked cfg := by
  have same := (refines.held p (List.mem_of_getElem? here)).1
  cases opened : openHold p with
  | none => rwa [settleBoth_idle here same opened]
  | some r =>
      obtain ⟨tidy, -⟩ := refines.agree r.userId
      obtain ⟨sum, length⟩ := booked.dropped here opened tidy.distinct
      have kept := booked.kept_closed here opened tidy.distinct (some { r with closed := true })
      have sums := closed_sums here opened (some { r with closed := true })
      have entered := booked.entered r.userId
      obtain ⟨m, y⟩ := p
      obtain rfl : m = y := same
      obtain ⟨rfl, notClosed⟩ := fst_of_openHold opened
      simp only [settleBoth, Ledger.settle, RedisLedger.settle, RedisLedger.eval,
        RedisConfig.settleScript, notClosed, Bool.false_eq_true, if_false] at after ⊢
      let bill : Entry := { timestamp := s.now, amount := c.cost, entryId := r.id }
      have positive := Within.ttl_pos after refines.window r.userId bill
        (by simp [bill]) rfl
      have clock : (s.redis.server.dropFirst (cfg.spendKey r.userId) r.id).clock = bill.timestamp :=
        (RedisServer.sameBut_dropFirst r.id).clock.trans refines.clock
      have tidy' := tidy.sublist (List.eraseP_sublist (p := fun e : Entry => e.entryId == r.id))
      have charged := (entered.reads.drop tidy.distinct r.id).append bill
        (notMem_dropEntry tidy.distinct r.id) tidy'.past clock positive
      refine booked.change
        (RedisServer.sameBut_run s.redis.server (cfg.settleScript r c.cost s.now))
        (fun other mine => ⟨Ledger.setSpend_ne _ mine, ?_⟩) (fun other mine => ?_) ⟨?_, ?_, ?_⟩ ?_
        (booked.apart.set here rfl)
      · simp [Ledger.recordsOf, Charge.record, Ne.symm mine]
      · simpa [Ne.symm mine] using sums other
      · rw [Ledger.setSpend_self]
        exact ⟨charged.entries, charged.deadline⟩
      · have changed := (sums r.userId).1
        rw [if_pos rfl] at changed
        have before := entered.sum
        rw [Ledger.setSpend_self, amounts_append, amounts_singleton]
        simp only [Ledger.summary, List.filter_append, List.map_append, List.sum_append,
          Charge.record, List.filter_cons, List.filter_nil, decide_true, if_true, List.map_cons,
          List.map_nil, List.sum_cons, List.sum_nil] at before ⊢
        linarith
      · have changed := (sums r.userId).2
        rw [if_pos rfl] at changed
        have before := entered.count
        rw [Ledger.setSpend_self, List.length_append, List.length_singleton]
        simp only [Ledger.recordsOf, List.filter_append, List.length_append, Charge.record,
          List.filter_cons, List.filter_nil, decide_true, if_true, List.length_cons,
          List.length_nil] at before ⊢
        omega
      · refine kept.mono fun _ q _ kept r' opened' => ?_
        by_cases mine : r'.userId = r.userId
        · rw [mine, Ledger.setSpend_self]
          exact List.mem_append_left _ ((kept r' opened').2 mine)
        · rw [Ledger.setSpend_ne _ mine]
          exact (kept r' opened').1

end Closing

/-! ### Runs within the window -/

/-- Hashes stand under usage keys only. -/
def Hashes (cfg : RedisConfig) (s : RedisServer) : Prop :=
  ∀ key, s.totals key ≠ none → ∃ userId, key = cfg.usageKey userId

/-- A user with an entry has been handed out a reservation. -/
def Named (s : Lockstep) : Prop :=
  ∀ userId, s.memory.spend userId ≠ [] →
    ∃ p ∈ s.reservations, ∃ r, p.1 = some r ∧ r.userId = userId

section Run

variable {cfg : RedisConfig} {s s' : Lockstep} {userId : String}

theorem hashes_run {server : RedisServer} (hashes : Hashes cfg server) (script : Script)
    (usage : ∀ key usageKey now id actual window,
      script = .settle key usageKey now id actual window → ∃ u, usageKey = cfg.usageKey u) :
    Hashes cfg (server.run script).2 := by
  have dropped : ∀ (server : RedisServer) key id,
      (server.dropFirst key id).totals = server.totals := by
    intro server key id
    unfold RedisServer.dropFirst
    split <;> rfl
  cases script with
  | reserve key now window amount limit member =>
      simp only [RedisServer.run]
      split <;> exact hashes
  | settle key usageKey now entryId actual window =>
      obtain ⟨owner, rfl⟩ := usage key usageKey now entryId actual window rfl
      intro other stands
      by_cases mine : other = cfg.usageKey owner
      · exact ⟨owner, mine⟩
      · have kept : (server.run (.settle key (cfg.usageKey owner) now entryId actual window)).2.totals
            other = (server.dropFirst key entryId).totals other :=
          Function.update_of_ne mine _ _
        rw [kept, dropped] at stands
        exact hashes other stands
  | release key entryId =>
      intro other stands
      exact hashes other (dropped server key entryId ▸ stands)
  | prune key max => exact hashes

/-- Within the window the boundary makes no difference. -/
theorem Within.sharp {a : LedgerAct} (within : s.Within (s.timeOf a)) : s.Sharp a := by
  cases a with
  | reserve id userId amount limit now =>
      intro fits
      have none : s.boundary userId now = 0 := within.boundary_eq userId
      rwa [none, add_zero]
  | settle h c now => trivial
  | release h => trivial
  | spent userId now => exact within.boundary_eq userId

/-- One operation within the window keeps the books. -/
theorem Booked.perform {a : LedgerAct} {out : Lockstep × Output × Output} (booked : s.Booked cfg)
    (refines : s.Refines cfg) (within : s.Within (s.timeOf a))
    (performed : s.perform cfg a = some out) (after : out.1.Within out.1.now) :
    out.1.Booked cfg := by
  cases a with
  | reserve id userId amount limit now =>
      obtain ⟨⟨le, fresh⟩, ⟨⟩⟩ := Option.ite_none_right_eq_some.mp performed
      exact (booked.moveTo refines le within).reserve (refines.moveTo le) within fresh after
  | settle h c now =>
      obtain ⟨le, found⟩ := Option.ite_none_right_eq_some.mp performed
      obtain ⟨p, here, rfl⟩ := Option.map_eq_some_iff.mp found
      exact (booked.moveTo refines le within).settle (refines.moveTo le) here after
  | release h =>
      obtain ⟨p, here, rfl⟩ := Option.map_eq_some_iff.mp performed
      exact booked.release refines here
  | spent userId now =>
      obtain ⟨le, ⟨⟩⟩ := Option.ite_none_right_eq_some.mp performed
      exact (booked.moveTo refines le within).spent (refines.moveTo le) within userId

theorem hashes_perform {a : LedgerAct} {out : Lockstep × Output × Output}
    (hashes : Hashes cfg s.redis.server) (performed : s.perform cfg a = some out) :
    Hashes cfg out.1.redis.server := by
  have moved : ∀ t, Hashes cfg (s.moveTo t).redis.server := fun _ => hashes
  cases a with
  | reserve id userId amount limit now =>
      obtain ⟨-, ⟨⟩⟩ := Option.ite_none_right_eq_some.mp performed
      exact hashes_run (moved now)
        (cfg.reserveScript { id, userId, amount, createdAt := now } limit)
        fun _ _ _ _ _ _ same => by cases same
  | settle h c now =>
      obtain ⟨-, found⟩ := Option.ite_none_right_eq_some.mp performed
      obtain ⟨⟨m, x⟩, here, rfl⟩ := Option.map_eq_some_iff.mp found
      cases x with
      | none => exact hashes
      | some r =>
          rcases RedisLedger.server_settle cfg .none (s.moveTo now).redis r c now with eq | eq
          · exact eq ▸ hashes
          · refine eq ▸ hashes_run (moved now) (cfg.settleScript r c.cost now) ?_
            intro key usageKey now' id actual window same
            cases same
            exact ⟨r.userId, rfl⟩
  | release h =>
      obtain ⟨⟨m, x⟩, here, rfl⟩ := Option.map_eq_some_iff.mp performed
      cases x with
      | none => exact hashes
      | some r =>
          rcases RedisLedger.server_release cfg .none s.redis r with eq | eq
          · exact eq ▸ hashes
          · exact eq ▸ hashes_run hashes (cfg.releaseScript r)
              fun _ _ _ _ _ _ same => by cases same
  | spent userId now =>
      obtain ⟨-, ⟨⟩⟩ := Option.ite_none_right_eq_some.mp performed
      exact hashes_run (moved now)
        (cfg.pruneScript userId now) fun _ _ _ _ _ _ same => by cases same

theorem prune_eq_nil {l : Ledger} {other : String} {t : ℚ} (none : l.spend other = []) :
    (l.prune userId t).spend other = [] := by
  by_cases mine : other = userId
  · subst mine
    simp [Ledger.prune, Ledger.inWindow, none]
  · simp [Ledger.prune, Ledger.setSpend_ne _ mine, none]

theorem named_reserve {id : ℕ} {amount limit : ℚ} (named : s.Named) :
    (s.reserveBoth cfg id userId amount limit).1.Named := by
  have old : ∀ {x : Option Reservation × Option Reservation} {other}, s.memory.spend other ≠ [] →
      ∃ p ∈ s.reservations ++ [x], ∃ r, p.1 = some r ∧ r.userId = other := by
    intro x other some'
    obtain ⟨p, mem, found⟩ := named other some'
    exact ⟨p, List.mem_append_left _ mem, found⟩
  rcases Ledger.reserve_cases (l := s.memory) id userId amount limit s.now with
    ⟨-, eq⟩ | ⟨-, eq⟩
  · simp only [reserveBoth, eq]
    intro other some'
    exact old fun none => some' (prune_eq_nil none)
  · simp only [reserveBoth, eq]
    intro other some'
    by_cases mine : other = userId
    · exact ⟨_, List.mem_append_right _ (List.mem_singleton_self _), _, rfl, mine.symm⟩
    · rw [Ledger.setSpend_ne _ mine] at some'
      exact old some'

/-- So it stays when one reservation of the user changes. -/
theorem Named.set {h : ℕ} {r : Reservation} {x y : Option Reservation} (named : s.Named)
    (here : s.reservations[h]? = some (some r, x)) {closed : Bool}
    (reservations : s'.reservations = s.reservations.set h (some { r with closed }, y))
    (others : ∀ other, other ≠ r.userId → s'.memory.spend other = s.memory.spend other) :
    s'.Named := by
  have inside := (List.getElem?_eq_some_iff.mp here).1
  intro other some'
  rw [reservations]
  by_cases mine : other = r.userId
  · exact ⟨_, List.mem_of_getElem? (Pool.get_set_self here _), _, rfl, mine.symm⟩
  · rw [others other mine] at some'
    obtain ⟨p, mem, q, named, user⟩ := named other some'
    obtain ⟨j, at'⟩ := List.getElem?_of_mem mem
    have ne : h ≠ j := by
      rintro rfl
      rw [here] at at'
      cases at'
      cases named
      exact mine user.symm
    exact ⟨p, List.mem_of_getElem? ((List.getElem?_set_ne ne).trans at'), q, named, user⟩

theorem named_perform {a : LedgerAct} {out : Lockstep × Output × Output}
    (refines : s.Refines cfg) (named : s.Named) (performed : s.perform cfg a = some out) :
    out.1.Named := by
  have moved : ∀ t, (s.moveTo t).Named := fun _ => named
  cases a with
  | reserve id userId amount limit now =>
      obtain ⟨-, ⟨⟩⟩ := Option.ite_none_right_eq_some.mp performed
      exact named_reserve (moved now)
  | settle h c now =>
      obtain ⟨-, found⟩ := Option.ite_none_right_eq_some.mp performed
      obtain ⟨⟨m, x⟩, here, rfl⟩ := Option.map_eq_some_iff.mp found
      have same := (refines.held _ (List.mem_of_getElem? here)).1
      cases opened : openHold (m, x) with
      | none => exact (settleBoth_idle (s := s.moveTo now) here same opened).symm ▸ moved now
      | some r =>
          obtain ⟨rfl, notClosed⟩ := fst_of_openHold opened
          simp only [settleBoth, Ledger.settle, notClosed, Bool.false_eq_true, if_false]
          exact (moved now).set here rfl fun _ mine => Ledger.setSpend_ne _ mine
  | release h =>
      obtain ⟨⟨m, x⟩, here, rfl⟩ := Option.map_eq_some_iff.mp performed
      have same := (refines.held _ (List.mem_of_getElem? here)).1
      cases opened : openHold (m, x) with
      | none => exact (releaseBoth_idle here same opened).symm ▸ named
      | some r =>
          obtain ⟨rfl, notClosed⟩ := fst_of_openHold opened
          simp only [releaseBoth, Ledger.release, notClosed, Bool.false_eq_true, if_false]
          exact named.set here rfl fun _ mine => Ledger.setSpend_ne _ mine
  | spent userId now =>
      obtain ⟨-, ⟨⟩⟩ := Option.ite_none_right_eq_some.mp performed
      intro other some'
      refine named other fun none => some' (prune_eq_nil none)

/-- What holds in every state of a run within the window. -/
structure Kept (cfg : RedisConfig) (s : Lockstep) : Prop where
  refines : s.Refines cfg
  hashes : Hashes cfg s.redis.server
  named : s.Named
  booked : s.Within s.now → s.Booked cfg

theorem kept_start (cfg : RedisConfig) (now : ℚ) : (start cfg now).Kept cfg where
  refines := refines_start cfg now
  hashes key stands := absurd rfl stands
  named _ some' := absurd rfl some'
  booked _ := ⟨fun _ => ⟨Reads.absent rfl, by simp [start, amounts, Ledger.summary], rfl⟩,
    Pool.Each.nil _, fun i j r r' y y' here => by cases here⟩

theorem now_of_perform {a : LedgerAct} {out : Lockstep × Output × Output}
    (performed : s.perform cfg a = some out) :
    s.now ≤ s.timeOf a ∧ out.1.now = s.timeOf a := by
  cases a with
  | reserve id userId amount limit now =>
      obtain ⟨⟨le, -⟩, ⟨⟩⟩ := Option.ite_none_right_eq_some.mp performed
      exact ⟨le, rfl⟩
  | settle h c now =>
      obtain ⟨le, found⟩ := Option.ite_none_right_eq_some.mp performed
      obtain ⟨p, here, rfl⟩ := Option.map_eq_some_iff.mp found
      exact ⟨le, rfl⟩
  | release h =>
      obtain ⟨p, here, rfl⟩ := Option.map_eq_some_iff.mp performed
      exact ⟨le_rfl, rfl⟩
  | spent userId now =>
      obtain ⟨le, ⟨⟩⟩ := Option.ite_none_right_eq_some.mp performed
      exact ⟨le, rfl⟩

theorem Kept.step {a : LockAct} (kept : s.Kept cfg) (within : s.WithinRun a)
    (stepped : s.step cfg a = some s') : s'.Kept cfg := by
  cases a with
  | call a =>
      obtain ⟨out, performed, rfl⟩ := Option.map_eq_some_iff.mp stepped
      obtain ⟨units, young⟩ := within
      have refines := (kept.refines.perform units performed).2 young.sharp
      have hashes := hashes_perform kept.hashes performed
      have le := (now_of_perform performed).1
      refine ⟨⟨refines.window, refines.clock, refines.agree, refines.held⟩, hashes,
        named_perform kept.refines kept.named performed, fun after => ?_⟩
      have booked := (kept.booked (young.earlier le)).perform kept.refines young performed after
      exact ⟨fun u => ⟨(booked.entered u).reads, (booked.entered u).sum, (booked.entered u).count⟩,
        booked.kept, booked.apart⟩
  | tick t =>
      obtain ⟨le, ⟨⟩⟩ := Option.ite_none_right_eq_some.mp stepped
      exact ⟨kept.refines.moveTo le, kept.hashes, kept.named, fun _ =>
        (kept.booked (Within.earlier within le)).moveTo kept.refines le within⟩

end Run

end Lockstep

end LLMInference
