import LLMInference.Cost.SpendKeys
import LLMInference.Cost.Overspend

/-!
Both ledgers in lockstep.

`Lockstep` performs the same operations, at the same non-decreasing times, on the
in-memory ledger and on a Redis ledger that is reachable and whose clock is the
caller's. It records what each operation returned.

* `Refines`: for every user the two backends hold the same entries younger than the
  window, and the requests hold equal reservations. It is an invariant of runs whose steps
  meet `Sharp`.
* `redis_refines_memory`: in such a run the backends return the same at every step, and the
  condition is exact: a next step makes them differ if and only if it fails it.

The two part at one instant only: the in-memory ledger keeps an entry that is exactly
`window_seconds` old, and `ZREMRANGEBYSCORE` removes it.
-/

namespace LLMInference

/-- What a caller sees of an operation. -/
inductive Output where
  | granted (yes : Bool)
  | total (x : ℚ)
  | done
  | unavailable
  deriving DecidableEq, Repr

structure Lockstep where
  memory : Ledger
  redis : RedisLedger
  /-- What each reserve so far handed out, in memory and on Redis. -/
  reservations : List (Option Reservation × Option Reservation) := []
  /-- The identifiers used so far; a new one is never among them. -/
  ids : List ℕ := []
  now : ℚ
  outputs : List (Output × Output) := []

inductive LockAct where
  | call (a : LedgerAct)
  /-- Time passes without a call. -/
  | tick (t : ℚ)
  deriving DecidableEq, Repr

namespace Lockstep

def start (cfg : RedisConfig) (now : ℚ) : Lockstep :=
  { memory := { windowSeconds := cfg.windowSeconds }, redis := { server := { clock := now } }, now }

/-- The time is `t`, for the callers and for the server. -/
def moveTo (s : Lockstep) (t : ℚ) : Lockstep :=
  { s with now := t, redis := { s.redis with server := { s.redis.server with clock := t } } }

def totalOf : Except LedgerError ℚ → Output
  | .ok x => .total x
  | .error _ => .unavailable

def reserveBoth (cfg : RedisConfig) (s : Lockstep) (id : ℕ) (userId : String)
    (amount limit : ℚ) : Lockstep × Output × Output :=
  let (m, memory) := s.memory.reserve id userId amount limit s.now
  let (r, redis) := RedisLedger.reserve cfg .none s.redis id userId amount limit s.now
  ({ s with
      memory, redis, ids := s.ids ++ [id]
      reservations := s.reservations ++ [(m.toOption, r.toOption)] },
    .granted m.isOk, .granted r.isOk)

/-- Both settle what they granted. -/
def settleBoth (cfg : RedisConfig) (s : Lockstep) (h : ℕ) (c : Charge)
    (p : Option Reservation × Option Reservation) : Lockstep :=
  let (m, memory) := match p.1 with
    | some r => let (r', memory) := s.memory.settle r c s.now; (some r', memory)
    | none => (none, s.memory)
  let (r, redis) := match p.2 with
    | some r =>
        let (_, r', redis) := RedisLedger.settle cfg .none s.redis r c s.now
        (some r', redis)
    | none => (none, s.redis)
  { s with memory, redis, reservations := s.reservations.set h (m, r) }

def releaseBoth (cfg : RedisConfig) (s : Lockstep) (h : ℕ)
    (p : Option Reservation × Option Reservation) : Lockstep :=
  let (m, memory) := match p.1 with
    | some r => let (r', memory) := s.memory.release r; (some r', memory)
    | none => (none, s.memory)
  let (r, redis) := match p.2 with
    | some r =>
        let (_, r', redis) := RedisLedger.release cfg .none s.redis r
        (some r', redis)
    | none => (none, s.redis)
  { s with memory, redis, reservations := s.reservations.set h (m, r) }

def spentBoth (cfg : RedisConfig) (s : Lockstep) (userId : String) : Lockstep × Output × Output :=
  let (m, memory) := s.memory.spent userId s.now
  let (r, redis) := RedisLedger.spent cfg .none s.redis userId s.now
  ({ s with memory, redis }, .total m, totalOf r)

/-- One operation on both, with what each returned. -/
def perform (cfg : RedisConfig) (s : Lockstep) : LedgerAct → Option (Lockstep × Output × Output)
  | .reserve id userId amount limit now =>
      if s.now ≤ now ∧ id ∉ s.ids then some ((s.moveTo now).reserveBoth cfg id userId amount limit)
      else none
  | .settle h c now =>
      if s.now ≤ now then
        s.reservations[h]?.map fun p => ((s.moveTo now).settleBoth cfg h c p, .done, .done)
      else none
  | .release h => s.reservations[h]?.map fun p => (s.releaseBoth cfg h p, .done, .done)
  | .spent userId now =>
      if s.now ≤ now then some ((s.moveTo now).spentBoth cfg userId) else none

def step (cfg : RedisConfig) (s : Lockstep) : LockAct → Option Lockstep
  | .call a => (s.perform cfg a).map fun out => { out.1 with outputs := s.outputs ++ [out.2] }
  | .tick t => if s.now ≤ t then some (s.moveTo t) else none

/-- The amounts of the user that are strictly inside the window at `t`. -/
def inside (s : Lockstep) (userId : String) (t : ℚ) : ℚ :=
  amounts (live s.memory.windowSeconds t (s.memory.spend userId))

/-- The amounts of the user that are exactly `window_seconds` old at `t`. -/
def boundary (s : Lockstep) (userId : String) (t : ℚ) : ℚ :=
  amounts ((s.memory.spend userId).filter fun e => decide (e.timestamp = t - s.memory.windowSeconds))

/-- The entries that are exactly `window_seconds` old make no difference: they sum up to
nothing when the total is asked for, and a reserve fits with or without them. -/
def Sharp (s : Lockstep) : LedgerAct → Prop
  | .reserve _ userId amount limit now =>
      s.inside userId now + amount ≤ limit + epsilon →
        s.inside userId now + s.boundary userId now + amount ≤ limit + epsilon
  | .spent userId now => s.boundary userId now = 0
  | _ => True

instance (s : Lockstep) (a : LedgerAct) : Decidable (s.Sharp a) :=
  match a with
  | .reserve .. => inferInstanceAs (Decidable (_ → _))
  | .spent .. => inferInstanceAs (Decidable (_ = _))
  | .settle .. | .release _ => inferInstanceAs (Decidable True)

/-- The run condition: amounts the members' text carries, and no difference at the
boundary. -/
def SharpRun (s : Lockstep) : LockAct → Prop
  | .call a => a.InUnits ∧ s.Sharp a
  | .tick _ => True

/-- The two backends agree on a user. -/
def Agree (cfg : RedisConfig) (s : Lockstep) (userId : String) : Prop :=
  Tidy s.ids s.now (s.memory.spend userId) ∧
    ∃ es, Reads s.redis.server (cfg.spendKey userId) cfg.windowSeconds es ∧ Tidy s.ids s.now es ∧
      live cfg.windowSeconds s.now (s.memory.spend userId) = live cfg.windowSeconds s.now es

/-- Both sides handed out the same reservation, under an identifier out of `ids`. -/
def Held (ids : List ℕ) (p : Option Reservation × Option Reservation) : Prop :=
  p.1 = p.2 ∧ ∀ r, p.1 = some r → r.id ∈ ids

/-- The simulation relation. -/
structure Refines (cfg : RedisConfig) (s : Lockstep) : Prop where
  window : s.memory.windowSeconds = cfg.windowSeconds
  clock : s.redis.server.clock = s.now
  agree : ∀ userId, s.Agree cfg userId
  held : ∀ p ∈ s.reservations, Held s.ids p

section Moves

variable {cfg : RedisConfig} {s s' : Lockstep}

/-- Time alone keeps the agreement. -/
theorem Refines.moveTo (refines : s.Refines cfg) {t : ℚ} (le : s.now ≤ t) :
    (s.moveTo t).Refines cfg := by
  refine ⟨refines.window, rfl, ?_, refines.held⟩
  intro userId
  obtain ⟨tidyM, es, reads, tidy, same⟩ := refines.agree userId
  refine ⟨tidyM.later le (List.Subset.refl _), ?_⟩
  have young : live cfg.windowSeconds t (s.memory.spend userId) = live cfg.windowSeconds t es := by
    rw [← live_live le, same, live_live le]
  rcases reads.later (refines.clock.trans_le le) with kept | ⟨gone, old⟩
  · exact ⟨es, kept, tidy.later le (List.Subset.refl _), young⟩
  · refine ⟨[], gone, Tidy.nil _ _, young.trans ?_⟩
    refine (live_eq_nil ?_).trans rfl
    intro e mem
    have late := old e mem
    have slack := le_ttl cfg.windowSeconds
    linarith

/-- An operation on one user, at the current time, keeps the relation when the two still
agree on that user and on the reservations handed out. -/
theorem Refines.operate (refines : s.Refines cfg) {userId : String} (now : s'.now = s.now)
    (ids : s.ids ⊆ s'.ids) (window : s'.memory.windowSeconds = s.memory.windowSeconds)
    (memory : ∀ other, other ≠ userId → s'.memory.spend other = s.memory.spend other)
    (redis : s.redis.server.SameBut (cfg.spendKey userId) s'.redis.server)
    (agree : s'.Agree cfg userId) (held : ∀ p ∈ s'.reservations, Held s'.ids p) :
    s'.Refines cfg := by
  refine ⟨window.trans refines.window, ?_, ?_, held⟩
  · rw [redis.clock, now]
    exact refines.clock
  · intro other
    by_cases mine : other = userId
    · exact mine ▸ agree
    · obtain ⟨tidyM, es, reads, tidy, same⟩ := refines.agree other
      have key : cfg.spendKey other ≠ cfg.spendKey userId :=
        fun eq => mine (cfg.spendKey_injective eq)
      unfold Agree
      rw [memory other mine, now]
      exact ⟨tidyM.later le_rfl ids, es, reads.elsewhere redis key, tidy.later le_rfl ids, same⟩

theorem Held.mono {ids ids' : List ℕ} {p : Option Reservation × Option Reservation}
    (held : Held ids p) (sub : ids ⊆ ids') : Held ids' p :=
  ⟨held.1, fun r here => sub (held.2 r here)⟩

variable {userId : String} {id : ℕ} {amount limit : ℚ}

/-- The Redis reserve, by what is read under the user's key. -/
theorem redis_reserve_cases {l : RedisLedger} {es : List Entry} (now : ℚ)
    (reads : Reads l.server (cfg.spendKey userId) cfg.windowSeconds es)
    (units : ∀ e ∈ es, Units e.amount) (id : ℕ) (amount limit : ℚ) :
    (limit + epsilon < amounts (live cfg.windowSeconds now es) + amount ∧
      RedisLedger.reserve cfg .none l id userId amount limit now =
        (.error (.userBudgetExceeded userId (amounts (live cfg.windowSeconds now es)) limit amount),
          { l with
            server := l.server.zremrangebyscore (cfg.spendKey userId) (now - cfg.windowSeconds) })) ∨
    (amounts (live cfg.windowSeconds now es) + amount ≤ limit + epsilon ∧
      RedisLedger.reserve cfg .none l id userId amount limit now =
        (.ok { id, userId, amount, createdAt := now },
          { l with
            server := ((l.server.zremrangebyscore (cfg.spendKey userId)
              (now - cfg.windowSeconds)).zadd (cfg.spendKey userId) now
                (memberOf id amount)).expireZset (cfg.spendKey userId) (ttl cfg.windowSeconds) })) := by
  have total := (reads.prune now).sumMembers fun e mem => units e (List.mem_filter.mp mem).1
  simp only [RedisLedger.reserve, RedisLedger.eval, RedisConfig.reserveScript, RedisServer.run,
    total]
  by_cases exceeds : limit + epsilon < amounts (live cfg.windowSeconds now es) + amount
  · exact .inl ⟨exceeds, by simp [exceeds, RedisConfig.onReserved]⟩
  · exact .inr ⟨not_lt.mp exceeds, by simp [exceeds, RedisConfig.onReserved]⟩

/-- What the window holds in memory. -/
theorem amounts_inWindow (s : Lockstep) (userId : String) (t : ℚ) :
    amounts (s.memory.inWindow userId t) = s.inside userId t + s.boundary userId t :=
  amounts_filter_le _ _ _

/-- What a reserve returns on either side. -/
theorem reserveBoth_outputs (refines : s.Refines cfg) (id : ℕ) (userId : String)
    (amount limit : ℚ) :
    (s.reserveBoth cfg id userId amount limit).2 =
      (.granted (decide (s.inside userId s.now + s.boundary userId s.now + amount ≤
        limit + epsilon)),
        .granted (decide (s.inside userId s.now + amount ≤ limit + epsilon))) := by
  obtain ⟨-, es, reads, tidy, same⟩ := refines.agree userId
  have inside : s.inside userId s.now = amounts (live cfg.windowSeconds s.now es) := by
    rw [Lockstep.inside, refines.window, same]
  simp only [reserveBoth, Prod.mk.injEq, Output.granted.injEq]
  rw [← amounts_inWindow, inside]
  constructor
  · rcases Ledger.reserve_cases (l := s.memory) id userId amount limit s.now with
      ⟨exceeds, eq⟩ | ⟨fits, eq⟩
    · simp [eq, not_le.mpr exceeds, Except.isOk, Except.toBool]
    · simp [eq, fits, Except.isOk, Except.toBool]
  · rcases redis_reserve_cases s.now reads tidy.units id amount limit with
      ⟨exceeds, eq⟩ | ⟨fits, eq⟩
    · simp [eq, not_le.mpr exceeds, Except.isOk, Except.toBool]
    · simp [eq, fits, Except.isOk, Except.toBool]

/-- A reserve on which the two agree keeps the relation. -/
theorem Refines.reserve (refines : s.Refines cfg) (fresh : id ∉ s.ids) (units : Units amount)
    (agree : s.inside userId s.now + amount ≤ limit + epsilon →
      s.inside userId s.now + s.boundary userId s.now + amount ≤ limit + epsilon) :
    (s.reserveBoth cfg id userId amount limit).1.Refines cfg := by
  obtain ⟨tidyM, es, reads, tidy, same⟩ := refines.agree userId
  have more : s.ids ⊆ s.ids ++ [id] := List.subset_append_left _ _
  have known : id ∈ s.ids ++ [id] := List.mem_append_right _ (List.mem_singleton_self id)
  have pruned := reads.prune s.now
  have inside : s.inside userId s.now = amounts (live cfg.windowSeconds s.now es) := by
    rw [Lockstep.inside, refines.window, same]
  have liveM : live cfg.windowSeconds s.now (s.memory.inWindow userId s.now) =
      live cfg.windowSeconds s.now es := by
    rw [Ledger.inWindow, refines.window, live_filter_le, same]
  have liveR : live cfg.windowSeconds s.now (live cfg.windowSeconds s.now es) =
      live cfg.windowSeconds s.now es := live_live le_rfl
  have tidyM' : Tidy (s.ids ++ [id]) s.now (s.memory.inWindow userId s.now) :=
    (tidyM.sublist List.filter_sublist).later le_rfl more
  have tidyR' : Tidy (s.ids ++ [id]) s.now (live cfg.windowSeconds s.now es) :=
    (tidy.sublist List.filter_sublist).later le_rfl more
  have unused : ∀ {l l' : List Entry}, Tidy s.ids s.now l → l'.Sublist l →
      id ∉ l'.map (·.entryId) := by
    intro l l' tidy sub mem
    obtain ⟨e, inL, rfl⟩ := List.mem_map.mp mem
    exact fresh (tidy.known e (sub.subset inL))
  have handOut : ∀ x : Option Reservation, (∀ r, x = some r → r.id = id) →
      ∀ p ∈ s.reservations ++ [(x, x)], Held (s.ids ++ [id]) p := by
    intro x named p mem
    rcases List.mem_append.mp mem with old | new
    · exact (refines.held p old).mono more
    · rw [List.mem_singleton] at new
      subst new
      exact ⟨rfl, fun r here => (named r here).symm ▸ known⟩
  have total := amounts_inWindow s userId s.now
  rcases Ledger.reserve_cases (l := s.memory) id userId amount limit s.now with
    ⟨overM, eqM⟩ | ⟨fitsM, eqM⟩ <;>
  rcases redis_reserve_cases s.now reads tidy.units id amount limit with
    ⟨overR, eqR⟩ | ⟨fitsR, eqR⟩
  · -- Refused by both: only pruning happened.
    simp only [reserveBoth, eqM, eqR]
    refine refines.operate rfl more rfl (fun other mine => Ledger.setSpend_ne _ mine)
      (RedisServer.sameBut_putZset _) ⟨?_, live cfg.windowSeconds s.now es, pruned, tidyR', ?_⟩
      (handOut none (fun r here => by cases here))
    · simpa [Ledger.prune] using tidyM'
    · simpa [Ledger.prune, liveR] using liveM
  · rw [← inside] at fitsR
    have fits := agree fitsR
    linarith
  · have positive : 0 ≤ s.boundary userId s.now := by
      apply amounts_nonneg
      intro e mem
      exact (tidyM.units e (List.mem_filter.mp mem).1).nonneg
    linarith
  · -- Granted by both: the same entry was appended to lists with the same young entries.
    let e : Entry := { timestamp := s.now, amount, entryId := id }
    obtain ⟨kept, readsKept, sub, liveKept⟩ := pruned.charge e (unused tidy List.filter_sublist)
      (fun a mem => tidyR'.past a mem) refines.clock
    simp only [reserveBoth, eqM, eqR]
    refine refines.operate rfl more rfl (fun other mine => Ledger.setSpend_ne _ mine)
      (((RedisServer.sameBut_putZset _).trans (RedisServer.sameBut_putZset _)).trans
        (RedisServer.sameBut_expireZset _)) ⟨?_, kept, readsKept, ?_, ?_⟩
      (handOut (some _) (fun r here => by cases here; rfl))
    · rw [Ledger.setSpend_self]
      exact tidyM'.append (unused tidyM List.filter_sublist) known le_rfl units
    · exact (tidyR'.append (unused tidy List.filter_sublist) known le_rfl units).sublist sub
    · rw [Ledger.setSpend_self, live_append, liveM]
      exact (liveKept.trans (live_append.trans (by rw [liveR]))).symm

/-- The reservations after the one at `h` has changed, on both sides alike. -/
theorem Refines.held_set (refines : s.Refines cfg) (h : ℕ) {x : Option Reservation}
    (known : ∀ r, x = some r → r.id ∈ s.ids) :
    ∀ p ∈ s.reservations.set h (x, x), Held s.ids p := by
  intro p mem
  rcases List.mem_or_eq_of_mem_set mem with old | rfl
  · exact refines.held p old
  · exact ⟨rfl, known⟩

/-- Settling keeps the relation: both drop the hold, if it is still there, and append the
same charge. -/
theorem Refines.settle {h : ℕ} {c : Charge} {p : Option Reservation × Option Reservation}
    (refines : s.Refines cfg) (here : s.reservations[h]? = some p) (units : Units c.cost) :
    (s.settleBoth cfg h c p).Refines cfg := by
  obtain ⟨m, r⟩ := p
  obtain ⟨rfl, known⟩ : m = r ∧ _ := refines.held _ (List.mem_of_getElem? here)
  cases m with
  | none => exact ⟨refines.window, refines.clock, refines.agree, refines.held_set h known⟩
  | some r =>
      have named : r.id ∈ s.ids := known r rfl
      by_cases closed : r.closed = true
      · simp only [settleBoth, Ledger.settle, RedisLedger.settle, closed, if_true]
        exact ⟨refines.window, refines.clock, refines.agree, refines.held_set h known⟩
      · obtain ⟨tidyM, es, reads, tidy, same⟩ := refines.agree r.userId
        let e : Entry := { timestamp := s.now, amount := c.cost, entryId := r.id }
        have dropped := reads.drop tidy.distinct r.id
        have clock : (s.redis.server.dropFirst (cfg.spendKey r.userId) r.id).clock = s.now :=
          (RedisServer.sameBut_dropFirst r.id).clock.trans refines.clock
        have tidyM' : Tidy s.ids s.now (dropEntry (s.memory.spend r.userId) r.id) :=
          tidyM.sublist List.eraseP_sublist
        have tidyR' : Tidy s.ids s.now (dropEntry es r.id) := tidy.sublist List.eraseP_sublist
        obtain ⟨kept, readsKept, sub, liveKept⟩ := dropped.charge e
          (notMem_dropEntry tidy.distinct r.id) (fun a mem => tidyR'.past a mem) clock
        simp only [settleBoth, Ledger.settle, RedisLedger.settle, RedisLedger.eval,
          RedisConfig.settleScript, closed, if_false, Bool.false_eq_true]
        refine refines.operate rfl (List.Subset.refl _) rfl
          (fun other mine => Ledger.setSpend_ne _ mine)
          (RedisServer.sameBut_run s.redis.server (cfg.settleScript r c.cost s.now))
          ⟨?_, kept, ⟨readsKept.entries, readsKept.deadline⟩, ?_, ?_⟩
          (refines.held_set h (fun r' eq => by cases eq; exact named))
        · rw [Ledger.setSpend_self]
          exact tidyM'.append (notMem_dropEntry tidyM.distinct r.id) named le_rfl units
        · exact (tidyR'.append (notMem_dropEntry tidy.distinct r.id) named le_rfl units).sublist sub
        · rw [Ledger.setSpend_self, live_append, live_dropEntry tidyM.distinct, same,
            ← live_dropEntry tidy.distinct]
          exact (liveKept.trans live_append).symm

/-- Releasing keeps the relation: both drop the hold, if it is still there. -/
theorem Refines.release {h : ℕ} {p : Option Reservation × Option Reservation}
    (refines : s.Refines cfg) (here : s.reservations[h]? = some p) :
    (s.releaseBoth cfg h p).Refines cfg := by
  obtain ⟨m, r⟩ := p
  obtain ⟨rfl, known⟩ : m = r ∧ _ := refines.held _ (List.mem_of_getElem? here)
  cases m with
  | none => exact ⟨refines.window, refines.clock, refines.agree, refines.held_set h known⟩
  | some r =>
      have named : r.id ∈ s.ids := known r rfl
      by_cases closed : r.closed = true
      · simp only [releaseBoth, Ledger.release, RedisLedger.release, closed, if_true]
        exact ⟨refines.window, refines.clock, refines.agree, refines.held_set h known⟩
      · obtain ⟨tidyM, es, reads, tidy, same⟩ := refines.agree r.userId
        simp only [releaseBoth, Ledger.release, RedisLedger.release, RedisLedger.eval,
          RedisConfig.releaseScript, closed, if_false, Bool.false_eq_true]
        refine refines.operate rfl (List.Subset.refl _) rfl
          (fun other mine => Ledger.setSpend_ne _ mine) (RedisServer.sameBut_dropFirst r.id)
          ⟨?_, _, reads.drop tidy.distinct r.id, tidy.sublist List.eraseP_sublist, ?_⟩
          (refines.held_set h (fun r' eq => by cases eq; exact named))
        · rw [Ledger.setSpend_self]
          exact tidyM.sublist List.eraseP_sublist
        · rw [Ledger.setSpend_self, live_dropEntry tidyM.distinct, same,
            live_dropEntry tidy.distinct]

/-- Asking for the total only prunes; the totals differ by what is exactly as old as the
window. -/
theorem Refines.spent (refines : s.Refines cfg) (userId : String) :
    (s.spentBoth cfg userId).1.Refines cfg ∧
      (s.spentBoth cfg userId).2 =
        (.total (s.inside userId s.now + s.boundary userId s.now),
          .total (s.inside userId s.now)) := by
  obtain ⟨tidyM, es, reads, tidy, same⟩ := refines.agree userId
  have pruned := reads.prune s.now
  have tidyR' : Tidy s.ids s.now (live cfg.windowSeconds s.now es) :=
    tidy.sublist List.filter_sublist
  constructor
  · simp only [spentBoth, Ledger.spent, RedisLedger.spent, RedisLedger.eval,
      RedisConfig.pruneScript, RedisServer.run]
    refine refines.operate rfl (List.Subset.refl _) rfl
      (fun other mine => Ledger.setSpend_ne _ mine) (RedisServer.sameBut_putZset _)
      ⟨?_, live cfg.windowSeconds s.now es, pruned, tidyR', ?_⟩ refines.held
    · rw [Ledger.prune, Ledger.setSpend_self]
      exact tidyM.sublist List.filter_sublist
    · rw [Ledger.prune, Ledger.setSpend_self, Ledger.inWindow, refines.window, live_filter_le, same]
      exact (live_live le_rfl).symm
  · have total := pruned.sumMembers tidyR'.units
    simp only [spentBoth, Ledger.spent, RedisLedger.spent, RedisLedger.eval,
      RedisConfig.pruneScript, RedisServer.run, totalOf, total, amounts_inWindow]
    rw [Lockstep.inside, refines.window, same]

theorem boundary_nonneg (refines : s.Refines cfg) (userId : String) (now : ℚ) :
    0 ≤ s.boundary userId now := by
  obtain ⟨tidyM, -⟩ := refines.agree userId
  apply amounts_nonneg
  intro e mem
  exact (tidyM.units e (List.mem_filter.mp mem).1).nonneg

/-- One operation: the two return the same if and only if the boundary makes no
difference, and then they stay related. -/
theorem Refines.perform {a : LedgerAct} {out : Lockstep × Output × Output}
    (refines : s.Refines cfg) (units : a.InUnits) (performed : s.perform cfg a = some out) :
    (out.2.1 = out.2.2 ↔ s.Sharp a) ∧ (s.Sharp a → out.1.Refines cfg) := by
  cases a with
  | reserve id userId amount limit now =>
      obtain ⟨⟨le, fresh⟩, ⟨⟩⟩ := Option.ite_none_right_eq_some.mp performed
      have moved := refines.moveTo le
      refine ⟨?_, fun sharp => moved.reserve fresh units sharp⟩
      rw [reserveBoth_outputs moved]
      simp only [Output.granted.injEq, decide_eq_decide]
      have positive := boundary_nonneg moved userId (s.moveTo now).now
      constructor
      · exact fun same => same.mpr
      · intro sharp
        refine ⟨?_, sharp⟩
        intro fits
        linarith
  | settle h c now =>
      obtain ⟨le, found⟩ := Option.ite_none_right_eq_some.mp performed
      obtain ⟨p, here, rfl⟩ := Option.map_eq_some_iff.mp found
      exact ⟨by simp [Sharp], fun _ => (refines.moveTo le).settle here units⟩
  | release h =>
      obtain ⟨p, here, rfl⟩ := Option.map_eq_some_iff.mp performed
      exact ⟨by simp [Sharp], fun _ => refines.release here⟩
  | spent userId now =>
      obtain ⟨le, ⟨⟩⟩ := Option.ite_none_right_eq_some.mp performed
      obtain ⟨stays, outputs⟩ := (refines.moveTo le).spent userId
      refine ⟨?_, fun _ => stays⟩
      rw [outputs]
      simp only [Output.total.injEq]
      exact add_eq_left

theorem refines_start (cfg : RedisConfig) (now : ℚ) : (start cfg now).Refines cfg :=
  ⟨rfl, rfl, fun _ => ⟨Tidy.nil _ _, [], Reads.absent rfl, Tidy.nil _ _, rfl⟩,
    fun _ mem => absurd mem List.not_mem_nil⟩

end Moves

/-- In a run in which entries exactly as old as the window never make a difference, both
ledgers return the same at every step; and at the next step they do so exactly when it does
not make a difference there. -/
theorem redis_refines_memory (cfg : RedisConfig) (now : ℚ) {s : Lockstep}
    (reached : Runs.Reaches (step cfg) SharpRun (start cfg now) s) :
    (∀ o ∈ s.outputs, o.1 = o.2) ∧
      ∀ a out, a.InUnits → s.perform cfg a = some out → (out.2.1 = out.2.2 ↔ s.Sharp a) := by
  have related : s.Refines cfg ∧ ∀ o ∈ s.outputs, o.1 = o.2 := by
    apply reached.invariant (I := fun s => s.Refines cfg ∧ ∀ o ∈ s.outputs, o.1 = o.2)
      ⟨refines_start cfg now, List.forall_mem_nil _⟩
    rintro s a s' ⟨refines, same⟩ sharp stepped
    cases a with
    | call a =>
        obtain ⟨out, performed, rfl⟩ := Option.map_eq_some_iff.mp stepped
        obtain ⟨outputs, stays⟩ := refines.perform sharp.1 performed
        refine ⟨⟨(stays sharp.2).window, (stays sharp.2).clock, (stays sharp.2).agree,
          (stays sharp.2).held⟩, ?_⟩
        intro o mem
        rcases List.mem_append.mp mem with old | new
        · exact same o old
        · rw [List.mem_singleton] at new
          exact new ▸ outputs.mpr sharp.2
    | tick t =>
        obtain ⟨le, ⟨⟩⟩ := Option.ite_none_right_eq_some.mp stepped
        exact ⟨refines.moveTo le, same⟩
  refine ⟨related.2, ?_⟩
  intro a out units performed
  exact (related.1.perform units performed).1

section Boundary

/-- A window of a minute. -/
def minute : RedisConfig := { windowSeconds := 60 }

def half : LedgerAct := .reserve 0 "u" (1 / 2) 1 0

def bill : Charge := { cost := 3 / 4, model := "small", inputTokens := 1, outputTokens := 1 }

/-- `Sharp`, decided for a concrete run. -/
def sharpHere (s : Lockstep) : LockAct → Bool
  | .call a => decide (s.Sharp a)
  | .tick _ => true

/-- A hold, its bill, and the totals before and after it leaves the window. -/
theorem redis_refines_memory_for_a_minute :
    ∃ s, Runs.Reaches (step minute) SharpRun (start minute 0) s ∧ s.outputs.length = 4 ∧
      ∀ o ∈ s.outputs, o.1 = o.2 := by
  let acts : List LockAct :=
    [.call half, .call (.settle 0 bill 5), .call (.spent "u" 64), .tick 65, .call (.spent "u" 66)]
  have units : ∀ a ∈ acts, ∀ b, a = .call b → b.InUnits := by
    intro a mem
    simp only [acts, List.mem_cons, List.not_mem_nil, or_false] at mem
    rcases mem with rfl | rfl | rfl | rfl | rfl <;> rintro b ⟨⟩
    · exact ⟨5 * 10 ^ 9, by norm_num⟩
    · exact ⟨75 * 10 ^ 8, by norm_num [bill]⟩
    · trivial
    · trivial
  have holds : Runs.execHolds (step minute)
      (fun s a => a ∈ acts ∧ s.sharpHere a = true)
      (start minute 0) acts (fun s => decide (s.outputs.length = 4)) = true := by
    decide +kernel
  obtain ⟨s, run, length⟩ := Runs.exists_reaches_of_execHolds _ _ holds
  have reached : Runs.Reaches (step minute) SharpRun (start minute 0) s := by
    apply run.weaken
    rintro s a ⟨mem, sharp⟩
    cases a with
    | call b => exact ⟨units _ mem b rfl, of_decide_eq_true sharp⟩
    | tick t => trivial
  exact ⟨s, reached, of_decide_eq_true length, (redis_refines_memory minute 0 reached).1⟩

/-- A hold that is exactly as old as the window counts in memory and not on Redis: the
totals differ, and so does the next reserve. -/
theorem ledgers_part_at_the_boundary :
    ∃ s, Runs.Reaches (step minute) Runs.Always (start minute 0) s ∧
      s.outputs = [(.granted true, .granted true), (.total (1 / 2), .total 0),
        (.granted false, .granted true)] := by
  have holds : Runs.execHolds (step minute) Runs.Always (start minute 0)
      [.call half, .call (.spent "u" 60), .call (.reserve 1 "u" (3 / 4) 1 60)]
      (fun s => decide (s.outputs = [(.granted true, .granted true), (.total (1 / 2), .total 0),
        (.granted false, .granted true)])) = true := by
    decide +kernel
  obtain ⟨s, run, outputs⟩ := Runs.exists_reaches_of_execHolds _ _ holds
  exact ⟨s, run, of_decide_eq_true outputs⟩

end Boundary

end Lockstep

end LLMInference
