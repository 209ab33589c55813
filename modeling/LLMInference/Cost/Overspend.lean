import LLMInference.Cost.Redis
import LLMInference.Cost.Window
import LLMInference.Lib.Runs

/-!
Where overspend comes from, in both ledgers.

`MemoryRun` interleaves the operations of any number of requests on one in-memory ledger.
`RedisFleet` interleaves the calls of any number of requests, on any number of replicas, with
the atomic executions of their scripts on one server: a call is sent, its script runs at
some later time or never, and the client learns the reply or gives up on it. Clock
readings are arbitrary, and so is the server's clock, by which keys expire.

Both keep, for each user, the `overrun`: what its settles recorded beyond the amounts
they removed.

* `MemoryRun.Bounded`, `Within`: the invariant, in the terms of each backend.
* `overspend_only_from_overruns`: a user whose reserves all use one limit never has more
  stored than the limit, the tolerance and the overrun; and a reserve is only refused when
  the window has no room for it.
-/

namespace LLMInference

/-- What one settle records beyond what it removes. -/
def excess (cost removed : ℚ) : ℚ := max 0 (cost - removed)

theorem excess_nonneg (cost removed : ℚ) : 0 ≤ excess cost removed := le_max_left _ _

theorem sub_le_excess (cost removed : ℚ) : cost - removed ≤ excess cost removed :=
  le_max_right _ _

/-! ### The in-memory ledger -/

structure MemoryRun where
  ledger : Ledger
  /-- The reservations granted so far. -/
  reservations : List Reservation := []
  overrun : String → ℚ := fun _ => 0

/-- An operation of a request; a reservation is named by its position. -/
inductive LedgerAct where
  | reserve (id : ℕ) (userId : String) (amount limit now : ℚ)
  | settle (h : ℕ) (c : Charge) (now : ℚ)
  | release (h : ℕ)
  | spent (userId : String) (now : ℚ)
  deriving DecidableEq, Repr

/-- The amounts are multiples that the members' text carries. -/
def LedgerAct.InUnits : LedgerAct → Prop
  | .reserve _ _ amount _ _ => Units amount
  | .settle _ c _ => Units c.cost
  | _ => True

/-- The operations respect the limit the user's reserves share, and no amount is negative. -/
def LedgerAct.OnTerms (userId : String) (limit : ℚ) : LedgerAct → Prop
  | .reserve _ u amount l _ => 0 ≤ amount ∧ (u = userId → l = limit)
  | .settle _ c _ => 0 ≤ c.cost
  | _ => True

namespace MemoryRun

def start (windowSeconds : ℚ) : MemoryRun := { ledger := { windowSeconds } }

/-- Add to a user's overrun. -/
def charge (s : MemoryRun) (userId : String) (x : ℚ) : MemoryRun :=
  { s with overrun := Function.update s.overrun userId (s.overrun userId + x) }

def step (s : MemoryRun) : LedgerAct → Option MemoryRun
  | .reserve id userId amount limit now =>
      match s.ledger.reserve id userId amount limit now with
      | (.ok r, ledger) => some { s with ledger, reservations := s.reservations ++ [r] }
      | (.error _, ledger) => some { s with ledger }
  | .settle h c now =>
      match s.reservations[h]? with
      | none => none
      | some r =>
          let (r', ledger) := s.ledger.settle r c now
          let x := if r.closed then 0 else excess c.cost (heldUnder (s.ledger.spend r.userId) r.id)
          some (charge { s with ledger, reservations := s.reservations.set h r' } r.userId x)
  | .release h =>
      match s.reservations[h]? with
      | none => none
      | some r =>
          let (r', ledger) := s.ledger.release r
          some { s with ledger, reservations := s.reservations.set h r' }
  | .spent userId now => some { s with ledger := (s.ledger.spent userId now).2 }

/-- The user's entries, against the limit and the overrun. -/
structure Bounded (userId : String) (limit : ℚ) (s : MemoryRun) : Prop where
  nonneg : ∀ e ∈ s.ledger.spend userId, 0 ≤ e.amount
  overrun : 0 ≤ s.overrun userId
  total : amounts (s.ledger.spend userId) ≤ limit + epsilon + s.overrun userId

section Steps

variable {userId : String} {limit : ℚ} {s s' : MemoryRun}

/-- Fewer entries, same overrun. -/
theorem Bounded.fewer (bounded : s.Bounded userId limit)
    (sub : (s'.ledger.spend userId).Sublist (s.ledger.spend userId))
    (same : s'.overrun = s.overrun) : s'.Bounded userId limit := by
  obtain ⟨nonneg, overrun, total⟩ := bounded
  refine ⟨fun e mem => nonneg e (sub.subset mem), same ▸ overrun, ?_⟩
  rw [same]
  exact (amounts_le_of_sublist sub nonneg).trans total

theorem Bounded.reserve {id : ℕ} {u : String} {amount l now : ℚ} (bounded : s.Bounded userId limit)
    (terms : (LedgerAct.reserve id u amount l now).OnTerms userId limit)
    (stepped : s.step (.reserve id u amount l now) = some s') : s'.Bounded userId limit := by
  obtain ⟨positive, shared⟩ := terms
  rcases Ledger.reserve_cases (l := s.ledger) id u amount l now with ⟨exceeds, eq⟩ | ⟨fits, eq⟩
  · simp only [step, eq] at stepped
    cases stepped
    exact bounded.fewer (Ledger.spend_prune_sublist _ _ _) rfl
  · simp only [step, eq] at stepped
    cases stepped
    by_cases same : userId = u
    · subst same
      obtain ⟨nonneg, overrun, -⟩ := bounded
      refine ⟨?_, overrun, ?_⟩
      · intro e mem
        simp only [Ledger.setSpend_self, List.mem_append, List.mem_singleton] at mem
        rcases mem with old | rfl
        · exact nonneg e (List.mem_filter.mp old).1
        · exact positive
      · simp only [Ledger.setSpend_self, amounts_append, amounts_singleton]
        have at_limit := shared rfl
        subst at_limit
        linarith
    · refine bounded.fewer ?_ rfl
      simp only [Ledger.setSpend_ne _ same]
      exact List.Sublist.refl _

theorem Bounded.settle {h : ℕ} {c : Charge} {now : ℚ} (bounded : s.Bounded userId limit)
    (terms : (LedgerAct.settle h c now).OnTerms userId limit)
    (stepped : s.step (.settle h c now) = some s') : s'.Bounded userId limit := by
  simp only [step] at stepped
  split at stepped
  · cases stepped
  · rename_i r found
    cases stepped
    by_cases closed : r.closed = true
    · obtain ⟨nonneg, overrun, total⟩ := bounded
      have still : Function.update s.overrun r.userId (s.overrun r.userId + 0) = s.overrun := by
        simp
      refine ⟨?_, ?_, ?_⟩ <;> simp only [charge, Ledger.settle, closed, if_true, still]
      · exact nonneg
      · exact overrun
      · exact total
    · by_cases same : userId = r.userId
      · -- The hold leaves, the cost enters, and the difference is the overrun's.
        have removed := amounts_dropEntry (s.ledger.spend r.userId) r.id
        have more := sub_le_excess c.cost (heldUnder (s.ledger.spend r.userId) r.id)
        have positive := excess_nonneg c.cost (heldUnder (s.ledger.spend r.userId) r.id)
        subst same
        obtain ⟨nonneg, overrun, total⟩ := bounded
        refine ⟨?_, ?_, ?_⟩ <;> simp only [charge, Ledger.settle, closed, if_false,
          Bool.false_eq_true, Ledger.setSpend_self, Function.update_self]
        · intro e mem
          rcases List.mem_append.mp mem with old | new
          · exact nonneg e (List.mem_of_mem_eraseP old)
          · rw [List.mem_singleton] at new
            subst new
            exact terms
        · linarith
        · rw [amounts_append, amounts_singleton]
          linarith
      · obtain ⟨nonneg, overrun, total⟩ := bounded
        refine ⟨?_, ?_, ?_⟩ <;> simp only [charge, Ledger.settle, closed, if_false,
          Bool.false_eq_true, Ledger.setSpend_ne _ same, Function.update_of_ne same]
        · exact nonneg
        · exact overrun
        · exact total

theorem Bounded.step {a : LedgerAct} (bounded : s.Bounded userId limit)
    (terms : a.OnTerms userId limit) (stepped : s.step a = some s') : s'.Bounded userId limit := by
  cases a with
  | reserve id u amount l now => exact bounded.reserve terms stepped
  | settle h c now => exact bounded.settle terms stepped
  | release h =>
      simp only [MemoryRun.step] at stepped
      split at stepped
      · cases stepped
      · rename_i r found
        cases stepped
        refine bounded.fewer ?_ rfl
        simp only [Ledger.release]
        split
        · exact List.Sublist.refl _
        · by_cases same : userId = r.userId
          · subst same
            rw [Ledger.setSpend_self]
            exact List.eraseP_sublist
          · rw [Ledger.setSpend_ne _ same]
  | spent u now =>
      cases stepped
      exact bounded.fewer (Ledger.spend_prune_sublist _ _ _) rfl

end Steps

end MemoryRun

/-! ### The sorted sets of the server -/

/-- The weights of a sorted set are non-negative and sum up to at most `bound`. -/
structure Within (bound : ℚ) (z : ZSet String) : Prop where
  nonneg : ∀ m ∈ z.members, 0 ≤ weight m
  total : z.sumBy weight ≤ bound

namespace Within

variable {bound bound' : ℚ} {z : ZSet String} {s : RedisServer} {key : String}

theorem sum_nonneg (within : Within bound z) : 0 ≤ z.sumBy weight := by
  apply List.sum_nonneg
  intro x mem
  obtain ⟨m, here, rfl⟩ := List.mem_map.mp mem
  exact within.nonneg m here

theorem bound_nonneg (within : Within bound z) : 0 ≤ bound := within.sum_nonneg.trans within.total

theorem empty (positive : 0 ≤ bound) : Within bound .empty :=
  ⟨fun _ mem => absurd mem List.not_mem_nil, positive⟩

theorem mono (within : Within bound z) (le : bound ≤ bound') : Within bound' z :=
  ⟨within.nonneg, within.total.trans le⟩

theorem restrict (within : Within bound z) (p : String × ℚ → Bool) : Within bound (z.restrict p) :=
  ⟨fun m mem => within.nonneg m (ZSet.mem_members_restrict mem),
    (ZSet.sumBy_restrict_le within.nonneg p).trans within.total⟩

/-- What is read is no more than what is stored. -/
theorem zset (within : Within bound (s.stored key)) : Within bound (s.zset key) := by
  rcases s.zset_cases key with eq | eq <;> rw [eq]
  · exact within
  · exact empty within.bound_nonneg

theorem remove_mem {m : String} (within : Within bound z) (mem : m ∈ z.members) :
    Within (bound - weight m) (z.remove m) := by
  refine ⟨fun m' mem' => within.nonneg m' (ZSet.mem_members_restrict mem'), ?_⟩
  have split := ZSet.sumBy_remove (f := weight) mem
  have total := within.total
  linarith

theorem add {m : String} (within : Within bound z) (score : ℚ) (positive : 0 ≤ weight m) :
    Within (bound + weight m) (z.add m score) := by
  constructor
  · intro m' mem
    rcases ZSet.mem_members_add mem with rfl | old
    · exact positive
    · exact within.nonneg m' old
  · rw [ZSet.sumBy_add]
    have rest := (within.restrict fun e => decide (e.1 ≠ m)).total
    unfold ZSet.remove
    linarith

theorem expire (within : Within bound (s.stored key)) (seconds : ℤ) :
    Within bound ((s.expireZset key seconds).stored key) := by
  rcases RedisServer.stored_expireZset_self s key seconds with eq | eq <;> rw [eq]
  · exact within.zset
  · exact empty within.bound_nonneg

/-- Adding to what is read. -/
theorem zadd {m : String} (within : Within bound (s.stored key)) (score : ℚ)
    (positive : 0 ≤ weight m) : Within (bound + weight m) ((s.zadd key score m).stored key) := by
  rw [RedisServer.zadd, RedisServer.stored_putZset_self]
  exact within.zset.add score positive

theorem prune (within : Within bound (s.stored key)) (max : ℚ) :
    Within bound ((s.zremrangebyscore key max).stored key) := by
  rw [RedisServer.zremrangebyscore, RedisServer.stored_putZset_self]
  exact within.zset.restrict _

/-- What is dropped makes room for as much. -/
theorem dropFirst (within : Within bound (s.stored key)) (id : ℕ) :
    Within (bound - s.dropped key id) ((s.dropFirst key id).stored key) := by
  unfold RedisServer.dropFirst RedisServer.dropped
  cases found : (s.zrange key).find? (belongsTo id) with
  | none => simpa using within
  | some m =>
      have mem : m ∈ (s.zset key).members :=
        (ZSet.range_perm _).mem_iff.mp (List.mem_of_find?_eq_some found)
      simp only [RedisServer.zrem, RedisServer.stored_putZset_self]
      exact within.zset.remove_mem mem

theorem dropped_nonneg (within : Within bound (s.stored key)) (id : ℕ) : 0 ≤ s.dropped key id := by
  unfold RedisServer.dropped
  cases found : (s.zrange key).find? (belongsTo id) with
  | none => exact le_rfl
  | some m =>
      have mem : m ∈ (s.zset key).members :=
        (ZSet.range_perm _).mem_iff.mp (List.mem_of_find?_eq_some found)
      exact within.zset.nonneg m mem

/-- The sum the reserve script compares. -/
theorem sumMembers_zrange : sumMembers (s.zrange key) = (s.zset key).sumBy weight :=
  ZSet.sum_range

end Within

namespace RedisServer

variable {s : RedisServer} {key member : String} {now window amount limit bound : ℚ} {id : ℕ}

/-- The reserve script keeps a bound that is at least the limit. -/
theorem within_reserve (within : Within bound (s.stored key)) (atLeast : limit + epsilon ≤ bound)
    (text : weight member = amount) (positive : 0 ≤ amount) :
    Within bound ((s.run (.reserve key now window amount limit member)).2.stored key) := by
  have pruned := within.prune (now - window)
  simp only [run]
  split
  · exact pruned
  · rename_i fits
    rw [Within.sumMembers_zrange] at fits
    refine Within.expire ?_ _
    have exact_sum : Within (((s.zremrangebyscore key (now - window)).zset key).sumBy weight)
        ((s.zremrangebyscore key (now - window)).zset key) := ⟨pruned.zset.nonneg, le_rfl⟩
    have added := exact_sum.add now (text ▸ positive : 0 ≤ weight member)
    rw [zadd, stored_putZset_self]
    exact added.mono (by linarith)

/-- The settle script exceeds a bound by its overrun at most. -/
theorem within_settle {usageKey : String} {actual : ℚ} (within : Within bound (s.stored key))
    (units : Units actual) :
    Within (bound + excess actual (s.dropped key id))
      ((s.run (.settle key usageKey now id actual window)).2.stored key) := by
  simp only [run, stored_addTotal]
  have text : weight (memberOf id actual) = actual := weight_memberOf units
  have charged := (within.dropFirst id).zadd now (text.symm ▸ units.nonneg)
  rw [text] at charged
  have more := sub_le_excess actual (s.dropped key id)
  exact (charged.expire (ttl window)).mono (by linarith)

/-- The amounts inside the window, as the reserve script sums them. -/
def windowSum (s : RedisServer) (key : String) (now window : ℚ) : ℚ :=
  ((s.zset key).removeUpTo (now - window)).sumBy weight

/-- The reserve script refuses only what the window has no room for. -/
theorem refused_only_over {total : ℚ}
    (refused : (s.run (.reserve key now window amount limit member)).1 = .reserved false total) :
    limit + epsilon < s.windowSum key now window + amount := by
  simp only [run] at refused
  split at refused
  · rename_i exceeds
    rw [Within.sumMembers_zrange] at exceeds
    rw [zremrangebyscore, zset_putZset_self] at exceeds
    exact exceeds
  · cases refused

end RedisServer

/-! ### The fleet -/

/-- A ledger call of some request, with the reservation as the call read it. -/
inductive RedisOp where
  | reserve (r : Reservation) (limit : ℚ)
  | settle (h : ℕ) (r : Reservation) (c : Charge) (now : ℚ)
  | release (h : ℕ) (r : Reservation)
  | spent (userId : String) (now : ℚ)
  deriving DecidableEq, Repr

namespace RedisOp

def script (cfg : RedisConfig) : RedisOp → Script
  | .reserve r limit => cfg.reserveScript r limit
  | .settle _ r c now => cfg.settleScript r c.cost now
  | .release _ r => cfg.releaseScript r
  | .spent userId now => cfg.pruneScript userId now

def userId : RedisOp → String
  | .reserve r _ => r.userId
  | .settle _ r _ _ => r.userId
  | .release _ r => r.userId
  | .spent userId _ => userId

/-- The operation respects the limit the user's reserves share, and its amounts are
multiples that the members' text carries. -/
def OnTerms (user : String) (limit : ℚ) : RedisOp → Prop
  | .reserve r l => Units r.amount ∧ (r.userId = user → l = limit)
  | .settle _ _ c _ => Units c.cost
  | _ => True

/-- What the execution of the call's script on `s` adds to its user's overrun. -/
def excess (cfg : RedisConfig) (s : RedisServer) : RedisOp → ℚ
  | .settle _ r c _ => LLMInference.excess c.cost (s.dropped (cfg.spendKey r.userId) r.id)
  | _ => 0

end RedisOp

/-- A call in progress. -/
structure RedisCall where
  op : RedisOp
  /-- The server has not executed the script yet. -/
  queued : Bool := true
  /-- The client still awaits it. -/
  awaited : Bool := true
  reply : Option Reply := none
  deriving DecidableEq, Repr

structure RedisFleet where
  server : RedisServer := {}
  /-- The reservations granted so far, to any request on any replica. -/
  reservations : List Reservation := []
  calls : List RedisCall := []
  overrun : String → ℚ := fun _ => 0

inductive FleetAct where
  /-- A request calls a ledger method; a reservation is named by its position. -/
  | call (a : LedgerAct)
  /-- The server executes the script of call `i`. -/
  | execute (i : ℕ)
  /-- Call `i` learns its reply. -/
  | resume (i : ℕ)
  /-- Call `i` raises instead; its script may still be executed later. -/
  | fault (i : ℕ) (detail : String)
  /-- The server's clock reads `t`. -/
  | clock (t : ℚ)
  deriving DecidableEq, Repr

namespace RedisFleet

/-- The call a method makes, if it makes one: a closed reservation is left alone. -/
def opOf (s : RedisFleet) : LedgerAct → Option RedisOp
  | .reserve id userId amount limit now =>
      some (.reserve { id, userId, amount, createdAt := now } limit)
  | .settle h c now => (s.reservations[h]?.filter (!·.closed)).map (.settle h · c now)
  | .release h => (s.reservations[h]?.filter (!·.closed)).map (.release h ·)
  | .spent userId now => some (.spent userId now)

/-- A method returns: a reserve hands out its reservation, the others close theirs. -/
def finish (s : RedisFleet) (op : RedisOp) (granted : Except LedgerError Reservation) : RedisFleet :=
  match op with
  | .reserve _ _ =>
      match granted with
      | .ok r => { s with reservations := s.reservations ++ [r] }
      | .error _ => s
  | .settle h r _ _ => { s with reservations := s.reservations.set h { r with closed := true } }
  | .release h r => { s with reservations := s.reservations.set h { r with closed := true } }
  | .spent _ _ => s

def charge (s : RedisFleet) (userId : String) (x : ℚ) : RedisFleet :=
  { s with overrun := Function.update s.overrun userId (s.overrun userId + x) }

/-- What the reserve behind a call is told. -/
def grantOf (op : RedisOp) (reply : Reply) : Except LedgerError Reservation :=
  match op with
  | .reserve r limit => RedisConfig.onReserved r limit reply
  | _ => .error (.unavailable "")

def grantOnFault (cfg : RedisConfig) (op : RedisOp) (detail : String) :
    Except LedgerError Reservation :=
  match op with
  | .reserve r _ => cfg.onReserveFault r detail
  | _ => .error (.unavailable detail)

def step (cfg : RedisConfig) (s : RedisFleet) : FleetAct → Option RedisFleet
  | .call a =>
      match s.opOf a with
      | none => none
      | some op => some { s with calls := s.calls ++ [{ op }] }
  | .execute i =>
      match s.calls[i]? with
      | none => none
      | some c =>
          if c.queued then
            let (reply, server) := s.server.run (c.op.script cfg)
            some (charge
              { s with server, calls := s.calls.set i { c with queued := false, reply := some reply } }
              c.op.userId (c.op.excess cfg s.server))
          else none
  | .resume i =>
      match s.calls[i]? with
      | none => none
      | some c =>
          match c.awaited, c.reply with
          | true, some reply =>
              some (finish { s with calls := s.calls.set i { c with awaited := false } } c.op
                (grantOf c.op reply))
          | _, _ => none
  | .fault i detail =>
      match s.calls[i]? with
      | none => none
      | some c =>
          if c.awaited then
            some (finish { s with calls := s.calls.set i { c with awaited := false } } c.op
              (grantOnFault cfg c.op detail))
          else none
  | .clock t => some { s with server := { s.server with clock := t } }

/-- The run condition: the methods are called on the user's terms, with amounts that the
members' text carries. -/
def OnTerms (user : String) (limit : ℚ) (_ : RedisFleet) : FleetAct → Prop
  | .call a => a.OnTerms user limit ∧ a.InUnits
  | _ => True

/-- The user's sorted set, against the limit and the overrun; and the calls in progress are
on the user's terms. -/
structure Bounded (cfg : RedisConfig) (user : String) (limit : ℚ) (s : RedisFleet) : Prop where
  overrun : 0 ≤ s.overrun user
  within : Within (limit + epsilon + s.overrun user) (s.server.stored (cfg.spendKey user))
  terms : ∀ c ∈ s.calls, c.op.OnTerms user limit

section Steps

variable {cfg : RedisConfig} {user : String} {limit : ℚ} {s s' : RedisFleet}

/-- A method called on the user's terms makes a call on these terms. -/
theorem opOf_terms {a : LedgerAct} {op : RedisOp} (made : s.opOf a = some op)
    (terms : a.OnTerms user limit) (units : a.InUnits) : op.OnTerms user limit := by
  cases a with
  | reserve id u amount l now =>
      cases made
      exact ⟨units, terms.2⟩
  | settle h c now =>
      obtain ⟨r, -, rfl⟩ := Option.map_eq_some_iff.mp made
      exact units
  | release h =>
      obtain ⟨r, -, rfl⟩ := Option.map_eq_some_iff.mp made
      trivial
  | spent u now =>
      cases made
      trivial

/-- The calls after one of them has moved on. -/
theorem terms_set {i : ℕ} {c : RedisCall} (terms : ∀ c ∈ s.calls, c.op.OnTerms user limit)
    (here : s.calls[i]? = some c) (c' : RedisCall) (same : c'.op = c.op) :
    ∀ d ∈ s.calls.set i c', d.op.OnTerms user limit := by
  intro d mem
  rcases List.mem_or_eq_of_mem_set mem with old | rfl
  · exact terms d old
  · rw [same]
    exact terms c (List.mem_of_getElem? here)

/-- Finishing a call changes neither the server nor the overrun nor the calls. -/
theorem finish_frame (op : RedisOp) (granted : Except LedgerError Reservation) :
    (s.finish op granted).server = s.server ∧ (s.finish op granted).overrun = s.overrun ∧
      (s.finish op granted).calls = s.calls := by
  unfold finish
  split
  · split <;> exact ⟨rfl, rfl, rfl⟩
  · exact ⟨rfl, rfl, rfl⟩
  · exact ⟨rfl, rfl, rfl⟩
  · exact ⟨rfl, rfl, rfl⟩

theorem Bounded.finish {calls : List RedisCall} {op : RedisOp}
    {granted : Except LedgerError Reservation} (bounded : s.Bounded cfg user limit)
    (terms : ∀ c ∈ calls, c.op.OnTerms user limit) :
    (RedisFleet.finish { s with calls } op granted).Bounded cfg user limit := by
  obtain ⟨server, overrun, same⟩ := finish_frame (s := { s with calls }) op granted
  refine ⟨?_, ?_, ?_⟩
  · rw [overrun]
    exact bounded.overrun
  · rw [server, overrun]
    exact bounded.within
  · rw [same]
    exact terms

/-- What the execution of one call leaves of the user's sorted set. -/
theorem within_execute {op : RedisOp} (bounded : s.Bounded cfg user limit)
    (terms : op.OnTerms user limit) (same : op.userId = user) :
    Within (limit + epsilon + (s.overrun user + op.excess cfg s.server))
      ((s.server.run (op.script cfg)).2.stored (cfg.spendKey user)) := by
  obtain ⟨overrun, within, -⟩ := bounded
  subst same
  cases op with
  | reserve r l =>
      obtain ⟨units, atLimit⟩ := terms
      simp only [RedisOp.excess, add_zero]
      refine RedisServer.within_reserve within ?_ (weight_memberOf units) units.nonneg
      rw [atLimit rfl]
      exact le_add_of_nonneg_right overrun
  | settle h r c now =>
      simp only [RedisOp.excess]
      rw [← add_assoc]
      exact RedisServer.within_settle within terms
  | release h r =>
      simp only [RedisOp.excess, add_zero]
      exact (within.dropFirst r.id).mono (sub_le_self _ (within.dropped_nonneg r.id))
  | spent userId now =>
      simp only [RedisOp.excess, add_zero]
      exact within.prune _

theorem script_key (op : RedisOp) : (op.script cfg).key = cfg.spendKey op.userId := by
  cases op <;> rfl

theorem Bounded.execute {i : ℕ} {c : RedisCall} {reply : Option Reply}
    (bounded : s.Bounded cfg user limit) (here : s.calls[i]? = some c) :
    (charge
      { s with
        server := (s.server.run (c.op.script cfg)).2
        calls := s.calls.set i { c with queued := false, reply } }
      c.op.userId (c.op.excess cfg s.server)).Bounded cfg user limit := by
  have terms := bounded.terms c (List.mem_of_getElem? here)
  have calls := terms_set bounded.terms here { c with queued := false, reply } rfl
  by_cases same : user = c.op.userId
  · have within := within_execute bounded terms same.symm
    subst same
    refine ⟨?_, ?_, calls⟩
    · simp only [charge, Function.update_self]
      have positive : 0 ≤ c.op.excess cfg s.server := by
        unfold RedisOp.excess
        split
        · exact excess_nonneg _ _
        · exact le_rfl
      linarith [bounded.overrun]
    · simpa only [charge, Function.update_self] using within
  · refine ⟨?_, ?_, calls⟩
    · simpa only [charge, Function.update_of_ne same] using bounded.overrun
    · have elsewhere : cfg.spendKey user ≠ (c.op.script cfg).key := by
        rw [script_key]
        exact fun eq => same (cfg.spendKey_injective eq)
      simp only [charge, Function.update_of_ne same,
        (RedisServer.sameBut_run s.server (c.op.script cfg)).stored elsewhere]
      exact bounded.within

theorem Bounded.step {a : FleetAct} (bounded : s.Bounded cfg user limit)
    (terms : s.OnTerms user limit a) (stepped : s.step cfg a = some s') :
    s'.Bounded cfg user limit := by
  cases a with
  | call a =>
      simp only [RedisFleet.step] at stepped
      split at stepped
      · cases stepped
      · rename_i op made
        cases stepped
        refine ⟨bounded.overrun, bounded.within, ?_⟩
        intro c mem
        rcases List.mem_append.mp mem with old | new
        · exact bounded.terms c old
        · rw [List.mem_singleton] at new
          subst new
          exact opOf_terms made terms.1 terms.2
  | execute i =>
      simp only [RedisFleet.step] at stepped
      split at stepped
      · cases stepped
      · rename_i c here
        obtain ⟨-, ⟨⟩⟩ := Option.ite_none_right_eq_some.mp stepped
        exact bounded.execute here
  | resume i =>
      simp only [RedisFleet.step] at stepped
      split at stepped
      · cases stepped
      · rename_i c here
        split at stepped
        · cases stepped
          exact bounded.finish (terms_set bounded.terms here _ rfl)
        · cases stepped
  | fault i detail =>
      simp only [RedisFleet.step] at stepped
      split at stepped
      · cases stepped
      · rename_i c here
        obtain ⟨-, ⟨⟩⟩ := Option.ite_none_right_eq_some.mp stepped
        exact bounded.finish (terms_set bounded.terms here _ rfl)
  | clock t =>
      cases stepped
      exact ⟨bounded.overrun, bounded.within, bounded.terms⟩

end Steps

end RedisFleet

/-! ### Both backends -/

/-- In both ledgers what is stored for the user is at most the limit, the tolerance and the
overrun of the user's settles, and a reserve is refused only when it does not fit the window. -/
theorem overspend_only_from_overruns (windowSeconds : ℚ) (cfg : RedisConfig) (user : String)
    (limit : ℚ) (nonneg : 0 ≤ limit) :
    (∀ s, Runs.Reaches MemoryRun.step (fun _ a => a.OnTerms user limit) (.start windowSeconds) s →
      amounts (s.ledger.spend user) ≤ limit + epsilon + s.overrun user ∧
        ∀ id amount now e, (s.ledger.reserve id user amount limit now).1 = .error e →
          limit + epsilon < amounts (s.ledger.inWindow user now) + amount) ∧
    (∀ s, Runs.Reaches (RedisFleet.step cfg) (RedisFleet.OnTerms user limit) {} s →
      (s.server.stored (cfg.spendKey user)).sumBy weight ≤ limit + epsilon + s.overrun user ∧
        ∀ c ∈ s.calls, ∀ r l total, c.op = .reserve r l → r.userId = user →
          (s.server.run (c.op.script cfg)).1 = .reserved false total →
            limit + epsilon <
              s.server.windowSum (cfg.spendKey user) r.createdAt cfg.windowSeconds + r.amount) := by
  have positive : 0 ≤ limit + epsilon + 0 := by
    rw [add_zero]
    exact add_nonneg nonneg epsilon_nonneg
  constructor
  · intro s reached
    have bounded : s.Bounded user limit := by
      apply reached.invariant ⟨fun e mem => absurd mem List.not_mem_nil, le_rfl, positive⟩
      intro s a s' bounded terms stepped
      exact bounded.step terms stepped
    refine ⟨bounded.total, ?_⟩
    intro id amount now e refused
    rcases Ledger.reserve_cases (l := s.ledger) id user amount limit now with ⟨exceeds, -⟩ | ⟨-, eq⟩
    · exact exceeds
    · rw [eq] at refused
      cases refused
  · intro s reached
    have bounded : s.Bounded cfg user limit := by
      refine reached.invariant
        ⟨le_rfl, Within.empty positive, fun c mem => absurd mem List.not_mem_nil⟩ ?_
      intro s a s' bounded terms stepped
      exact bounded.step terms stepped
    refine ⟨bounded.within.total, ?_⟩
    intro c mem r l total op same refused
    have terms := bounded.terms c mem
    rw [op] at terms refused
    subst same
    have exceeds := RedisServer.refused_only_over refused
    rw [terms.2 rfl] at exceeds
    exact exceeds

/-- A dollar's limit, a hold of 60 cents and a bill of 90. -/
def overrunActs : List LedgerAct :=
  [.reserve 0 "u" (6 / 10) 1 0,
    .settle 0 { cost := 9 / 10, model := "small", inputTokens := 1, outputTokens := 1 } 5,
    .reserve 1 "u" (3 / 10) 1 6]

theorem overspend_at_one_dollar :
    (∃ s, Runs.Reaches MemoryRun.step (fun _ a => a.OnTerms "u" 1) (.start 60) s ∧
      s.overrun "u" = 3 / 10 ∧ amounts (s.ledger.spend "u") ≤ 1 + epsilon + s.overrun "u") ∧
    (∃ s, Runs.Reaches (RedisFleet.step {}) (RedisFleet.OnTerms "u" 1) {} s ∧
      s.overrun "u" = 3 / 10 ∧
        (s.server.stored "llm:spend:u").sumBy weight ≤ 1 + epsilon + s.overrun "u") := by
  obtain ⟨memory, redis⟩ := overspend_only_from_overruns 60 {} "u" 1 (by norm_num)
  have units : ∀ a ∈ overrunActs, a.OnTerms "u" 1 ∧ a.InUnits := by
    intro a mem
    simp only [overrunActs, List.mem_cons, List.not_mem_nil, or_false] at mem
    rcases mem with rfl | rfl | rfl
    · exact ⟨⟨by norm_num, fun _ => rfl⟩, 6 * 10 ^ 9, by norm_num⟩
    · exact ⟨by norm_num [LedgerAct.OnTerms], 9 * 10 ^ 9, by norm_num⟩
    · exact ⟨⟨by norm_num, fun _ => rfl⟩, 3 * 10 ^ 9, by norm_num⟩
  constructor
  · have holds : Runs.execHolds MemoryRun.step (fun _ a => a ∈ overrunActs) (.start 60) overrunActs
        (fun s => decide (s.overrun "u" = 3 / 10)) = true := by
      decide +kernel
    obtain ⟨s, run, overrun⟩ := Runs.exists_reaches_of_execHolds _ _ holds
    have reached : Runs.Reaches MemoryRun.step (fun _ a => a.OnTerms "u" 1) (.start 60) s :=
      run.weaken fun _ a mem => (units a mem).1
    exact ⟨s, reached, of_decide_eq_true overrun, (memory s reached).1⟩
  · let acts : List FleetAct :=
      [.call overrunActs[0], .execute 0, .resume 0, .call overrunActs[1], .execute 1]
    have holds : Runs.execHolds (RedisFleet.step {}) (fun _ a => a ∈ acts) {} acts
        (fun s => decide (s.overrun "u" = 3 / 10)) = true := by
      decide +kernel
    obtain ⟨s, run, overrun⟩ := Runs.exists_reaches_of_execHolds _ _ holds
    have reached : Runs.Reaches (RedisFleet.step {}) (RedisFleet.OnTerms "u" 1) {} s := by
      apply run.weaken
      intro s a mem
      simp only [acts, List.mem_cons, List.not_mem_nil, or_false] at mem
      rcases mem with rfl | rfl | rfl | rfl | rfl
      · exact units _ (List.getElem_mem _)
      · trivial
      · trivial
      · exact units _ (List.getElem_mem _)
      · trivial
    exact ⟨s, reached, of_decide_eq_true overrun, (redis s reached).1⟩

end LLMInference
