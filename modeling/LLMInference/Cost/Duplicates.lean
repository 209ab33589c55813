import LLMInference.Cost.Redis
import LLMInference.Lib.Pool
import LLMInference.Lib.Runs

/-!
Duplicate settles and releases of one reservation (`app/cost/redis_ledger.py`).

Any number of tasks call `settle` and `release` on the same `Reservation`. A call reads
`closed`, sends its script, and sets `closed` when the reply is there; between the two, other
calls still read `closed` as false. Both scripts match whatever the identifier's prefix finds,
a hold or a charge.

* `RedisServer.Single`: at most one member of a reservation.
* `Orderly`: what the calls have done while no script has followed a settle's.
* `duplicates_are_harmless`: then the final contents are those of one call alone.
-/

namespace LLMInference

open Runs

namespace RedisServer

/-- The members under `key` that belong to the entry are at most one. -/
def Single (s : RedisServer) (key : String) (id : ℕ) : Prop :=
  ∀ m ∈ (s.zset key).members, ∀ m' ∈ (s.zset key).members,
    belongsTo id m = true → belongsTo id m' = true → m = m'

section Single

variable {s : RedisServer} {key : String} {id id' : ℕ}

theorem mem_zrange {m : String} : m ∈ s.zrange key ↔ m ∈ (s.zset key).members :=
  (ZSet.range_perm _).mem_iff

/-- Once a member is dropped, none is left. -/
theorem absent_dropFirst (single : s.Single key id) :
    ∀ m ∈ ((s.dropFirst key id).zset key).members, belongsTo id m = false := by
  intro m mem
  unfold dropFirst at mem
  cases found : (s.zrange key).find? (belongsTo id) with
  | none =>
      rw [found] at mem
      have other := List.find?_eq_none.mp found m (mem_zrange.mpr mem)
      exact Bool.not_eq_true _ ▸ other
  | some first =>
      rw [found] at mem
      simp only [zrem, zset_putZset_self] at mem
      have old : m ∈ (s.zset key).members := ZSet.mem_members_restrict mem
      have here : first ∈ (s.zset key).members :=
        mem_zrange.mp (List.mem_of_find?_eq_some found)
      cases belongs : belongsTo id m with
      | false => rfl
      | true =>
          have same := single m old first here belongs (List.find?_some found)
          obtain ⟨e, kept, name⟩ := List.mem_map.mp mem
          have apart := of_decide_eq_true (List.mem_filter.mp kept).2
          exact absurd (name.trans same) apart

/-- Without a member of the entry there is nothing to drop. -/
theorem dropFirst_of_absent (absent : ∀ m ∈ (s.zset key).members, belongsTo id m = false) :
    s.dropFirst key id = s := by
  unfold dropFirst
  have none : (s.zrange key).find? (belongsTo id) = none := by
    apply List.find?_eq_none.mpr
    intro m mem
    rw [absent m (mem_zrange.mp mem)]
    exact Bool.false_ne_true
  rw [none]

/-- A reserve of a fresh identifier leaves one member of it. -/
theorem single_of_reserved {now window amount limit total : ℚ} {member : String}
    (fresh : ∀ m ∈ (s.zset key).members, belongsTo id m = false)
    (granted : (s.run (.reserve key now window amount limit member)).1 = .reserved true total) :
    (s.run (.reserve key now window amount limit member)).2.Single key id := by
  have pruned : ∀ m ∈ ((s.zremrangebyscore key (now - window)).zset key).members,
      belongsTo id m = false := by
    intro m mem
    rw [zremrangebyscore, zset_putZset_self] at mem
    exact fresh m (ZSet.mem_members_restrict mem)
  simp only [run] at granted ⊢
  split
  · rename_i exceeds
    simp [exceeds] at granted
  · intro m mem m' mem' mine mine'
    have only : ∀ x ∈ ((((s.zremrangebyscore key (now - window)).zadd key now member).expireZset key
        (ttl window)).zset key).members, belongsTo id x = true → x = member := by
      intro x inside belongs
      have added : x ∈ (((s.zremrangebyscore key (now - window)).zset key).add member now).members := by
        rcases zset_cases (((s.zremrangebyscore key (now - window)).zadd key now member).expireZset
          key (ttl window)) key with eq | eq
        · rw [eq] at inside
          rcases stored_expireZset_self ((s.zremrangebyscore key (now - window)).zadd key now member)
            key (ttl window) with kept | gone
          · rw [kept, zadd, zset_putZset_self] at inside
            exact inside
          · rw [gone] at inside
            cases inside
        · rw [eq] at inside
          cases inside
      rcases ZSet.mem_members_add added with new | old
      · exact new
      · exact Bool.noConfusion ((pruned x old).symm.trans belongs)
    exact (only m mem mine).trans (only m' mem' mine').symm

/-- Dropping twice is dropping once. -/
theorem dropFirst_dropFirst (single : s.Single key id) :
    (s.dropFirst key id).dropFirst key id = s.dropFirst key id :=
  dropFirst_of_absent (absent_dropFirst single)

end Single

end RedisServer

/-- The field `total` of a usage hash. -/
def RedisServer.total (s : RedisServer) (usageKey : String) : ℚ :=
  (((s.totals usageKey).filter (·.live s.clock)).map (·.value)).getD 0

/-! ### The calls -/

inductive DuplicateOp where
  /-- `settle`, with its reading of the clock. -/
  | settle (c : Charge) (now : ℚ)
  | release
  deriving DecidableEq, Repr

namespace DuplicateOp

def script (cfg : RedisConfig) (r : Reservation) : DuplicateOp → Script
  | .settle c now => cfg.settleScript r c.cost now
  | .release => cfg.releaseScript r

/-- What the method appends to the local records once the reply is there. -/
def recorded (cfg : RedisConfig) (r : Reservation) (records : List UsageRecord) :
    DuplicateOp → List UsageRecord
  | .settle c now => RedisLedger.pushRecord cfg.maxRecords records (c.record r now)
  | .release => records

def settles : DuplicateOp → Bool
  | .settle .. => true
  | .release => false

/-- The call alone: what the method leaves when nothing runs in between. -/
def alone (cfg : RedisConfig) (l : RedisLedger) (r : Reservation) : DuplicateOp → RedisLedger
  | .settle c now => (RedisLedger.settle cfg .none l r c now).2.2
  | .release => (RedisLedger.release cfg .none l r).2.2

theorem alone_eq {r : Reservation} (opened : r.closed = false) (cfg : RedisConfig)
    (l : RedisLedger) (op : DuplicateOp) :
    op.alone cfg l r =
      { server := (l.server.run (op.script cfg r)).2
        localRecords := op.recorded cfg r l.localRecords } := by
  cases op with
  | settle c now =>
      simp only [alone, RedisLedger.settle, opened, Bool.false_eq_true, if_false]
      rfl
  | release =>
      simp only [alone, RedisLedger.release, opened, Bool.false_eq_true, if_false]
      rfl

end DuplicateOp

inductive CallStage where
  /-- `closed` was read as false, and the script is under way. -/
  | sent
  | executed
  | returned
  /-- `closed` was read as true: the call returned at once. -/
  | skipped
  deriving DecidableEq, Repr

structure DuplicateCall where
  op : DuplicateOp
  stage : CallStage
  deriving DecidableEq, Repr

/-- The calls on one reservation, the replica's ledger and its server. -/
structure DuplicateRun where
  ledger : RedisLedger
  reservation : Reservation
  calls : List DuplicateCall := []
  /-- The call whose settle script was executed last: a history. -/
  settler : Option ℕ := none

inductive DuplicateAct where
  /-- A task calls a method: it reads `closed`. -/
  | call (op : DuplicateOp)
  /-- The server executes the script of call `i`. -/
  | execute (i : ℕ)
  /-- Call `i` gets its reply: it sets `closed`, and returns. -/
  | resume (i : ℕ)
  deriving DecidableEq, Repr

namespace DuplicateRun

def start (l : RedisLedger) (r : Reservation) : DuplicateRun := { ledger := l, reservation := r }

def step (cfg : RedisConfig) (s : DuplicateRun) : DuplicateAct → Option DuplicateRun
  | .call op =>
      let stage := if s.reservation.closed then CallStage.skipped else .sent
      some { s with calls := s.calls ++ [{ op, stage }] }
  | .execute i =>
      match s.calls[i]? with
      | some ⟨op, .sent⟩ =>
          some { s with
            ledger := { s.ledger with
              server := (s.ledger.server.run (op.script cfg s.reservation)).2 }
            calls := s.calls.set i { op, stage := .executed }
            settler := if op.settles then some i else s.settler }
      | _ => none
  | .resume i =>
      match s.calls[i]? with
      | some ⟨op, .executed⟩ =>
          some { s with
            ledger := { s.ledger with
              localRecords := op.recorded cfg s.reservation s.ledger.localRecords }
            reservation := { s.reservation with closed := true }
            calls := s.calls.set i { op, stage := .returned } }
      | _ => none

/-- No script is executed after a settle's. -/
def SettleLast (s : DuplicateRun) : DuplicateAct → Prop
  | .execute _ => s.settler = none
  | _ => True

instance (s : DuplicateRun) : ∀ a, Decidable (s.SettleLast a)
  | .execute _ => inferInstanceAs (Decidable (s.settler = none))
  | .call _ => isTrue trivial
  | .resume _ => isTrue trivial

/-- Every call has returned. -/
def Finished (s : DuplicateRun) : Prop :=
  ∀ c ∈ s.calls, c.stage = .returned ∨ c.stage = .skipped

instance (s : DuplicateRun) : Decidable s.Finished :=
  inferInstanceAs (Decidable (∀ c ∈ s.calls, _))

end DuplicateRun

/-- The script of the call has been executed. -/
def DuplicateCall.Ran (c : DuplicateCall) : Prop := c.stage = .executed ∨ c.stage = .returned

namespace DuplicateRun

/-- What the calls have done to the ledger `l` they started from. -/
inductive Effect (cfg : RedisConfig) (l : RedisLedger) (r : Reservation) (s : DuplicateRun) : Prop
  | nothing (settler : s.settler = none) (ledger : s.ledger = l) (none : ∀ c ∈ s.calls, ¬ c.Ran)
  | released (settler : s.settler = none)
      (ledger : s.ledger =
        { l with server := l.server.dropFirst (cfg.spendKey r.userId) r.id })
      (only : ∀ c ∈ s.calls, c.Ran → c.op = .release) (some : ∃ c ∈ s.calls, c.Ran)
  | settled {i : ℕ} {c : Charge} {now : ℚ} {stage : CallStage} (settler : s.settler = some i)
      (here : s.calls[i]? = some ⟨.settle c now, stage⟩)
      (server : s.ledger.server = (l.server.run (cfg.settleScript r c.cost now)).2)
      (records : (stage = .executed ∧ s.ledger.localRecords = l.localRecords) ∨
        (stage = .returned ∧ s.ledger.localRecords =
          RedisLedger.pushRecord cfg.maxRecords l.localRecords (c.record r now)))
      (only : ∀ j c', s.calls[j]? = some c' → j ≠ i → c'.Ran → c'.op = .release)

/-- The calls so far, while no script has followed a settle's. -/
structure Orderly (cfg : RedisConfig) (l : RedisLedger) (r : Reservation) (s : DuplicateRun) :
    Prop where
  same : s.reservation = { r with closed := s.reservation.closed }
  closed : s.reservation.closed = true → ∃ c ∈ s.calls, c.stage = .returned
  skipped : ∀ c ∈ s.calls, c.stage = .skipped → s.reservation.closed = true
  effect : Effect cfg l r s

section Steps

variable {cfg : RedisConfig} {l : RedisLedger} {r : Reservation} {s s' : DuplicateRun}

/-- A call that was only sent counts for nothing yet. -/
theorem Effect.call (effect : Effect cfg l r s) {c : DuplicateCall} (fresh : ¬ c.Ran) :
    Effect cfg l r { s with calls := s.calls ++ [c] } := by
  have old : ∀ b ∈ s.calls ++ [c], b.Ran → b ∈ s.calls := by
    intro b mem ran
    rcases List.mem_append.mp mem with before | new
    · exact before
    · exact absurd (List.mem_singleton.mp new ▸ ran) fresh
  cases effect with
  | nothing settler ledger none =>
      refine .nothing settler ledger ?_
      exact fun b mem ran => none b (old b mem ran) ran
  | released settler ledger only some =>
      refine .released settler ledger ?_ ?_
      · exact fun b mem ran => only b (old b mem ran) ran
      · obtain ⟨b, mem, ran⟩ := some
        exact ⟨b, List.mem_append_left _ mem, ran⟩
  | settled settler here server records only =>
      refine .settled settler (Pool.get_old here _) server records ?_
      intro j b found ne ran
      rcases Pool.get_spawn found with before | ⟨-, rfl⟩
      · exact only j b before ne ran
      · exact absurd ran fresh

/-- The first scripts are releases, or the first settle. -/
theorem Effect.execute (single : l.server.Single (cfg.spendKey r.userId) r.id)
    (effect : Effect cfg l r s) (same : s.reservation = { r with closed := s.reservation.closed })
    (first : s.settler = none) {i : ℕ} {op : DuplicateOp} (here : s.calls[i]? = some ⟨op, .sent⟩) :
    Effect cfg l r
      { s with
        ledger := { s.ledger with
          server := (s.ledger.server.run (op.script cfg s.reservation)).2 }
        calls := s.calls.set i { op, stage := .executed }
        settler := if op.settles then some i else s.settler } := by
  -- What ran before was releases at most, and they leave the server as one release would.
  have before : ∀ (j : ℕ) (b : DuplicateCall), s.calls[j]? = some b → b.Ran → b.op = .release := by
    intro j b found ran
    cases effect with
    | nothing _ _ none => exact absurd ran (none b (List.mem_of_getElem? found))
    | released _ _ only _ => exact only b (List.mem_of_getElem? found) ran
    | settled settler => cases first.symm.trans settler
  have dropped : (s.ledger.server.dropFirst (cfg.spendKey r.userId) r.id) =
      l.server.dropFirst (cfg.spendKey r.userId) r.id := by
    cases effect with
    | nothing _ ledger _ => rw [ledger]
    | released _ ledger _ _ =>
        rw [ledger]
        exact RedisServer.dropFirst_dropFirst single
    | settled settler => cases first.symm.trans settler
  have records : s.ledger.localRecords = l.localRecords := by
    cases effect with
    | nothing _ ledger _ => rw [ledger]
    | released _ ledger _ _ => rw [ledger]
    | settled settler => cases first.symm.trans settler
  have changed := Pool.get_set_self here ({ op, stage := .executed } : DuplicateCall)
  cases op with
  | release =>
      refine .released first ?_ ?_ ?_
      · show ({ s.ledger with server := _ } : RedisLedger) = _
        rw [same]
        simp only [DuplicateOp.script, RedisConfig.releaseScript, RedisServer.run]
        rw [dropped, records]
      · intro b mem ran
        obtain ⟨j, found⟩ := List.mem_iff_getElem?.mp mem
        rcases Pool.get_set found with ⟨-, rfl⟩ | ⟨-, old⟩
        · rfl
        · exact before j b old ran
      · exact ⟨_, List.mem_of_getElem? changed, .inl rfl⟩
  | settle c now =>
      refine .settled rfl changed ?_ ?_ ?_
      · show (s.ledger.server.run (cfg.settleScript s.reservation c.cost now)).2 = _
        rw [same]
        simp only [RedisConfig.settleScript, RedisServer.run]
        rw [dropped]
      · exact .inl ⟨rfl, records⟩
      · intro j b found ne ran
        rcases Pool.get_set found with ⟨eq, -⟩ | ⟨-, old⟩
        · exact absurd eq ne
        · exact before j b old ran

/-- A reply changes the local records only, and only a settle's does. -/
theorem Effect.resume (effect : Effect cfg l r s)
    (same : s.reservation = { r with closed := s.reservation.closed }) {i : ℕ} {op : DuplicateOp}
    (here : s.calls[i]? = some ⟨op, .executed⟩) :
    Effect cfg l r
      { s with
        ledger := { s.ledger with
          localRecords := op.recorded cfg s.reservation s.ledger.localRecords }
        reservation := { s.reservation with closed := true }
        calls := s.calls.set i { op, stage := .returned } } := by
  have ran : DuplicateCall.Ran ⟨op, .executed⟩ := .inl rfl
  have changed := Pool.get_set_self here ({ op, stage := .returned } : DuplicateCall)
  cases effect with
  | nothing _ _ none => exact absurd ran (none _ (List.mem_of_getElem? here))
  | released settler ledger only _ =>
      cases only _ (List.mem_of_getElem? here) ran
      refine .released settler ledger ?_ ?_
      · intro b mem ran'
        obtain ⟨j, found⟩ := List.mem_iff_getElem?.mp mem
        rcases Pool.get_set found with ⟨-, rfl⟩ | ⟨-, old⟩
        · rfl
        · exact only b (List.mem_of_getElem? old) ran'
      · exact ⟨_, List.mem_of_getElem? changed, .inr rfl⟩
  | settled settler there server records only =>
      rename_i k c now stage
      have releases : ∀ (j : ℕ) (b : DuplicateCall),
          (s.calls.set i { op, stage := .returned })[j]? = some b → j ≠ k → b.Ran →
            b.op = .release := by
        intro j b found ne ran'
        rcases Pool.get_set found with ⟨eq, rfl⟩ | ⟨-, old⟩
        · show op = .release
          exact only i ⟨op, .executed⟩ here (eq ▸ ne) ran
        · exact only j b old ne ran'
      by_cases mine : i = k
      · subst mine
        cases here.symm.trans there
        rcases records with ⟨-, kept⟩ | ⟨returned, -⟩
        · refine .settled settler changed server (.inr ⟨rfl, ?_⟩) releases
          show RedisLedger.pushRecord cfg.maxRecords s.ledger.localRecords
            (c.record s.reservation now) = _
          rw [kept, same]
          rfl
        · cases returned
      · have release : op = .release := only i _ here mine ran
        subst release
        exact .settled settler ((List.getElem?_set_ne mine).trans there) server records releases

theorem Orderly.step (single : l.server.Single (cfg.spendKey r.userId) r.id)
    (orderly : Orderly cfg l r s) {a : DuplicateAct} (last : s.SettleLast a)
    (stepped : s.step cfg a = some s') : Orderly cfg l r s' := by
  obtain ⟨same, closed, skipped, effect⟩ := orderly
  cases a with
  | call op =>
      cases stepped
      refine ⟨same, ?_, ?_, effect.call ?_⟩
      · intro shut
        obtain ⟨c, mem, returned⟩ := closed shut
        exact ⟨c, List.mem_append_left _ mem, returned⟩
      · intro c mem skip
        rcases List.mem_append.mp mem with old | new
        · exact skipped c old skip
        · rw [List.mem_singleton.mp new] at skip
          by_contra opened
          simp [opened] at skip
      · unfold DuplicateCall.Ran
        split <;> simp
  | execute i =>
      simp only [DuplicateRun.step] at stepped
      split at stepped
      · rename_i op here
        cases stepped
        refine ⟨same, ?_, ?_, effect.execute single same last here⟩
        · intro shut
          obtain ⟨c, mem, returned⟩ := closed shut
          obtain ⟨j, found⟩ := List.mem_iff_getElem?.mp mem
          have ne : i ≠ j := by
            rintro rfl
            cases here.symm.trans found
            cases returned
          exact ⟨c, List.mem_of_getElem? ((List.getElem?_set_ne ne).trans found), returned⟩
        · intro c mem skip
          rcases List.mem_or_eq_of_mem_set mem with old | rfl
          · exact skipped c old skip
          · cases skip
      · cases stepped
  | resume i =>
      simp only [DuplicateRun.step] at stepped
      split at stepped
      · rename_i op here
        cases stepped
        refine ⟨?_, ?_, ?_, effect.resume same here⟩
        · rw [same]
        · intro _
          exact ⟨_, List.mem_of_getElem? (Pool.get_set_self here _), rfl⟩
        · exact fun _ _ _ => rfl
      · cases stepped

end Steps

/-- When no script is executed after a settle's, any number of calls leave the spend set, the
lifetime total and the local records as one of them alone would. -/
theorem duplicates_are_harmless (cfg : RedisConfig) (l : RedisLedger) (r : Reservation)
    (opened : r.closed = false) (single : l.server.Single (cfg.spendKey r.userId) r.id)
    {s : DuplicateRun} (reached : Reaches (step cfg) SettleLast (start l r) s) (called : s.calls ≠ [])
    (finished : s.Finished) : ∃ c ∈ s.calls, s.ledger = c.op.alone cfg l r := by
  have orderly : Orderly cfg l r s := by
    apply reached.invariant
    · refine ⟨rfl, ?_, List.forall_mem_nil _, .nothing rfl rfl (List.forall_mem_nil _)⟩
      intro shut
      cases opened.symm.trans shut
    · intro s a s' orderly last stepped
      exact orderly.step single last stepped
  have some : ∃ c ∈ s.calls, c.stage = .returned := by
    obtain ⟨c, mem⟩ := List.exists_mem_of_ne_nil _ called
    rcases finished c mem with returned | skipped
    · exact ⟨c, mem, returned⟩
    · exact orderly.closed (orderly.skipped c mem skipped)
  cases orderly.effect with
  | nothing _ _ none =>
      obtain ⟨c, mem, returned⟩ := some
      exact absurd (.inr returned) (none c mem)
  | released _ ledger only _ =>
      obtain ⟨c, mem, returned⟩ := some
      refine ⟨c, mem, ?_⟩
      rw [only c mem (.inr returned), ledger, DuplicateOp.alone_eq opened]
      rfl
  | settled _ here server records _ =>
      refine ⟨_, List.mem_of_getElem? here, ?_⟩
      rcases records with ⟨executed, -⟩ | ⟨-, kept⟩
      · rcases finished _ (List.mem_of_getElem? here) with returned | skipped
        · cases executed.symm.trans returned
        · cases executed.symm.trans skipped
      · rw [DuplicateOp.alone_eq opened]
        exact congrArg₂ RedisLedger.mk server kept

/-! ### Two calls at once -/

/-- A hold of half a dollar on an empty server. -/
def halfHold : Reservation := { id := 0, userId := "u", amount := 1 / 2, createdAt := 0 }

def halfHeld : RedisLedger := (RedisLedger.reserve {} .none {} 0 "u" (1 / 2) 1 0).2

theorem halfHeld_single : halfHeld.server.Single (RedisConfig.spendKey {} "u") 0 :=
  RedisServer.single_of_reserved (List.forall_mem_nil _)
    (show (RedisServer.run _ _).1 = .reserved true 0 by decide +kernel)

def smallCharge : Charge := { cost := 1 / 4, model := "small", inputTokens := 1, outputTokens := 1 }

/-- Both calls read `closed`; the release's script is executed first. -/
def releaseFirst : List DuplicateAct :=
  [.call (.settle smallCharge 5), .call .release, .execute 1, .execute 0, .resume 0, .resume 1,
    .call (.settle smallCharge 6)]

theorem duplicates_are_harmless_release_first :
    ∃ s, Reaches (step {}) SettleLast (start halfHeld halfHold) s ∧ s.calls.length = 3 ∧
      ∃ c ∈ s.calls, s.ledger = c.op.alone {} halfHeld halfHold := by
  have holds : execHolds (step {}) SettleLast (start halfHeld halfHold) releaseFirst
      (fun s => decide (s.calls.length = 3 ∧ s.Finished)) = true := by
    decide +kernel
  obtain ⟨s, reached, good⟩ := exists_reaches_of_execHolds _ _ holds
  obtain ⟨three, finished⟩ := of_decide_eq_true good
  have called : s.calls ≠ [] := List.ne_nil_of_length_pos (three.symm ▸ by decide)
  exact ⟨s, reached, three, duplicates_are_harmless {} halfHeld halfHold rfl halfHeld_single reached
    called finished⟩

/-- Both calls read `closed`; the settle's script is executed first. -/
def settleFirst : List DuplicateAct :=
  [.call (.settle smallCharge 5), .call .release, .execute 0, .execute 1, .resume 0, .resume 1]

/-- The release erases the settled charge: the spend set is empty, the lifetime total is the
charge, and neither call alone leaves that. -/
theorem release_erases_a_settled_charge :
    ∃ s, Reaches (step {}) Always (start halfHeld halfHold) s ∧ s.Finished ∧ s.calls ≠ [] ∧
      (s.ledger.server.zset "llm:spend:u").entries = [] ∧
      s.ledger.server.total "llm:usage:u" = 1 / 4 ∧
      ∀ c ∈ s.calls, s.ledger ≠ c.op.alone {} halfHeld halfHold := by
  have holds : execHolds (step {}) Always (start halfHeld halfHold) settleFirst (fun s =>
      decide (s.Finished ∧ s.calls ≠ [] ∧ (s.ledger.server.zset "llm:spend:u").entries = [] ∧
        s.ledger.server.total "llm:usage:u" = 1 / 4 ∧
        ∀ c ∈ s.calls,
          ((c.op.alone {} halfHeld halfHold).server.zset "llm:spend:u").entries ≠ [] ∨
            (c.op.alone {} halfHeld halfHold).server.total "llm:usage:u" ≠ 1 / 4)) = true := by
    decide +kernel
  obtain ⟨s, reached, good⟩ := exists_reaches_of_execHolds _ _ holds
  obtain ⟨finished, called, empty, total, differ⟩ := of_decide_eq_true good
  refine ⟨s, reached, finished, called, empty, total, ?_⟩
  intro c mem same
  rcases differ c mem with entries | charged
  · exact entries (same ▸ empty)
  · exact charged (same ▸ total)

end DuplicateRun

end LLMInference
