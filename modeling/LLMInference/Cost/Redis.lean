import LLMInference.Cost.Base
import LLMInference.Lib.Hex
import LLMInference.Lib.ZSet
import Mathlib.Data.String.Basic
import Mathlib.Tactic.Linarith

/-!
The Redis ledger (`app/cost/redis_ledger.py`).

* `RedisServer`: the keys the ledger uses, a sorted set or a counter each, with their time
  to live, and the commands its scripts issue. An expired key reads as absent.
* `Script.run`: the three Lua scripts, each one atomic execution on the server.
* `RedisLedger`: a client. Every call sends a script and then learns its reply, or an
  exception; `backend` puts the two together.

Numbers are exact. A member is the text `"{entry_id}:{amount}"`, and its amount is what
the scripts and `_sum_members` read back from that text.
-/

namespace LLMInference

/-- A non-negative multiple of `10 ^ (-10)`, which the members' text carries without loss. -/
def Units (x : ℚ) : Prop := ∃ n : ℕ, x = n / 10 ^ 10

theorem Units.nonneg {x : ℚ} (units : Units x) : 0 ≤ x := by
  obtain ⟨n, rfl⟩ := units
  positivity

/-! ### Members -/

/-- `uuid.uuid4().hex`. -/
def uuidHex (id : ℕ) : List Char := Hex.hexText 32 id

/-- `f"{entry_id}:{amount:.10f}"`. -/
def memberOf (id : ℕ) (amount : ℚ) : String :=
  String.ofList (uuidHex id ++ ':' :: Decimal.formatFixed 10 amount)

/-- The amount behind the first colon of a member, if a number stands there. -/
def amountOf (member : String) : Option ℚ :=
  match member.toList.dropWhile (· ≠ ':') with
  | [] => none
  | _ :: raw => Decimal.parseFixed raw

/-- The weight of a member in a sum: a malformed one is skipped. -/
def weight (member : String) : ℚ := (amountOf member).getD 0

/-- `_sum_members`, and the summing loop of the reserve script. -/
def sumMembers (members : List String) : ℚ := (members.map weight).sum

/-- `string.sub(member, 1, #prefix) == prefix` for the prefix `entry_id .. ':'`. -/
def belongsTo (id : ℕ) (member : String) : Bool := (uuidHex id ++ [':']).isPrefixOf member.toList

section Members

variable {id id' : ℕ} {amount : ℚ}

/-- The text carries the amount. -/
theorem weight_memberOf (units : Units amount) : weight (memberOf id amount) = amount := by
  obtain ⟨n, rfl⟩ := units
  have noColon : ∀ c ∈ uuidHex id, decide (c ≠ ':') = true := by
    intro c mem
    apply decide_eq_true
    rintro rfl
    exact Hex.colon_notMem_hexText 32 id mem
  have read : amountOf (memberOf id ((n : ℚ) / 10 ^ 10)) = some ((n : ℚ) / 10 ^ 10) := by
    rw [amountOf, memberOf, String.toList_ofList, List.dropWhile_append_of_pos noColon]
    exact Decimal.parseFixed_formatFixed (by decide) n
  rw [weight, read]
  rfl

/-- The text carries the identifier. -/
theorem belongsTo_memberOf : belongsTo id (memberOf id' amount) = true ↔ id = id' := by
  rw [belongsTo, memberOf, String.toList_ofList, List.isPrefixOf_iff_prefix]
  constructor
  · rintro ⟨rest, eq⟩
    rw [List.append_assoc] at eq
    have heads : (uuidHex id ++ ':' :: rest).takeWhile (· ≠ ':') =
        (uuidHex id' ++ ':' :: Decimal.formatFixed 10 amount).takeWhile (· ≠ ':') :=
      congrArg _ eq
    have cut : ∀ (i : ℕ) (tail : List Char),
        (uuidHex i ++ ':' :: tail).takeWhile (· ≠ ':') = uuidHex i := by
      intro i tail
      have noColon : ∀ c ∈ uuidHex i, decide (c ≠ ':') = true := by
        intro c mem
        apply decide_eq_true
        rintro rfl
        exact Hex.colon_notMem_hexText 32 i mem
      rw [List.takeWhile_append_of_pos noColon]
      simp
    rw [cut, cut] at heads
    exact Hex.hexText_injective 32 heads
  · rintro rfl
    exact ⟨Decimal.formatFixed 10 amount, by simp⟩

end Members

/-! ### The server -/

/-- A value and the server time after which it is gone. -/
structure Volatile (α : Type) where
  value : α
  deadline : Option ℚ

def Volatile.live {α : Type} (v : Volatile α) (clock : ℚ) : Bool :=
  v.deadline.all fun d => decide (clock ≤ d)

structure RedisServer where
  clock : ℚ := 0
  zsets : String → Option (Volatile (ZSet String)) := fun _ => none
  /-- The field `total` of the usage hashes. -/
  totals : String → Option (Volatile ℚ) := fun _ => none

namespace RedisServer

def liveZset (s : RedisServer) (key : String) : Option (Volatile (ZSet String)) :=
  (s.zsets key).filter (·.live s.clock)

/-- The sorted set under a key; an absent key is an empty set. -/
def zset (s : RedisServer) (key : String) : ZSet String :=
  ((s.liveZset key).map (·.value)).getD .empty

/-- Store a sorted set under a key, whose time to live stays. An empty set is deleted. -/
def putZset (s : RedisServer) (key : String) (z : ZSet String) : RedisServer :=
  let v := if z.entries = [] then none
    else some { value := z, deadline := (s.liveZset key).bind (·.deadline) }
  { s with zsets := Function.update s.zsets key v }

def zremrangebyscore (s : RedisServer) (key : String) (max : ℚ) : RedisServer :=
  s.putZset key ((s.zset key).removeUpTo max)

def zrange (s : RedisServer) (key : String) : List String := (s.zset key).range

def zadd (s : RedisServer) (key : String) (score : ℚ) (member : String) : RedisServer :=
  s.putZset key ((s.zset key).add member score)

def zrem (s : RedisServer) (key member : String) : RedisServer :=
  s.putZset key ((s.zset key).remove member)

/-- `EXPIRE` on a sorted set; a time that is not positive deletes the key. -/
def expireZset (s : RedisServer) (key : String) (seconds : ℤ) : RedisServer :=
  let v := if seconds ≤ 0 then none
    else (s.liveZset key).map fun v => { v with deadline := some (s.clock + seconds) }
  { s with zsets := Function.update s.zsets key v }

/-- `HINCRBYFLOAT key total amount`, then `EXPIRE key seconds`. -/
def addTotal (s : RedisServer) (key : String) (amount : ℚ) (seconds : ℤ) : RedisServer :=
  let before := (((s.totals key).filter (·.live s.clock)).map (·.value)).getD 0
  let v : Option (Volatile ℚ) := if seconds ≤ 0 then none
    else some { value := before + amount, deadline := some (s.clock + seconds) }
  { s with totals := Function.update s.totals key v }

end RedisServer

/-! ### What a command leaves under a key -/

namespace RedisServer

/-- The sorted set stored under a key, whether or not its time is over. -/
def stored (s : RedisServer) (key : String) : ZSet String :=
  ((s.zsets key).map (·.value)).getD .empty

section Stored

variable {s : RedisServer} {key other : String}

/-- A key reads as what is stored, or as absent once its time is over. -/
theorem zset_cases (s : RedisServer) (key : String) :
    s.zset key = s.stored key ∨ s.zset key = .empty := by
  unfold zset stored liveZset
  cases found : s.zsets key with
  | none => exact .inr rfl
  | some v =>
      by_cases live : v.live s.clock = true
      · left
        simp [Option.filter, live]
      · right
        simp [Option.filter, live]

@[simp] theorem stored_putZset_self (z : ZSet String) : (s.putZset key z).stored key = z := by
  unfold stored putZset
  by_cases none : z.entries = []
  · have same : z = .empty := by
      cases z
      cases none
      rfl
    simp [same, ZSet.empty]
  · simp [none]

/-- What a command stores is there to be read, for as long as the key was. -/
theorem liveZset_putZset {z : ZSet String} (some' : z.entries ≠ []) :
    (s.putZset key z).liveZset key =
      some { value := z, deadline := (s.liveZset key).bind (·.deadline) } := by
  have live : Volatile.live (⟨z, (s.liveZset key).bind (·.deadline)⟩ : Volatile (ZSet String))
      s.clock = true := by
    unfold Volatile.live
    cases found : s.liveZset key with
    | none => rfl
    | some old => exact (Option.filter_eq_some_iff.mp found).2
  simp only [liveZset, putZset, some', if_false, Function.update_self]
  exact Option.filter_some_pos live

@[simp] theorem zset_putZset_self (z : ZSet String) : (s.putZset key z).zset key = z := by
  by_cases none : z.entries = []
  · have same : z = .empty := by
      cases z
      cases none
      rfl
    simp [zset, liveZset, putZset, same, ZSet.empty]
  · rw [zset, liveZset_putZset none]
    rfl

/-- A positive time to live starts at the server's clock. -/
theorem liveZset_expireZset {v : Volatile (ZSet String)} {seconds : ℤ} (positive : 0 < seconds)
    (present : s.liveZset key = some v) :
    (s.expireZset key seconds).liveZset key =
      some { v with deadline := some (s.clock + seconds) } := by
  have ahead : s.clock ≤ s.clock + seconds := by
    have : (0 : ℚ) < seconds := Int.cast_pos.mpr positive
    linarith
  have kept : (s.expireZset key seconds).zsets key =
      some { v with deadline := some (s.clock + seconds) } := by
    simp [expireZset, not_le.mpr positive, present]
  rw [liveZset, kept]
  exact Option.filter_some_pos (decide_eq_true ahead)

/-- `EXPIRE` keeps the set, unless it deletes the key. -/
theorem stored_expireZset_self (s : RedisServer) (key : String) (seconds : ℤ) :
    (s.expireZset key seconds).stored key = s.zset key ∨
      (s.expireZset key seconds).stored key = .empty := by
  unfold stored expireZset zset
  by_cases positive : seconds ≤ 0
  · right
    simp [positive]
  · left
    cases s.liveZset key <;> simp [positive]

@[simp] theorem stored_addTotal (usageKey : String) (amount : ℚ) (seconds : ℤ) :
    (s.addTotal usageKey amount seconds).stored key = s.stored key := rfl

end Stored

end RedisServer

/-! ### The scripts -/

/-- A script with its keys and arguments. -/
inductive Script where
  /-- `_RESERVE_LUA`. -/
  | reserve (key : String) (now window amount limit : ℚ) (member : String)
  /-- `_SETTLE_LUA`. -/
  | settle (key usageKey : String) (now : ℚ) (entryId : ℕ) (actual window : ℚ)
  /-- `_RELEASE_LUA`. -/
  | release (key : String) (entryId : ℕ)
  /-- The `ZREMRANGEBYSCORE` of `spent`; the read that follows it changes nothing. -/
  | prune (key : String) (max : ℚ)
  deriving DecidableEq

inductive Reply where
  /-- `{allowed, total}`. -/
  | reserved (allowed : Bool) (total : ℚ)
  | done
  deriving DecidableEq, Repr

/-- `math.ceil(window) + 60`. -/
def ttl (window : ℚ) : ℤ := ⌈window⌉ + 60

/-- A key outlives the window. -/
theorem le_ttl (window : ℚ) : window ≤ ttl window := by
  have ceil := Int.le_ceil window
  unfold ttl
  push_cast
  linarith

theorem ttl_pos {window : ℚ} (positive : 0 < window) : 0 < ttl window := by
  have ceil := Int.ceil_pos.mpr positive
  unfold ttl
  omega

namespace RedisServer

/-- Remove the first member, in the order of `ZRANGE`, that belongs to the entry. -/
def dropFirst (s : RedisServer) (key : String) (id : ℕ) : RedisServer :=
  match (s.zrange key).find? (belongsTo id) with
  | none => s
  | some member => s.zrem key member

/-- The weight of the member `dropFirst` removes, 0 if there is none. -/
def dropped (s : RedisServer) (key : String) (id : ℕ) : ℚ :=
  (((s.zrange key).find? (belongsTo id)).map weight).getD 0

/-- One atomic execution. The total of a refusal is the sum itself, of which the script sends
`tostring`, with 14 significant digits. -/
def run (s : RedisServer) : Script → Reply × RedisServer
  | .reserve key now window amount limit member =>
      let pruned := s.zremrangebyscore key (now - window)
      let total := sumMembers (pruned.zrange key)
      if limit + epsilon < total + amount then (.reserved false total, pruned)
      else (.reserved true total, (pruned.zadd key now member).expireZset key (ttl window))
  | .settle key usageKey now entryId actual window =>
      let charged := ((s.dropFirst key entryId).zadd key now (memberOf entryId actual)).expireZset key
        (ttl window)
      (.done, charged.addTotal usageKey actual (ttl window))
  | .release key entryId => (.done, s.dropFirst key entryId)
  | .prune key max => (.done, s.zremrangebyscore key max)

end RedisServer

/-! ### The client -/

structure RedisConfig where
  windowSeconds : ℚ := 24 * 3600
  /-- `namespace`. -/
  keyspace : String := "llm"
  /-- Reject when the server is unreachable, rather than let the request through. -/
  failClosed : Bool := true
  maxRecords : ℕ := 1000
  deriving DecidableEq, Repr

/-- The key a script writes, apart from the usage total. -/
def Script.key : Script → String
  | .reserve key .. => key
  | .settle key .. => key
  | .release key _ => key
  | .prune key _ => key

namespace RedisServer

variable {s : RedisServer} {key other : String}

/-- A command changes one key and leaves the clock alone. -/
structure SameBut (key : String) (s s' : RedisServer) : Prop where
  clock : s'.clock = s.clock
  zsets : ∀ other, other ≠ key → s'.zsets other = s.zsets other

theorem SameBut.refl (s : RedisServer) : SameBut key s s := ⟨rfl, fun _ _ => rfl⟩

theorem SameBut.trans {s' s'' : RedisServer} (first : SameBut key s s')
    (second : SameBut key s' s'') : SameBut key s s'' :=
  ⟨second.clock.trans first.clock,
    fun other ne => (second.zsets other ne).trans (first.zsets other ne)⟩

theorem sameBut_putZset (z : ZSet String) : SameBut key s (s.putZset key z) :=
  ⟨rfl, fun _ ne => Function.update_of_ne ne _ _⟩

theorem sameBut_expireZset (seconds : ℤ) : SameBut key s (s.expireZset key seconds) :=
  ⟨rfl, fun _ ne => Function.update_of_ne ne _ _⟩

theorem sameBut_dropFirst (id : ℕ) : SameBut key s (s.dropFirst key id) := by
  unfold dropFirst
  split
  · exact .refl s
  · exact sameBut_putZset _

/-- A script touches one spend key. -/
theorem sameBut_run (s : RedisServer) (script : Script) :
    SameBut script.key s (s.run script).2 := by
  cases script with
  | reserve key now window amount limit member =>
      have pruned : SameBut key s (s.zremrangebyscore key (now - window)) := sameBut_putZset _
      simp only [run]
      split
      · exact pruned
      · exact (pruned.trans (sameBut_putZset _)).trans (sameBut_expireZset _)
  | settle key usageKey now entryId actual window =>
      have charged : SameBut key s (((s.dropFirst key entryId).zadd key now
          (memberOf entryId actual)).expireZset key (ttl window)) :=
        ((sameBut_dropFirst entryId).trans (sameBut_putZset _)).trans (sameBut_expireZset _)
      exact ⟨charged.clock, charged.zsets⟩
  | release key entryId => exact sameBut_dropFirst entryId
  | prune key max => exact sameBut_putZset _

theorem SameBut.stored {s' : RedisServer} (same : SameBut key s s') (ne : other ≠ key) :
    s'.stored other = s.stored other := by
  unfold RedisServer.stored
  rw [same.zsets other ne]

theorem SameBut.liveZset {s' : RedisServer} (same : SameBut key s s') (ne : other ≠ key) :
    s'.liveZset other = s.liveZset other := by
  unfold RedisServer.liveZset
  rw [same.zsets other ne, same.clock]

end RedisServer

namespace RedisConfig

def spendKey (cfg : RedisConfig) (userId : String) : String :=
  cfg.keyspace ++ ":spend:" ++ userId

theorem spendKey_injective (cfg : RedisConfig) {u u' : String}
    (same : cfg.spendKey u = cfg.spendKey u') : u = u' := by
  have texts := congrArg String.toList same
  simp only [spendKey, String.toList_append] at texts
  exact String.toList_inj.mp (List.append_cancel_left texts)

def usageKey (cfg : RedisConfig) (userId : String) : String :=
  cfg.keyspace ++ ":usage:" ++ userId

def reserveScript (cfg : RedisConfig) (r : Reservation) (limit : ℚ) : Script :=
  .reserve (cfg.spendKey r.userId) r.createdAt cfg.windowSeconds r.amount limit
    (memberOf r.id r.amount)

def settleScript (cfg : RedisConfig) (r : Reservation) (cost now : ℚ) : Script :=
  .settle (cfg.spendKey r.userId) (cfg.usageKey r.userId) now r.id cost cfg.windowSeconds

def releaseScript (cfg : RedisConfig) (r : Reservation) : Script :=
  .release (cfg.spendKey r.userId) r.id

def pruneScript (cfg : RedisConfig) (userId : String) (now : ℚ) : Script :=
  .prune (cfg.spendKey userId) (now - cfg.windowSeconds)

/-- What `reserve` makes of the script's reply. The refusal tells the exact total, where
`float(current)` has the digits that were sent. -/
def onReserved (r : Reservation) (limit : ℚ) : Reply → Except LedgerError Reservation
  | .reserved false total => .error (.userBudgetExceeded r.userId total limit r.amount)
  | _ => .ok r

/-- What `reserve` makes of an exception: fail-open lets the request through unmetered. -/
def onReserveFault (cfg : RedisConfig) (r : Reservation) (detail : String) :
    Except LedgerError Reservation :=
  if cfg.failClosed then .error (.unavailable detail) else .ok r

/-- What `settle` and `release` raise after an exception; either way the reservation ends
closed. -/
def onFault (cfg : RedisConfig) (detail : String) : Option LedgerError :=
  if cfg.failClosed then some (.unavailable detail) else none

end RedisConfig

/-- One replica and the server behind it. -/
structure RedisLedger where
  server : RedisServer := {}
  localRecords : List UsageRecord := []

namespace RedisLedger

/-- The bounded local record list; a slice `[:-0]` is empty, so a bound of 0 bounds nothing. -/
def pushRecord (maxRecords : ℕ) (records : List UsageRecord) (u : UsageRecord) : List UsageRecord :=
  let all := records ++ [u]
  if maxRecords < all.length ∧ maxRecords ≠ 0 then all.drop (all.length - maxRecords) else all

/-- Send a script through a network that does `fault` to it: the reply, or the exception. -/
def eval (fault : LedgerFault) (l : RedisLedger) (script : Script) :
    Except String Reply × RedisLedger :=
  match fault with
  | .none => let (reply, server) := l.server.run script; (.ok reply, { l with server })
  | .lost detail => (.error detail, l)
  | .noReply detail => (.error detail, { l with server := (l.server.run script).2 })

variable (cfg : RedisConfig)

def spent (fault : LedgerFault) (l : RedisLedger) (userId : String) (now : ℚ) :
    Except LedgerError ℚ × RedisLedger :=
  match l.eval fault (cfg.pruneScript userId now) with
  | (.ok _, l') => (.ok (sumMembers (l'.server.zrange (cfg.spendKey userId))), l')
  | (.error detail, l') => (if cfg.failClosed then .error (.unavailable detail) else .ok 0, l')

def reserve (fault : LedgerFault) (l : RedisLedger) (id : ℕ) (userId : String)
    (amount limit now : ℚ) : Except LedgerError Reservation × RedisLedger :=
  let r : Reservation := { id, userId, amount, createdAt := now }
  match l.eval fault (cfg.reserveScript r limit) with
  | (.ok reply, l') => (RedisConfig.onReserved r limit reply, l')
  | (.error detail, l') => (cfg.onReserveFault r detail, l')

def settle (fault : LedgerFault) (l : RedisLedger) (r : Reservation) (c : Charge) (now : ℚ) :
    Option LedgerError × Reservation × RedisLedger :=
  let recorded (l' : RedisLedger) : RedisLedger :=
    { l' with localRecords := pushRecord cfg.maxRecords l'.localRecords (c.record r now) }
  if r.closed then (none, r, l)
  else
    match l.eval fault (cfg.settleScript r c.cost now) with
    | (.ok _, l') => (none, { r with closed := true }, recorded l')
    | (.error detail, l') =>
        match cfg.onFault detail with
        | some e => (some e, { r with closed := true }, l')
        | none => (none, { r with closed := true }, recorded l')

def release (fault : LedgerFault) (l : RedisLedger) (r : Reservation) :
    Option LedgerError × Reservation × RedisLedger :=
  if r.closed then (none, r, l)
  else
    match l.eval fault (cfg.releaseScript r) with
    | (.ok _, l') => (none, { r with closed := true }, l')
    | (.error detail, l') => (cfg.onFault detail, { r with closed := true }, l')

/-- The Redis ledger of one replica as a backend. -/
def backend : LedgerBackend RedisLedger where
  networked := true
  spent := spent cfg
  reserve := reserve cfg
  settle := settle cfg
  release := release cfg
  reserve_ok {f l id userId amount limit now r l'} granted := by
    unfold reserve at granted
    simp only at granted
    split at granted
    · unfold RedisConfig.onReserved at granted
      split at granted <;> cases granted
      rfl
    · unfold RedisConfig.onReserveFault at granted
      split at granted <;> cases granted
      rfl
  settle_closes f l r c now := by
    unfold settle
    simp only
    cases closed : r.closed with
    | true => simp [← closed]
    | false =>
        simp only [Bool.false_eq_true, if_false]
        split
        · rfl
        · split <;> rfl

end RedisLedger

/-- A settle on an open reservation raises exactly if its call does and the ledger fails closed. -/
theorem RedisLedger.settle_raises_iff (cfg : RedisConfig) {r : Reservation}
    (opened : r.closed = false) (f : LedgerFault) (l : RedisLedger) (c : Charge) (now : ℚ) :
    (RedisLedger.settle cfg f l r c now).1 = none ↔ f = .none ∨ cfg.failClosed = false := by
  unfold RedisLedger.settle RedisConfig.onFault
  simp only [opened, Bool.false_eq_true, if_false]
  cases f with
  | none => simp [RedisLedger.eval]
  | lost detail | noReply detail =>
      simp only [RedisLedger.eval]
      cases cfg.failClosed with
      | true => simp
      | false => simp

end LLMInference
