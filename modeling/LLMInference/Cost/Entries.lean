import LLMInference.Cost.Duplicates

/-!
How many members a reservation has on the server (`app/cost/redis_ledger.py`).

A script names one entry. What the other scripts do to the members of an entry is remove some
(`Fewer`); of its own, a reserve and a settle leave at most one. The statements are about what is
stored, so they hold whenever a key expires.

* `RedisServer.fewer_run`: the scripts about other entries.
* `RedisServer.AtMostOne.settle`, `RedisServer.Absent.reserve`: the scripts about the entry.
-/

namespace LLMInference

/-- The script adds or removes members of the entry. -/
def Script.names (id : ℕ) : Script → Bool
  | .reserve _ _ _ _ _ member => belongsTo id member
  | .settle _ _ _ entryId _ _ => decide (entryId = id)
  | .release _ entryId => decide (entryId = id)
  | .prune .. => false

namespace RedisServer

/-- No member of the entry is stored. -/
def Absent (s : RedisServer) (id : ℕ) : Prop :=
  ∀ key, ∀ m ∈ (s.stored key).members, belongsTo id m = false

/-- At most one member of the entry is stored under each key. -/
def AtMostOne (s : RedisServer) (id : ℕ) : Prop :=
  ∀ key, ∀ m ∈ (s.stored key).members, ∀ m' ∈ (s.stored key).members,
    belongsTo id m = true → belongsTo id m' = true → m = m'

/-- The members of the entry stored in `s'` are stored in `s`. -/
def Fewer (id : ℕ) (s s' : RedisServer) : Prop :=
  ∀ key, ∀ m ∈ (s'.stored key).members, belongsTo id m = true → m ∈ (s.stored key).members

section Entries

variable {s s' s'' : RedisServer} {key : String} {id : ℕ} {m member : String} {z : ZSet String}

/-- What is read under a key is stored there. -/
theorem mem_stored (mem : m ∈ (s.zset key).members) : m ∈ (s.stored key).members := by
  rcases zset_cases s key with eq | eq
  · exact eq ▸ mem
  · rw [eq] at mem
    cases mem

theorem Absent.atMostOne (absent : s.Absent id) : s.AtMostOne id :=
  fun key m mem _ _ mine _ => Bool.noConfusion ((absent key m mem).symm.trans mine)

theorem AtMostOne.single (one : s.AtMostOne id) (key : String) : s.Single key id :=
  fun m mem m' mem' => one key m (mem_stored mem) m' (mem_stored mem')

theorem Fewer.refl (s : RedisServer) : Fewer id s s := fun _ _ mem _ => mem

theorem Fewer.trans (first : Fewer id s s') (second : Fewer id s' s'') : Fewer id s s'' :=
  fun key m mem mine => first key m (second key m mem mine) mine

theorem Absent.fewer (absent : s.Absent id) (fewer : Fewer id s s') : s'.Absent id := by
  intro key m mem
  cases mine : belongsTo id m with
  | false => rfl
  | true => exact mine.symm.trans (absent key m (fewer key m mem mine))

theorem AtMostOne.fewer (one : s.AtMostOne id) (fewer : Fewer id s s') : s'.AtMostOne id :=
  fun key m mem m' mem' mine mine' =>
    one key m (fewer key m mem mine) m' (fewer key m' mem' mine') mine mine'

/-- A command that stores no new member of the entry under its key. -/
theorem fewer_of_sameBut (same : SameBut key s s')
    (here : ∀ m ∈ (s'.stored key).members, belongsTo id m = true → m ∈ (s.stored key).members) :
    Fewer id s s' := by
  intro other m mem mine
  by_cases eq : other = key
  · subst eq
    exact here m mem mine
  · rw [← same.stored eq]
    exact mem

theorem fewer_putZset
    (old : ∀ m ∈ z.members, belongsTo id m = true → m ∈ (s.zset key).members) :
    Fewer id s (s.putZset key z) := by
  apply fewer_of_sameBut (sameBut_putZset z)
  intro m mem mine
  rw [stored_putZset_self] at mem
  exact mem_stored (old m mem mine)

theorem fewer_zadd (score : ℚ) (other : belongsTo id member = false) :
    Fewer id s (s.zadd key score member) := by
  apply fewer_putZset
  intro m mem mine
  rcases ZSet.mem_members_add mem with rfl | old
  · cases other.symm.trans mine
  · exact old

theorem fewer_expireZset (seconds : ℤ) : Fewer id s (s.expireZset key seconds) := by
  apply fewer_of_sameBut (sameBut_expireZset seconds)
  intro m mem _
  rcases stored_expireZset_self s key seconds with kept | gone
  · exact mem_stored (kept ▸ mem)
  · rw [gone] at mem
    cases mem

theorem fewer_dropFirst (entryId : ℕ) : Fewer id s (s.dropFirst key entryId) := by
  unfold dropFirst
  split
  · exact .refl s
  · apply fewer_putZset
    intro m mem _
    exact ZSet.mem_members_restrict mem

theorem fewer_zremrangebyscore (max : ℚ) : Fewer id s (s.zremrangebyscore key max) := by
  apply fewer_putZset
  intro m mem _
  exact ZSet.mem_members_restrict mem

theorem fewer_addTotal (usageKey : String) (amount : ℚ) (seconds : ℤ) :
    Fewer id s (s.addTotal usageKey amount seconds) := fun _ _ mem _ => mem

/-- A script about another entry. -/
theorem fewer_run (script : Script) (other : script.names id = false) :
    Fewer id s (s.run script).2 := by
  cases script with
  | reserve key now window amount limit member =>
      simp only [run]
      split
      · exact fewer_zremrangebyscore _
      · exact ((fewer_zremrangebyscore _).trans (fewer_zadd now other)).trans (fewer_expireZset _)
  | settle key usageKey now entryId actual window =>
      have apart : belongsTo id (memberOf entryId actual) = false := by
        rw [← Bool.not_eq_true, belongsTo_memberOf]
        exact fun same => of_decide_eq_false other same.symm
      exact (((fewer_dropFirst _).trans (fewer_zadd now apart)).trans (fewer_expireZset _)).trans
        (fewer_addTotal _ _ _)
  | release key entryId => exact fewer_dropFirst _
  | prune key max => exact fewer_zremrangebyscore _

/-- A release removes at most. -/
theorem fewer_release (key : String) (entryId : ℕ) :
    Fewer id s (s.run (.release key entryId)).2 := fewer_dropFirst _

/-- Adding a member where there is none of the entry leaves one. -/
theorem atMostOne_zadd (one : s.AtMostOne id) (score : ℚ)
    (none : ∀ m ∈ (s.zset key).members, belongsTo id m = false) :
    (s.zadd key score member).AtMostOne id := by
  have only : ∀ m ∈ ((s.zadd key score member).stored key).members, belongsTo id m = true →
      m = member := by
    intro m mem mine
    rw [zadd, stored_putZset_self] at mem
    rcases ZSet.mem_members_add mem with new | old
    · exact new
    · cases (none m old).symm.trans mine
  intro other m mem m' mem' mine mine'
  by_cases eq : other = key
  · subst eq
    exact (only m mem mine).trans (only m' mem' mine').symm
  · have same : (s.zadd key score member).stored other = s.stored other :=
      (sameBut_putZset _).stored eq
    rw [same] at mem mem'
    exact one other m mem m' mem' mine mine'

/-- A settle of the entry puts its charge in the place of what it finds. -/
theorem AtMostOne.settle (one : s.AtMostOne id) (key usageKey : String) (now actual window : ℚ) :
    (s.run (.settle key usageKey now id actual window)).2.AtMostOne id := by
  have dropped : (s.dropFirst key id).AtMostOne id := one.fewer (fewer_dropFirst id)
  have charged : ((s.dropFirst key id).zadd key now (memberOf id actual)).AtMostOne id :=
    atMostOne_zadd dropped now (absent_dropFirst (one.single key))
  exact (charged.fewer (fewer_expireZset _)).fewer (fewer_addTotal _ _ _)

/-- A reserve of an unused entry. -/
theorem Absent.reserve (absent : s.Absent id) (key : String) (now window amount limit : ℚ)
    (member : String) : (s.run (.reserve key now window amount limit member)).2.AtMostOne id := by
  have pruned : (s.zremrangebyscore key (now - window)).Absent id :=
    absent.fewer (fewer_zremrangebyscore _)
  simp only [run]
  split
  · exact pruned.atMostOne
  · have held : ((s.zremrangebyscore key (now - window)).zadd key now member).AtMostOne id :=
      atMostOne_zadd pruned.atMostOne now fun m mem => pruned key m (mem_stored mem)
    exact held.fewer (fewer_expireZset _)

end Entries

end RedisServer

namespace RedisLedger

variable {cfg : RedisConfig} {id : ℕ} {l : RedisLedger} {f : LedgerFault}

/-- Whatever the network does, the server is as before or the script was executed. -/
theorem server_eval (f : LedgerFault) (l : RedisLedger) (script : Script) :
    (l.eval f script).2.server = l.server ∨ (l.eval f script).2.server = (l.server.run script).2 := by
  cases f with
  | none => exact .inr rfl
  | lost detail => exact .inl rfl
  | noReply detail => exact .inr rfl

theorem server_reserve (cfg : RedisConfig) (f : LedgerFault) (l : RedisLedger) (id : ℕ)
    (userId : String) (amount limit now : ℚ) :
    (reserve cfg f l id userId amount limit now).2.server = l.server ∨
      (reserve cfg f l id userId amount limit now).2.server = (l.server.run
        (cfg.reserveScript { id, userId, amount, createdAt := now } limit)).2 := by
  have same : (reserve cfg f l id userId amount limit now).2 =
      (l.eval f (cfg.reserveScript { id, userId, amount, createdAt := now } limit)).2 := by
    unfold reserve
    simp only
    split <;> (rename_i sent; rw [sent])
  rw [same]
  exact server_eval f l _

theorem server_settle (cfg : RedisConfig) (f : LedgerFault) (l : RedisLedger) (r : Reservation)
    (c : Charge) (now : ℚ) :
    (settle cfg f l r c now).2.2.server = l.server ∨
      (settle cfg f l r c now).2.2.server = (l.server.run (cfg.settleScript r c.cost now)).2 := by
  have same : (settle cfg f l r c now).2.2.server =
      if r.closed then l.server else (l.eval f (cfg.settleScript r c.cost now)).2.server := by
    unfold settle
    simp only
    split
    · rfl
    · split
      · rename_i sent
        rw [sent]
      · rename_i sent
        rw [sent]
        split <;> rfl
  rw [same]
  split
  · exact .inl rfl
  · exact server_eval f l _

theorem server_release (cfg : RedisConfig) (f : LedgerFault) (l : RedisLedger) (r : Reservation) :
    (release cfg f l r).2.2.server = l.server ∨
      (release cfg f l r).2.2.server = (l.server.run (cfg.releaseScript r)).2 := by
  have same : (release cfg f l r).2.2.server =
      if r.closed then l.server else (l.eval f (cfg.releaseScript r)).2.server := by
    unfold release
    split
    · rfl
    · split <;> (rename_i sent; rw [sent])
  rw [same]
  split
  · exact .inl rfl
  · exact server_eval f l _

end RedisLedger

end LLMInference
