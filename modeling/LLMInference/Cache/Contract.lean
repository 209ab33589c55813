import LLMInference.Cache
import LLMInference.Lib.Recency
import LLMInference.Lib.Runs
import Mathlib.Tactic.Linarith

/-!
What the response cache promises (`app/cache.py`, `InMemoryCache`).

The run keeps a log of the stores and the hits. The entries are a recency list over the keys the
log names; an entry that is gone has expired, or as many other keys as the cache holds were used
after it.

* `Honest`: the invariant, and `Honest.get`, `Honest.set` its step lemmas.
* `lru_ttl_contract`: the bound, what a hit is, and when there must be one.
-/

namespace LLMInference

open Recency Runs

/-- What the log keeps of a call. -/
inductive CacheEvent where
  /-- A `set` with a positive time to live. -/
  | stored (key : CacheKey) (entry : CacheEntry) (ttlS now : ℚ)
  /-- A `get` that returned an entry. -/
  | hit (key : CacheKey)
  deriving DecidableEq, Repr

namespace CacheEvent

def key : CacheEvent → CacheKey
  | stored key .. => key
  | hit key => key

/-- The entry a store of `k` leaves, and when it expires. -/
def stores (k : CacheKey) : CacheEvent → Option (CacheEntry × ℚ)
  | stored key entry ttlS now => if key = k then some (entry, now + ttlS) else none
  | hit _ => none

end CacheEvent

inductive CacheAct where
  | get (key : CacheKey) (now : ℚ)
  | set (key : CacheKey) (entry : CacheEntry) (ttlS now : ℚ)
  deriving DecidableEq, Repr

/-- What the clock reads in a call. -/
def CacheAct.now : CacheAct → ℚ
  | .get _ now => now
  | .set _ _ _ now => now

/-- A cache, the clock, and the stores and hits so far, the latest first. -/
structure CacheRun where
  cache : InMemoryCache
  clock : ℚ
  log : List CacheEvent := []
  deriving DecidableEq, Repr

namespace CacheRun

def start (maxEntries : ℤ) (clock : ℚ) : CacheRun := { cache := .create maxEntries, clock }

/-- What a call leaves in the log. -/
def event (c : InMemoryCache) : CacheAct → Option CacheEvent
  | .get key now => if (c.get key now).1.isSome then some (.hit key) else none
  | .set key entry ttlS now => if 0 < ttlS then some (.stored key entry ttlS now) else none

def serve (c : InMemoryCache) : CacheAct → InMemoryCache
  | .get key now => (c.get key now).2
  | .set key entry ttlS now => c.set key entry ttlS now

/-- A call, at a time that does not run back. -/
def step (r : CacheRun) (a : CacheAct) : Option CacheRun :=
  if r.clock ≤ a.now then
    some { cache := serve r.cache a, clock := a.now, log := (event r.cache a).toList ++ r.log }
  else none

/-- The latest store of a key: the entry, and when it expires. -/
def latest (log : List CacheEvent) (k : CacheKey) : Option (CacheEntry × ℚ) :=
  log.findSome? (CacheEvent.stores k)

/-- The other keys stored or hit since the key was last stored or hit. -/
def others (log : List CacheEvent) (k : CacheKey) : Finset CacheKey :=
  since (log.map CacheEvent.key) k

/-- What the entries of a cache are, given the log. -/
structure Honest (size : ℕ) (c : InMemoryCache) (clock : ℚ) (log : List CacheEvent) : Prop where
  holds : c.maxEntries = size
  bounded : c.data.length ≤ size
  ordered : Ordered (log.map CacheEvent.key) c.data
  latest : ∀ e ∈ c.data, latest log e.1 = some e.2
  kept : ∀ k entry expiresAt, CacheRun.latest log k = some (entry, expiresAt) →
    (k, entry, expiresAt) ∈ c.data ∨ expiresAt ≤ clock ∨ size ≤ (others log k).card

section Steps

variable {size : ℕ} {c : InMemoryCache} {clock now : ℚ} {log : List CacheEvent} {k : CacheKey}
  {entry : CacheEntry} {expiresAt : ℚ}

/-- What a lookup finds, and what it does to the entries. -/
inductive Got (c : InMemoryCache) (k : CacheKey) (now : ℚ) :
    Option CacheEntry × InMemoryCache → Prop
  | absent (gone : ∀ e ∈ c.data, e.1 ≠ k) : Got c k now (none, { c with misses := c.misses + 1 })
  | expired {entry : CacheEntry} {expiresAt : ℚ} (here : (k, entry, expiresAt) ∈ c.data)
      (past : expiresAt ≤ now) :
      Got c k now (none, { c with data := without c.data k, misses := c.misses + 1 })
  | found {entry : CacheEntry} {expiresAt : ℚ} (here : (k, entry, expiresAt) ∈ c.data)
      (alive : now < expiresAt) :
      Got c k now (some entry,
        { c with data := touch c.data k (entry, expiresAt), hits := c.hits + 1 })

theorem got (c : InMemoryCache) (k : CacheKey) (now : ℚ) : Got c k now (c.get k now) := by
  unfold InMemoryCache.get
  split
  · rename_i none
    refine .absent ?_
    intro e mem
    simpa using List.find?_eq_none.mp none e mem
  · rename_i key entry expiresAt found
    obtain rfl : key = k := by simpa using List.find?_some found
    have here := List.mem_of_find?_eq_some found
    split
    · rename_i past
      exact .expired here past
    · rename_i alive
      exact .found here (not_le.mp alive)

theorem latest_cons (ev : CacheEvent) :
    latest (ev :: log) k = (ev.stores k).or (latest log k) := by
  cases here : ev.stores k <;> simp [latest, here]

theorem stores_of_ne {ev : CacheEvent} (other : ev.key ≠ k) : ev.stores k = none := by
  cases ev with
  | stored key entry ttlS now => exact if_neg other
  | hit key => rfl

/-- Time passes. -/
theorem Honest.mono (honest : Honest size c clock log) (onward : clock ≤ now) :
    Honest size c now log := by
  obtain ⟨holds, bounded, ordered, latest, kept⟩ := honest
  refine ⟨holds, bounded, ordered, latest, ?_⟩
  intro k entry expiresAt last
  rcases kept k entry expiresAt last with here | past | many
  · exact .inl here
  · exact .inr (.inl (past.trans onward))
  · exact .inr (.inr many)

/-- The step lemma: a key is used, with the value its latest store gave it. -/
theorem Honest.use (honest : Honest size c clock log) (room : 0 < size) {ev : CacheEvent}
    (last : CacheRun.latest (ev :: log) ev.key = some (entry, expiresAt)) {c' : InMemoryCache}
    (holds : c'.maxEntries = size)
    (data : c'.data = evict size (touch c.data ev.key (entry, expiresAt))) :
    Honest size c' clock (ev :: log) := by
  have ordered := honest.ordered.touch ev.key (entry, expiresAt)
  have same : ∀ k, ev.key ≠ k → CacheRun.latest (ev :: log) k = CacheRun.latest log k := by
    intro k other
    rw [latest_cons, stores_of_ne other, Option.none_or]
  refine ⟨holds, ?_, ?_, ?_, ?_⟩
  · rw [data]
    exact length_evict
  · rw [data]
    exact ordered.evict size
  · intro e mem
    rw [data] at mem
    rcases mem_touch.mp (mem_of_mem_evict mem) with ⟨old, other⟩ | rfl
    · rw [same e.1 other.symm]
      exact honest.latest e old
    · exact last
  · intro k entry' expiresAt' last'
    rw [data]
    by_cases used : ev.key = k
    · subst used
      cases last.symm.trans last'
      have none : (others (ev :: log) ev.key).card = 0 := by simp [others]
      exact .inl (ordered.mem_evict (mem_touch.mpr (.inr rfl)) (none.trans_lt room))
    · rw [same k used] at last'
      have more : (others log k).card ≤ (others (ev :: log) k).card :=
        Finset.card_le_card (since_subset_cons used)
      rcases honest.kept k entry' expiresAt' last' with here | past | many
      · rcases lt_or_ge (others (ev :: log) k).card size with few | many
        · exact .inl (ordered.mem_evict (mem_touch.mpr (.inl ⟨here, Ne.symm used⟩)) few)
        · exact .inr (.inr many)
      · exact .inr (.inl past)
      · exact .inr (.inr (many.trans more))

theorem Honest.set (honest : Honest size c clock log) (room : 0 < size) (onward : clock ≤ now)
    {ttlS : ℚ} (positive : 0 < ttlS) :
    Honest size (c.set k entry ttlS now) now (.stored k entry ttlS now :: log) := by
  have last : CacheRun.latest (.stored k entry ttlS now :: log) k = some (entry, now + ttlS) := by
    simp [latest_cons, CacheEvent.stores]
  refine (honest.mono onward).use room last ?_ ?_
  · simp [InMemoryCache.set, not_le.mpr positive, honest.holds]
  · simp only [InMemoryCache.set, not_le.mpr positive, if_false, ← honest.holds]
    rfl

/-- A lookup that finds nothing drops at most what has expired. -/
theorem Honest.miss (honest : Honest size c clock log) (onward : clock ≤ now)
    (missed : (c.get k now).1 = none) : Honest size (c.get k now).2 now log := by
  obtain ⟨holds, bounded, ordered, latest, kept⟩ := honest.mono onward
  have looked := got c k now
  generalize c.get k now = out at looked missed ⊢
  cases looked with
  | absent gone => exact ⟨holds, bounded, ordered, latest, kept⟩
  | found here alive => cases missed
  | @expired entry expiresAt here past =>
      refine ⟨holds, (List.length_filter_le _ _).trans bounded, ordered.without k, ?_, ?_⟩
      · exact fun e mem => latest e (mem_without.mp mem).1
      · intro k' entry' expiresAt' last
        by_cases same : k' = k
        · subst same
          cases (latest _ here).symm.trans last
          exact .inr (.inl past)
        · exact (kept k' entry' expiresAt' last).imp_left fun mem => mem_without.mpr ⟨mem, same⟩

theorem Honest.hit (honest : Honest size c clock log) (room : 0 < size) (onward : clock ≤ now)
    (hit : (c.get k now).1 = some entry) : Honest size (c.get k now).2 now (.hit k :: log) := by
  have looked := got c k now
  generalize c.get k now = out at looked hit ⊢
  cases looked with
  | absent gone => cases hit
  | expired here past => cases hit
  | @found entry expiresAt here alive =>
      have last : CacheRun.latest (.hit k :: log) k = some (entry, expiresAt) := by
        rw [latest_cons]
        exact honest.latest _ here
      refine (honest.mono onward).use room last honest.holds ?_
      have fits := (length_touch_le (v := (entry, expiresAt)) ⟨_, here, rfl⟩).trans honest.bounded
      exact (evict_eq_self fits).symm

theorem Honest.step {r r' : CacheRun} {a : CacheAct} (honest : Honest size r.cache r.clock r.log)
    (room : 0 < size) (stepped : r.step a = some r') : Honest size r'.cache r'.clock r'.log := by
  obtain ⟨onward, ⟨⟩⟩ := Option.ite_none_right_eq_some.mp stepped
  cases a with
  | get key now =>
      simp only [serve, event]
      cases out : (r.cache.get key now).1 with
      | none => exact honest.miss onward out
      | some entry => exact honest.hit room onward out
  | set key entry ttlS now =>
      by_cases positive : 0 < ttlS
      · simp only [serve, event, positive, if_true]
        exact honest.set room onward positive
      · simp only [serve, event, positive, if_false, InMemoryCache.set, not_lt.mp positive, if_true]
        exact honest.mono onward

end Steps

variable {maxEntries : ℤ} {clock : ℚ} {r : CacheRun}

theorem honest_of_reaches (reached : Reaches step Always (start maxEntries clock) r) :
    Honest (max 1 maxEntries).toNat r.cache r.clock r.log := by
  have room : 0 < (max 1 maxEntries).toNat := by omega
  apply reached.invariant (I := fun r => Honest (max 1 maxEntries).toNat r.cache r.clock r.log)
  · exact ⟨rfl, Nat.zero_le _, List.Pairwise.nil, List.forall_mem_nil _, by simp [latest, start]⟩
  · intro r a r' honest _ stepped
    exact honest.step room stepped

/-- There are never more entries than allowed. At any later time a hit is the entry of the key's
latest store, before it expires; and where that store has not expired and fewer other keys than
the cache holds were stored or hit since the key was, there is a hit. -/
theorem lru_ttl_contract (reached : Reaches step Always (start maxEntries clock) r) :
    (r.cache.data.length : ℤ) ≤ max 1 maxEntries ∧
      ∀ k now, r.clock ≤ now →
        (∀ entry, (r.cache.get k now).1 = some entry →
          ∃ expiresAt, latest r.log k = some (entry, expiresAt) ∧ now < expiresAt) ∧
        ∀ entry expiresAt, latest r.log k = some (entry, expiresAt) → now < expiresAt →
          ((others r.log k).card : ℤ) < max 1 maxEntries → (r.cache.get k now).1 = some entry := by
  obtain ⟨-, bounded, ordered, stored, kept⟩ := honest_of_reaches reached
  refine ⟨by omega, ?_⟩
  intro k now onward
  constructor
  · intro entry hit
    obtain ⟨expiresAt, here, alive⟩ := InMemoryCache.get_some hit
    exact ⟨expiresAt, stored _ here, alive⟩
  · intro entry expiresAt last alive few
    have here : (k, entry, expiresAt) ∈ r.cache.data := by
      rcases kept k entry expiresAt last with here | past | many
      · exact here
      · exact absurd (past.trans onward) (not_le.mpr alive)
      · omega
    have only : ∀ v, (k, v) ∈ r.cache.data → v = (entry, expiresAt) :=
      fun v mem => Option.some.inj ((stored (k, v) mem).symm.trans last)
    have looked := got r.cache k now
    generalize r.cache.get k now = out at looked ⊢
    cases looked with
    | absent gone => exact absurd rfl (gone _ here)
    | expired there past =>
        cases only _ there
        exact absurd past (not_le.mpr alive)
    | found there _ =>
        cases only _ there
        rfl

/-- A key for each output limit. -/
def small (n : ℕ) : CacheKey := { model := "small", prompt := "hi", maxOutputTokens := n }

def answer (text : String) : CacheEntry :=
  { text, inputTokens := 1, outputTokens := 1, model := "small" }

/-- The third key takes the place of the second, since the first was hit. -/
def thirdKey : List CacheAct :=
  [.set (small 1) (answer "one") 10 0, .set (small 2) (answer "two") 10 1, .get (small 1) 2,
    .set (small 3) (answer "three") 10 3]

theorem lru_ttl_contract_third_key :
    ∃ r, Reaches step Always (start 2 0) r ∧ (r.cache.data.length : ℤ) ≤ max 1 2 ∧
      (r.cache.get (small 1) 4).1 = some (answer "one") := by
  have holds : execHolds step Always (start 2 0) thirdKey (fun r => decide (r.clock ≤ 4 ∧
      latest r.log (small 1) = some (answer "one", 10) ∧ (others r.log (small 1)).card = 1)) =
        true := by
    decide +kernel
  obtain ⟨r, reached, good⟩ := exists_reaches_of_execHolds _ _ holds
  obtain ⟨onward, last, few⟩ := of_decide_eq_true good
  obtain ⟨bounded, contract⟩ := lru_ttl_contract reached
  refine ⟨r, reached, bounded, (contract (small 1) 4 onward).2 _ 10 last (by norm_num) ?_⟩
  rw [few]
  decide

end CacheRun

end LLMInference
