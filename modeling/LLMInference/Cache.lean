import LLMInference.Config

/-!
The response cache (`app/cache.py`), in its in-process form: least recently used entries go
first, and an entry expires. The lock is held only between suspension points, so each
method is one step.

The digest of `make_cache_key` is taken as injective: a key is what is hashed.
-/

namespace LLMInference

structure CacheEntry where
  text : String
  inputTokens : ℕ
  outputTokens : ℕ
  model : String
  deriving DecidableEq, Repr

/-- What `make_cache_key` hashes, apart from the version prefix all keys share. -/
structure CacheKey where
  model : String
  prompt : String
  maxOutputTokens : ℕ
  deriving DecidableEq, Repr

structure InMemoryCache where
  maxEntries : ℕ := 1024
  /-- `(key, entry, expires_at)`, the least recently used first. -/
  data : List (CacheKey × CacheEntry × ℚ) := []
  hits : ℕ := 0
  misses : ℕ := 0
  deriving DecidableEq, Repr

namespace InMemoryCache

def create (maxEntries : ℤ) : InMemoryCache := { maxEntries := (max 1 maxEntries).toNat }

def without (c : InMemoryCache) (key : CacheKey) : List (CacheKey × CacheEntry × ℚ) :=
  c.data.filter fun e => decide (e.1 ≠ key)

def get (c : InMemoryCache) (key : CacheKey) (now : ℚ) : Option CacheEntry × InMemoryCache :=
  match c.data.find? fun e => decide (e.1 = key) with
  | none => (none, { c with misses := c.misses + 1 })
  | some (_, entry, expiresAt) =>
      if expiresAt ≤ now then (none, { c with data := c.without key, misses := c.misses + 1 })
      else
        (some entry, { c with data := c.without key ++ [(key, entry, expiresAt)], hits := c.hits + 1 })

/-- A time to live that is not positive stores nothing. -/
def set (c : InMemoryCache) (key : CacheKey) (entry : CacheEntry) (ttlS now : ℚ) : InMemoryCache :=
  if ttlS ≤ 0 then c
  else
    let data := c.without key ++ [(key, entry, now + ttlS)]
    { c with data := data.drop (data.length - c.maxEntries) }

variable {c : InMemoryCache} {key : CacheKey} {entry : CacheEntry} {ttlS now : ℚ}

/-- A hit is an entry under the key that has not expired. -/
theorem get_some (hit : (c.get key now).1 = some entry) :
    ∃ expiresAt, (key, entry, expiresAt) ∈ c.data ∧ now < expiresAt := by
  unfold get at hit
  split at hit
  · cases hit
  · rename_i there found expiresAt same
    split at hit
    · cases hit
    · rename_i alive
      cases hit
      have keyed : there = key := by simpa using List.find?_some same
      exact ⟨expiresAt, keyed ▸ List.mem_of_find?_eq_some same, lt_of_not_ge alive⟩

theorem mem_of_mem_without {e : CacheKey × CacheEntry × ℚ} (mem : e ∈ c.without key) : e ∈ c.data :=
  (List.mem_filter.mp mem).1

/-- A lookup adds nothing. -/
theorem mem_get {e : CacheKey × CacheEntry × ℚ} (mem : e ∈ (c.get key now).2.data) : e ∈ c.data := by
  unfold get at mem
  split at mem
  · exact mem
  · rename_i there found expiresAt same
    split at mem
    · exact mem_of_mem_without mem
    · have keyed : there = key := by simpa using List.find?_some same
      rcases List.mem_append.mp mem with kept | touched
      · exact mem_of_mem_without kept
      · rw [List.mem_singleton.mp touched, ← keyed]
        exact List.mem_of_find?_eq_some same

/-- A store adds its own entry, which lives for the time to live. -/
theorem mem_set {e : CacheKey × CacheEntry × ℚ} (mem : e ∈ (c.set key entry ttlS now).data) :
    e ∈ c.data ∨ e = (key, entry, now + ttlS) := by
  unfold set at mem
  split at mem
  · exact .inl mem
  · rcases List.mem_append.mp (List.mem_of_mem_drop mem) with kept | new
    · exact .inl (mem_of_mem_without kept)
    · exact .inr (List.mem_singleton.mp new)

end InMemoryCache

end LLMInference
