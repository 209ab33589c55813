import LLMInference.Cost.Redis
import LLMInference.RateLimit
import LLMInference.RateLimit.Fleet
import Mathlib.Algebra.Order.Floor.Ring

/-!
The two rate limiters, given the same checks.

Redis forgets a bucket that was not written for `ttl` seconds, and an absent bucket reads
as a full one; the in-process limiter forgets nothing. Here the hash carries its deadline,
and the numbers in it are carried exactly.

`limiters_agree_iff`: both admit the same checks exactly when a bucket that is left empty is
full again by the time it is forgotten. `capacity_le_refill` shows that this covers every
refill rate from the constant in the formula on.
-/

namespace LLMInference

/-- Times do not run back, and no cost is negative. -/
structure Checks (checks : List (ℚ × ℚ)) : Prop where
  sorted : checks.Pairwise fun earlier later => earlier.1 ≤ later.1
  costs : ∀ c ∈ checks, 0 ≤ c.2

/-- What a limiter makes of a list of checks, each a time and a cost. -/
def admissions {σ : Type} (check : σ → ℚ → ℚ → Bool × σ) : σ → List (ℚ × ℚ) → List Bool
  | _, [] => []
  | s, (now, cost) :: rest => (check s now cost).1 :: admissions check (check s now cost).2 rest

namespace TokenBucketLimiter

/-- One check of the user, and whether it is admitted. -/
def admits (userId : String) (l : TokenBucketLimiter) (now cost : ℚ) : Bool × TokenBucketLimiter :=
  ((l.check userId now cost).1.isOk, (l.check userId now cost).2)

/-- Whether a check is admitted, and the bucket it leaves. -/
theorem admits_eq (l : TokenBucketLimiter) (userId : String) (now cost : ℚ) :
    l.admits userId now cost =
      (decide (cost ≤ l.current userId now), l.setBucket userId
        (if cost ≤ l.current userId now then l.current userId now - cost
          else l.current userId now) now) := by
  unfold admits check
  by_cases short : l.current userId now < cost
  · simp [short, not_le.mpr short, Except.isOk, Except.toBool]
  · simp [short, not_lt.mp short, Except.isOk, Except.toBool]

end TokenBucketLimiter

namespace RedisRateLimiter

variable (l : RedisRateLimiter)

/-- The script, with `carry` for what becomes of a number on its way through the hash. -/
def consumeWith (carry : ℚ → ℚ) (b : Option Bucket) (now cost : ℚ) : Bool × Bucket :=
  (decide (cost ≤ l.available b now),
    { tokens := carry (l.left b now cost), ts := carry now })

theorem consume_eq (b : Option Bucket) (now cost : ℚ) :
    l.consume b now cost = l.consumeWith luaNumber b now cost :=
  rfl

/-- `int(max(60.0, capacity / max(refill_per_second, 0.001) * 2))`. -/
def ttl : ℤ := ⌊max 60 (l.capacity / max l.refillPerSecond (1 / 1000) * 2)⌋

/-- The bucket a script finds at `now`: a hash that is past its deadline is gone. -/
def found (hash : Option (Volatile Bucket)) (now : ℚ) : Option Bucket :=
  (hash.filter (·.live now)).map (·.value)

/-- `check` on a server whose clock reads `now`: the script runs on the bucket that is still
there, and the hash is given its time to live. -/
def check (carry : ℚ → ℚ) (userId : String) (hashes : String → Option (Volatile Bucket))
    (now cost : ℚ) : Except (Option ℚ) Unit × (String → Option (Volatile Bucket)) :=
  let reply := l.consumeWith carry (found (hashes (l.key userId)) now) now cost
  (l.onReply cost reply, Function.update hashes (l.key userId)
    (some { value := reply.2, deadline := some (now + l.ttl) }))

/-- One check of the user, and whether it is admitted. -/
def admits (carry : ℚ → ℚ) (userId : String) (hashes : String → Option (Volatile Bucket))
    (now cost : ℚ) : Bool × (String → Option (Volatile Bucket)) :=
  ((l.check carry userId hashes now cost).1.isOk, (l.check carry userId hashes now cost).2)

/-- Whether a check is admitted, and the hash it leaves. -/
theorem admits_eq (carry : ℚ → ℚ) (userId : String) (hashes : String → Option (Volatile Bucket))
    (now cost : ℚ) :
    l.admits carry userId hashes now cost =
      (decide (cost ≤ l.available (found (hashes (l.key userId)) now) now),
        Function.update hashes (l.key userId) (some
          { value := (l.consumeWith carry (found (hashes (l.key userId)) now) now cost).2,
            deadline := some (now + l.ttl) })) := by
  unfold admits check consumeWith
  by_cases enough : cost ≤ l.available (found (hashes (l.key userId)) now) now
  · simp [enough, onReply, Except.isOk, Except.toBool]
  · simp [enough, onReply, Except.isOk, Except.toBool]

theorem sixty_le_ttl : (60 : ℚ) ≤ l.ttl := by
  have floored : (60 : ℤ) ≤ l.ttl := by
    unfold ttl
    rw [Int.le_floor]
    exact le_max_left _ _
  exact Int.cast_le.mpr floored

theorem lt_ttl_add_one : l.capacity / max l.refillPerSecond (1 / 1000) * 2 < l.ttl + 1 :=
  lt_of_le_of_lt (le_max_right 60 _) (Int.lt_floor_add_one _)

/-- From the constant in the formula on, the time to live refills the bucket. -/
theorem capacity_le_refill (rate : 1 / 1000 ≤ l.refillPerSecond) :
    l.capacity ≤ l.ttl * l.refillPerSecond := by
  have positive : 0 < l.refillPerSecond := lt_of_lt_of_le (by norm_num) rate
  have exceeds := l.lt_ttl_add_one
  rw [max_eq_left rate] at exceeds
  have refill : l.capacity * 2 < (l.ttl + 1) * l.refillPerSecond := by
    have scaled := mul_lt_mul_of_pos_right exceeds positive
    rwa [mul_right_comm, div_mul_cancel₀ _ positive.ne'] at scaled
  have minute : 60 * l.refillPerSecond ≤ l.ttl * l.refillPerSecond :=
    mul_le_mul_of_nonneg_right l.sixty_le_ttl positive.le
  linarith

end RedisRateLimiter

/-! ### The limiters in step -/

/-- The two limiters hold the same bucket, or none. -/
inductive SameBucket (l : RedisRateLimiter) : Option (ℚ × ℚ) → Option (Volatile Bucket) → Prop
  | fresh : SameBucket l none none
  | stored {tokens ts : ℚ} (nonneg : 0 ≤ tokens) :
      SameBucket l (some (tokens, ts)) (some ⟨{ tokens, ts }, some (ts + l.ttl)⟩)

/-- The in-process limiter with the parameters of the shared one. -/
structure Twin (l : RedisRateLimiter) (b : TokenBucketLimiter) : Prop where
  capacity : b.capacity = l.capacity
  rate : b.refillPerSecond = l.refillPerSecond

section Step

variable {l : RedisRateLimiter} {b : TokenBucketLimiter} {user : String}
  {hashes : String → Option (Volatile Bucket)}

theorem found_of_live {bucket : Bucket} {now deadline : ℚ} (alive : now ≤ deadline) :
    RedisRateLimiter.found (some ⟨bucket, some deadline⟩) now = some bucket := by
  simp [RedisRateLimiter.found, Option.filter_some, Volatile.live, alive]

theorem found_of_gone {bucket : Bucket} {now deadline : ℚ} (gone : deadline < now) :
    RedisRateLimiter.found (some ⟨bucket, some deadline⟩) now = none := by
  simp [RedisRateLimiter.found, Option.filter_some, Volatile.live, not_le.mpr gone]

/-- Both find the same tokens: what is forgotten had been refilled. -/
theorem current_eq_available (now : ℚ) (twin : Twin l b) (rate : 0 ≤ l.refillPerSecond)
    (refills : l.capacity ≤ l.ttl * l.refillPerSecond)
    (same : SameBucket l (b.buckets user) (hashes (l.key user))) :
    b.current user now = l.available (RedisRateLimiter.found (hashes (l.key user)) now) now := by
  unfold TokenBucketLimiter.current RedisRateLimiter.available RedisRateLimiter.refilled
    RedisRateLimiter.stored
  rw [twin.capacity, twin.rate]
  generalize b.buckets user = mine, hashes (l.key user) = shared at same ⊢
  cases same with
  | fresh => simp [RedisRateLimiter.found]
  | @stored tokens ts nonneg =>
      rcases le_or_gt now (ts + l.ttl) with alive | gone
      · simp [found_of_live alive]
      · have idle : (l.ttl : ℚ) ≤ max 0 (now - ts) := le_max_of_le_right (by linarith)
        have full : l.capacity ≤ tokens + max 0 (now - ts) * l.refillPerSecond := by
          have earned := mul_le_mul_of_nonneg_right idle rate
          linarith
        simp [found_of_gone gone, min_eq_left full]

/-- What is found is never negative. -/
theorem available_nonneg (now : ℚ) (capacity : 0 ≤ l.capacity) (rate : 0 ≤ l.refillPerSecond)
    (same : SameBucket l (b.buckets user) (hashes (l.key user))) :
    0 ≤ l.available (RedisRateLimiter.found (hashes (l.key user)) now) now := by
  unfold RedisRateLimiter.available RedisRateLimiter.refilled RedisRateLimiter.stored
  refine le_min capacity (add_nonneg ?_ (mul_nonneg (le_max_left _ _) rate))
  generalize b.buckets user = mine, hashes (l.key user) = shared at same ⊢
  cases same with
  | fresh => simpa [RedisRateLimiter.found] using capacity
  | @stored tokens ts nonneg =>
      rcases le_or_gt now (ts + l.ttl) with alive | gone
      · simpa [found_of_live alive] using nonneg
      · simpa [found_of_gone gone] using capacity

/-- A check is admitted by both or by neither, and leaves them with the same bucket. -/
theorem admits_same (now cost : ℚ) (twin : Twin l b) (capacity : 0 ≤ l.capacity) (rate : 0 ≤ l.refillPerSecond)
    (refills : l.capacity ≤ l.ttl * l.refillPerSecond)
    (same : SameBucket l (b.buckets user) (hashes (l.key user))) :
    (b.admits user now cost).1 = (l.admits id user hashes now cost).1 ∧
      Twin l (b.admits user now cost).2 ∧
      SameBucket l ((b.admits user now cost).2.buckets user)
        ((l.admits id user hashes now cost).2 (l.key user)) := by
  have found := current_eq_available now twin rate refills same
  have nonneg := available_nonneg now capacity rate same
  rw [TokenBucketLimiter.admits_eq, RedisRateLimiter.admits_eq, found]
  refine ⟨rfl, ⟨twin.capacity, twin.rate⟩, ?_⟩
  simp only [TokenBucketLimiter.setBucket, RedisRateLimiter.consumeWith, Function.update_self, id]
  refine .stored ?_
  split
  · exact sub_nonneg.mpr ‹_›
  · exact nonneg

theorem admissions_same (twin : Twin l b) (capacity : 0 ≤ l.capacity)
    (rate : 0 ≤ l.refillPerSecond) (refills : l.capacity ≤ l.ttl * l.refillPerSecond)
    (checks : List (ℚ × ℚ))
    (same : SameBucket l (b.buckets user) (hashes (l.key user))) :
    admissions (TokenBucketLimiter.admits user) b checks =
      admissions (l.admits id user) hashes checks := by
  induction checks generalizing b hashes with
  | nil => rfl
  | cons c rest ih =>
      obtain ⟨now, cost⟩ := c
      obtain ⟨admitted, twin', same'⟩ :=
        admits_same now cost twin capacity rate refills same
      simp only [admissions, admitted, ih twin' same']

end Step

/-! ### The condition is exact -/

/-- The in-process limiter with the parameters of the shared one, before its first check. -/
def RedisRateLimiter.twin (l : RedisRateLimiter) : TokenBucketLimiter :=
  { capacity := l.capacity, refillPerSecond := l.refillPerSecond }

section Exact

variable {l : RedisRateLimiter} {user : String} {now : ℚ}

/-- The in-process limiter refuses a user who drained the bucket and comes back too early. -/
theorem twin_refuses (rate : 0 ≤ l.refillPerSecond) (later : 0 ≤ now)
    (early : now * l.refillPerSecond < l.capacity) :
    admissions (TokenBucketLimiter.admits user) l.twin [(0, l.capacity), (now, l.capacity)] =
      [true, false] := by
  have earned := mul_nonneg later rate
  have first : l.twin.current user 0 = l.capacity := by
    simp [TokenBucketLimiter.current, RedisRateLimiter.twin]
  have drained : (l.twin.setBucket user 0 0).current user now = now * l.refillPerSecond := by
    simp [TokenBucketLimiter.current, TokenBucketLimiter.setBucket, RedisRateLimiter.twin,
      max_eq_right later, min_eq_right early.le]
  simp [admissions, TokenBucketLimiter.admits_eq, first, drained, early]

/-- The shared one has forgotten the bucket, and admits the user again. -/
theorem forgotten_admits (gone : l.ttl < now) :
    admissions (l.admits id user) (fun _ => none) [(0, l.capacity), (now, l.capacity)] =
      [true, true] := by
  have full : ∀ t, l.available none t = l.capacity := by
    simp [RedisRateLimiter.available, RedisRateLimiter.refilled, RedisRateLimiter.stored]
  have absent : RedisRateLimiter.found none 0 = none := rfl
  have forgotten : ∀ bucket, RedisRateLimiter.found (some ⟨bucket, some (0 + l.ttl)⟩) now = none :=
    fun _ => found_of_gone (by rwa [zero_add])
  simp only [admissions, RedisRateLimiter.admits_eq, absent, full, Function.update_self,
    forgotten, le_refl, decide_true]

/-- A time after the bucket is forgotten and before it is full. -/
theorem exists_early (rate : 0 ≤ l.refillPerSecond)
    (short : l.ttl * l.refillPerSecond < l.capacity) :
    ∃ now : ℚ, l.ttl < now ∧ now * l.refillPerSecond < l.capacity := by
  have positive : 0 < l.refillPerSecond + 1 := by linarith
  have missing := sub_pos.mpr short
  refine ⟨l.ttl + (l.capacity - l.ttl * l.refillPerSecond) / (l.refillPerSecond + 1), ?_, ?_⟩
  · have := div_pos missing positive
    linarith
  · have part : (l.capacity - l.ttl * l.refillPerSecond) / (l.refillPerSecond + 1) *
        l.refillPerSecond < l.capacity - l.ttl * l.refillPerSecond := by
      rw [div_mul_eq_mul_div, div_lt_iff₀ positive]
      linarith
    linarith

end Exact

/-- The two limiters admit the same of every sequence of checks exactly when a bucket is
refilled within its time to live. -/
theorem limiters_agree_iff {l : RedisRateLimiter} {user : String} (capacity : 0 < l.capacity)
    (rate : 0 ≤ l.refillPerSecond) :
    (∀ checks, Checks checks →
      admissions (TokenBucketLimiter.admits user) l.twin checks =
        admissions (l.admits id user) (fun _ => none) checks) ↔
      l.capacity ≤ l.ttl * l.refillPerSecond := by
  constructor
  · intro agree
    by_contra short
    obtain ⟨now, gone, early⟩ := exists_early rate (not_le.mp short)
    have later : 0 ≤ now := by linarith [l.sixty_le_ttl]
    have checks : Checks [(0, l.capacity), (now, l.capacity)] :=
      ⟨by simpa using later, by simpa using capacity.le⟩
    have same := agree _ checks
    rw [twin_refuses rate later early, forgotten_admits gone] at same
    cases same
  · intro refills checks _
    exact admissions_same ⟨rfl, rfl⟩ capacity.le rate refills checks .fresh

/-- With the default parameters they agree, also across the time to live. -/
theorem limiters_agree_default :
    admissions (TokenBucketLimiter.admits "u") (RedisRateLimiter.twin {})
        [(0, 20), (1, 20), (5000, 20)] =
      admissions (RedisRateLimiter.admits {} id "u") (fun _ => none)
        [(0, 20), (1, 20), (5000, 20)] :=
  (limiters_agree_iff (by norm_num) (by norm_num)).mpr
    (RedisRateLimiter.capacity_le_refill {} (by norm_num)) _ ⟨by norm_num, by norm_num⟩

/-- One token in all, never refilled. -/
def oneInAll : RedisRateLimiter := { capacity := 1, refillPerSecond := 0 }

/-- Two thousand seconds after it was spent the shared limiter hands the token out again. -/
theorem spent_token_returns :
    Checks [(0, 1), (2001, 1)] ∧
      admissions (TokenBucketLimiter.admits "u") oneInAll.twin [(0, 1), (2001, 1)] =
        [true, false] ∧
      admissions (oneInAll.admits id "u") (fun _ => none) [(0, 1), (2001, 1)] = [true, true] := by
  have ttl : (oneInAll.ttl : ℚ) < 2001 := by decide +kernel
  refine ⟨⟨by simp, by simp⟩, ?_, ?_⟩
  · exact twin_refuses (l := oneInAll) le_rfl (by norm_num) (by decide +kernel)
  · exact forgotten_admits ttl

end LLMInference
