import LLMInference.RateLimit.Expiry

/-!
The in-process token bucket over runs (`app/ratelimit.py`).

Any users check at times that do not run back. A refused check writes the bucket too: the
tokens refilled so far, and its own time.

* `Sound`, `current_le_refill`: what is stored, and what waiting adds to it.
* `cost_add_current`, `admittedCost_le_current`: the step lemma, and the run lemma. What is
  admitted is paid from the tokens found and the refill.
* `admitted_in_window`: the bound for every window of every run.
* `Refilling`, `retry_after_exact`: refused checks do not change what the bucket holds at any
  later time.
-/

namespace LLMInference

/-- A call of `check`, and what the clock reads. -/
structure LimiterCall where
  userId : String
  now : ℚ
  cost : ℚ
  deriving DecidableEq, Repr

namespace TokenBucketLimiter

/-- Whether a call is admitted. -/
def allows (l : TokenBucketLimiter) (c : LimiterCall) : Bool := (l.admits c.userId c.now c.cost).1

def serve (l : TokenBucketLimiter) (c : LimiterCall) : TokenBucketLimiter :=
  (l.admits c.userId c.now c.cost).2

/-- The limiter after some calls. -/
def after (l : TokenBucketLimiter) (calls : List LimiterCall) : TokenBucketLimiter :=
  calls.foldl serve l

/-- The calls, each with whether it is admitted. -/
def decisions (l : TokenBucketLimiter) : List LimiterCall → List (LimiterCall × Bool)
  | [] => []
  | c :: rest => (c, l.allows c) :: decisions (l.serve c) rest

end TokenBucketLimiter

/-- What a decision costs the user between two times. -/
def costOf (user : String) (since until' : ℚ) (d : LimiterCall × Bool) : ℚ :=
  if d.2 = true ∧ d.1.userId = user ∧ since ≤ d.1.now ∧ d.1.now ≤ until' then d.1.cost else 0

/-- The total cost admitted for a user between two times. -/
def admittedCost (user : String) (since until' : ℚ) (ds : List (LimiterCall × Bool)) : ℚ :=
  (ds.map (costOf user since until')).sum

/-- Times do not run back, and no cost is negative. -/
structure LimiterRun (calls : List LimiterCall) : Prop where
  sorted : calls.Pairwise fun earlier later => earlier.now ≤ later.now
  costs : ∀ c ∈ calls, 0 ≤ c.cost

theorem LimiterRun.tail {c : LimiterCall} {rest : List LimiterCall} (run : LimiterRun (c :: rest)) :
    LimiterRun rest ∧ (∀ c' ∈ rest, c.now ≤ c'.now) ∧ 0 ≤ c.cost :=
  ⟨⟨run.sorted.of_cons, fun c' mem => run.costs c' (List.mem_cons_of_mem _ mem)⟩,
    fun _ => List.rel_of_pairwise_cons run.sorted, run.costs c List.mem_cons_self⟩

namespace TokenBucketLimiter

section Calls

variable {l : TokenBucketLimiter} {user : String} {now later : ℚ} {c : LimiterCall}

theorem allows_iff : l.allows c = true ↔ c.cost ≤ l.current c.userId c.now := by
  rw [allows, admits_eq, decide_eq_true_eq]

/-- The tokens a call leaves. -/
def remaining (l : TokenBucketLimiter) (c : LimiterCall) : ℚ :=
  l.current c.userId c.now - if l.allows c then c.cost else 0

theorem serve_eq : l.serve c = l.setBucket c.userId (l.remaining c) c.now := by
  rw [serve, admits_eq, remaining]
  by_cases admitted : c.cost ≤ l.current c.userId c.now
  · simp [admitted, allows_iff.mpr admitted]
  · simp [admitted, allows_iff]

@[simp] theorem serve_capacity : (l.serve c).capacity = l.capacity := by
  rw [serve_eq]
  rfl

@[simp] theorem serve_rate : (l.serve c).refillPerSecond = l.refillPerSecond := by
  rw [serve_eq]
  rfl

theorem buckets_serve_self :
    (l.serve c).buckets c.userId = some (l.remaining c, c.now) := by
  simp [serve_eq, setBucket]

theorem buckets_serve_of_ne (other : c.userId ≠ user) :
    (l.serve c).buckets user = l.buckets user := by
  simp [serve_eq, setBucket, Ne.symm other]

/-- What the limiter finds depends on the user's own bucket. -/
theorem current_congr {l' : TokenBucketLimiter} (capacity : l'.capacity = l.capacity)
    (rate : l'.refillPerSecond = l.refillPerSecond) (bucket : l'.buckets user = l.buckets user) :
    l'.current user now = l.current user now := by
  unfold current
  rw [capacity, rate, bucket]

theorem current_serve_of_ne (other : c.userId ≠ user) :
    (l.serve c).current user now = l.current user now :=
  current_congr serve_capacity serve_rate (buckets_serve_of_ne other)

theorem current_serve_self (onward : c.now ≤ later) :
    (l.serve c).current c.userId later =
      min l.capacity (l.remaining c + (later - c.now) * l.refillPerSecond) := by
  unfold current
  rw [buckets_serve_self]
  simp only [Option.getD_some, serve_capacity, serve_rate, max_eq_right (sub_nonneg.mpr onward)]

theorem current_le_capacity : l.current user now ≤ l.capacity := min_le_left _ _

end Calls

/-- What is stored is between nothing and the capacity, and was stored before. -/
structure Sound (l : TokenBucketLimiter) (clock : ℚ) : Prop where
  capacity : 0 ≤ l.capacity
  rate : 0 ≤ l.refillPerSecond
  stored : ∀ user tokens last, l.buckets user = some (tokens, last) →
    (0 ≤ tokens ∧ tokens ≤ l.capacity) ∧ last ≤ clock

section Sound

variable {l : TokenBucketLimiter} {user : String} {clock now later : ℚ} {c : LimiterCall}

theorem Sound.current_nonneg (sound : l.Sound clock) : 0 ≤ l.current user now := by
  unfold current
  refine le_min sound.capacity (add_nonneg ?_ (mul_nonneg (le_max_left _ _) sound.rate))
  cases bucket : l.buckets user with
  | none => exact sound.capacity
  | some b => exact (sound.stored user b.1 b.2 bucket).1.1

/-- Waiting adds the refill at most. -/
theorem Sound.current_le_refill (sound : l.Sound clock) (user : String) (started : clock ≤ now)
    (onward : now ≤ later) :
    l.current user later ≤ l.current user now + l.refillPerSecond * (later - now) := by
  have refill := mul_nonneg sound.rate (sub_nonneg.mpr onward)
  unfold current
  cases bucket : l.buckets user with
  | none => simpa using refill
  | some b =>
      have before := (sound.stored user b.1 b.2 bucket).2.trans started
      simp only [Option.getD_some, max_eq_right (sub_nonneg.mpr before),
        max_eq_right (sub_nonneg.mpr (before.trans onward))]
      rw [← min_add_add_right]
      refine min_le_min (by linarith) ?_
      linarith

/-- A call pays its cost from the tokens it finds. -/
theorem cost_add_current (user : String) (since until' : ℚ) (cost : 0 ≤ c.cost) :
    costOf user since until' (c, l.allows c) + (l.serve c).current user c.now ≤
      l.current user c.now := by
  by_cases own : c.userId = user
  · subst own
    have left : (l.serve c).current c.userId c.now ≤ l.remaining c := by
      rw [current_serve_self le_rfl, sub_self, zero_mul, add_zero]
      exact min_le_right _ _
    unfold remaining at left
    unfold costOf
    split_ifs with counted
    · rw [if_pos counted.1] at left
      linarith
    · split_ifs at left <;> linarith
  · rw [current_serve_of_ne own, costOf, if_neg (fun counted => own counted.2.1), zero_add]

theorem Sound.mono (sound : l.Sound clock) (onward : clock ≤ later) : l.Sound later := by
  refine ⟨sound.capacity, sound.rate, ?_⟩
  intro user tokens last bucket
  obtain ⟨within, before⟩ := sound.stored user tokens last bucket
  exact ⟨within, before.trans onward⟩

theorem Sound.remaining (sound : l.Sound clock) (cost : 0 ≤ c.cost) :
    0 ≤ l.remaining c ∧ l.remaining c ≤ l.capacity := by
  have found : l.current c.userId c.now ≤ l.capacity := current_le_capacity
  have nonneg : 0 ≤ l.current c.userId c.now := sound.current_nonneg
  unfold TokenBucketLimiter.remaining
  split
  · rename_i admitted
    have enough := allows_iff.mp admitted
    exact ⟨by linarith, by linarith⟩
  · exact ⟨by linarith, by linarith⟩

theorem Sound.serve (sound : l.Sound clock) (onward : clock ≤ c.now) (cost : 0 ≤ c.cost) :
    (l.serve c).Sound c.now := by
  refine ⟨by simpa using sound.capacity, by simpa using sound.rate, ?_⟩
  intro user tokens last bucket
  rw [serve_capacity]
  by_cases own : c.userId = user
  · subst own
    cases buckets_serve_self.symm.trans bucket
    exact ⟨sound.remaining cost, le_rfl⟩
  · rw [buckets_serve_of_ne own] at bucket
    obtain ⟨within, before⟩ := sound.stored user tokens last bucket
    exact ⟨within, before.trans onward⟩

end Sound

/-! ### Windows -/

section Runs

variable {l : TokenBucketLimiter} {user : String} {clock since until' : ℚ}
  {calls : List LimiterCall}

/-- Nothing is admitted for a window by later calls. -/
theorem admittedCost_eq_zero (late : ∀ c ∈ calls, until' < c.now) :
    admittedCost user since until' (l.decisions calls) = 0 := by
  induction calls generalizing l with
  | nil => rfl
  | cons c rest ih =>
      obtain ⟨first, others⟩ := List.forall_mem_cons.mp late
      have outside : costOf user since until' (c, l.allows c) = 0 :=
        if_neg fun counted => absurd counted.2.2.2 (not_le.mpr first)
      simp only [admittedCost, decisions, List.map_cons, List.sum_cons, outside, zero_add]
      exact ih others

/-- The run lemma: what is admitted from `clock` on is paid from the tokens found at `clock` and
the refill since. -/
theorem admittedCost_le_current (user : String) (since : ℚ) (sound : l.Sound clock)
    (run : LimiterRun calls) (later : ∀ c ∈ calls, clock ≤ c.now) (open' : clock ≤ until') :
    admittedCost user since until' (l.decisions calls) ≤
      l.current user clock + l.refillPerSecond * (until' - clock) := by
  induction calls generalizing l clock with
  | nil => exact add_nonneg sound.current_nonneg (mul_nonneg sound.rate (sub_nonneg.mpr open'))
  | cons c rest ih =>
      obtain ⟨tail, sorted, cost⟩ := run.tail
      have onward := later c List.mem_cons_self
      rcases lt_or_ge until' c.now with beyond | inside
      · rw [admittedCost_eq_zero]
        · exact add_nonneg sound.current_nonneg (mul_nonneg sound.rate (sub_nonneg.mpr open'))
        · rw [List.forall_mem_cons]
          exact ⟨beyond, fun c' mem => beyond.trans_le (sorted c' mem)⟩
      · have rest := ih (sound.serve onward cost) tail sorted inside
        have paid := cost_add_current (l := l) user since until' cost
        have refill := sound.current_le_refill user le_rfl onward
        rw [serve_rate] at rest
        simp only [admittedCost, decisions, List.map_cons, List.sum_cons] at rest ⊢
        linarith

theorem admittedCost_le (sound : l.Sound clock) (run : LimiterRun calls)
    (later : ∀ c ∈ calls, clock ≤ c.now) (open' : since ≤ until') :
    admittedCost user since until' (l.decisions calls) ≤
      l.capacity + l.refillPerSecond * (until' - since) := by
  induction calls generalizing l clock with
  | nil => exact add_nonneg sound.capacity (mul_nonneg sound.rate (sub_nonneg.mpr open'))
  | cons c rest ih =>
      obtain ⟨tail, sorted, cost⟩ := run.tail
      have onward := later c List.mem_cons_self
      rcases lt_or_ge c.now since with early | started
      · have skipped : costOf user since until' (c, l.allows c) = 0 :=
          if_neg fun counted => absurd counted.2.2.1 (not_le.mpr early)
        have rest := ih (sound.serve onward cost) tail sorted
        rw [serve_capacity, serve_rate] at rest
        simpa only [admittedCost, decisions, List.map_cons, List.sum_cons, skipped, zero_add]
          using rest
      · rcases lt_or_ge until' c.now with beyond | inside
        · rw [admittedCost_eq_zero]
          · exact add_nonneg sound.capacity (mul_nonneg sound.rate (sub_nonneg.mpr open'))
          · rw [List.forall_mem_cons]
            exact ⟨beyond, fun c' mem => beyond.trans_le (sorted c' mem)⟩
        · -- The first call of the window finds a full bucket at most.
          have all : ∀ c' ∈ c :: rest, c.now ≤ c'.now := by
            rw [List.forall_mem_cons]
            exact ⟨le_rfl, sorted⟩
          have paid := admittedCost_le_current user since (sound.mono onward) run all inside
          have full : l.current user c.now ≤ l.capacity := current_le_capacity
          have shorter := mul_le_mul_of_nonneg_left (sub_le_sub_left started until') sound.rate
          linarith

/-- The tokens stored stay within the capacity. -/
theorem Sound.after (sound : l.Sound clock) (run : LimiterRun calls)
    (later : ∀ c ∈ calls, clock ≤ c.now) : ∃ clock', (l.after calls).Sound clock' := by
  induction calls generalizing l clock with
  | nil => exact ⟨clock, sound⟩
  | cons c rest ih =>
      obtain ⟨tail, sorted, cost⟩ := run.tail
      exact ih (sound.serve (later c List.mem_cons_self) cost) tail sorted

theorem after_capacity : (l.after calls).capacity = l.capacity := by
  induction calls generalizing l with
  | nil => rfl
  | cons c rest ih => exact ih.trans serve_capacity

theorem after_rate : (l.after calls).refillPerSecond = l.refillPerSecond := by
  induction calls generalizing l with
  | nil => rfl
  | cons c rest ih => exact ih.trans serve_rate

/-- The decisions on a user are those on the user's calls alone. -/
theorem decisions_filter {l' : TokenBucketLimiter} (capacity : l'.capacity = l.capacity)
    (rate : l'.refillPerSecond = l.refillPerSecond) (bucket : l'.buckets user = l.buckets user) :
    (l.decisions calls).filter (fun d => decide (d.1.userId = user)) =
      l'.decisions (calls.filter fun c => decide (c.userId = user)) := by
  induction calls generalizing l l' with
  | nil => rfl
  | cons c rest ih =>
      by_cases own : c.userId = user
      · subst own
        have found : l'.current c.userId c.now = l.current c.userId c.now :=
          current_congr capacity rate bucket
        have allowed : l'.allows c = l.allows c := by
          rw [Bool.eq_iff_iff, allows_iff, allows_iff, found]
        have stored : (l'.serve c).buckets c.userId = (l.serve c).buckets c.userId := by
          rw [buckets_serve_self, buckets_serve_self, remaining, remaining, found, allowed]
        have rest : ((l.serve c).decisions rest).filter (fun d => decide (d.1.userId = c.userId)) =
            (l'.serve c).decisions (rest.filter fun c' => decide (c'.userId = c.userId)) :=
          ih (by simpa using capacity) (by simpa using rate) stored
        simp only [decisions, decide_true, List.filter_cons_of_pos, allowed, rest]
      · have rest : ((l.serve c).decisions rest).filter (fun d => decide (d.1.userId = user)) =
            l'.decisions (rest.filter fun c' => decide (c'.userId = user)) :=
          ih (by simpa using capacity) (by simpa using rate)
            (bucket.trans (buckets_serve_of_ne own).symm)
        simpa only [decisions, own, decide_false, Bool.false_eq_true, not_false_eq_true,
          List.filter_cons_of_neg] using rest

end Runs

/-- In every window of every run a user is admitted the capacity and the refill of the window at
most; the tokens stored are between nothing and the capacity, for every user and after every
call; and the decisions on a user do not depend on the calls of the others. -/
theorem admitted_in_window {l : TokenBucketLimiter} (fresh : l.buckets = fun _ => none)
    (capacity : 0 ≤ l.capacity) (rate : 0 ≤ l.refillPerSecond) {calls : List LimiterCall}
    (run : LimiterRun calls) (user : String) {since until' : ℚ} (window : since ≤ until') :
    admittedCost user since until' (l.decisions calls) ≤
        l.capacity + l.refillPerSecond * (until' - since) ∧
      (∀ tokens last, (l.after calls).buckets user = some (tokens, last) →
        0 ≤ tokens ∧ tokens ≤ l.capacity) ∧
      (l.decisions calls).filter (fun d => decide (d.1.userId = user)) =
        l.decisions (calls.filter fun c => decide (c.userId = user)) := by
  have start : ∀ clock, l.Sound clock := by
    intro clock
    refine ⟨capacity, rate, ?_⟩
    intro user tokens last bucket
    simp [fresh] at bucket
  obtain ⟨clock, before⟩ : ∃ clock, ∀ c ∈ calls, clock ≤ c.now := by
    cases calls with
    | nil => exact ⟨0, by simp⟩
    | cons c rest => exact ⟨c.now, List.forall_mem_cons.mpr ⟨le_rfl, run.tail.2.1⟩⟩
  refine ⟨admittedCost_le (start clock) run before window, ?_, decisions_filter rfl rfl rfl⟩
  intro tokens last bucket
  obtain ⟨clock', sound⟩ := (start clock).after run before
  have stored := (sound.stored user tokens last bucket).1
  rwa [after_capacity] at stored

/-- Two users take turns. -/
def turns : List LimiterCall := [⟨"u", 0, 2⟩, ⟨"v", 0, 1⟩, ⟨"u", 1, 2⟩, ⟨"u", 2, 1⟩]

theorem admitted_in_window_turns :
    admittedCost "u" 1 2 (decisions { capacity := 2, refillPerSecond := 1 } turns) ≤
      2 + 1 * (2 - 1) :=
  (admitted_in_window rfl (by norm_num) (by norm_num)
    ⟨by decide +kernel, by decide +kernel⟩ "u" (by norm_num)).1

/-! ### Waiting after a refusal -/

/-- From a time on, a bucket that held `level` at `now` and has only been refilled since. -/
def Refilling (l : TokenBucketLimiter) (user : String) (level now since : ℚ) : Prop :=
  ∀ later, since ≤ later →
    l.current user later = min l.capacity (level + (later - now) * l.refillPerSecond)

section Waiting

variable {l : TokenBucketLimiter} {user : String} {level now since : ℚ} {c : LimiterCall}

/-- A refused call writes what the bucket would hold anyway. -/
theorem Refilling.serve (refilling : l.Refilling user level now since)
    (rate : 0 ≤ l.refillPerSecond) (onward : since ≤ c.now)
    (refused : c.userId = user → l.allows c = false) :
    (l.serve c).Refilling user level now c.now := by
  intro later after
  rw [serve_capacity, serve_rate]
  by_cases own : c.userId = user
  · subst own
    have written : l.remaining c = l.current c.userId c.now := by
      simp [remaining, refused rfl]
    have earned := mul_nonneg (sub_nonneg.mpr after) rate
    rw [current_serve_self after, written, refilling c.now onward, ← min_add_add_right, ← min_assoc,
      min_eq_left (le_add_of_nonneg_right earned)]
    congr 1
    ring
  · rw [current_serve_of_ne own]
    exact refilling later (onward.trans after)

/-- A bucket that is only refilled admits a cost from the time on at which it holds it. -/
theorem Refilling.allows_iff (refilling : l.Refilling user level now since)
    (rate : 0 < l.refillPerSecond) {cost later : ℚ} (fits : cost ≤ l.capacity)
    (onward : since ≤ later) :
    l.allows ⟨user, later, cost⟩ = true ↔
      now + (cost - level) / l.refillPerSecond ≤ later := by
  rw [TokenBucketLimiter.allows_iff, refilling later onward, le_min_iff, and_iff_right fits,
    ← sub_le_iff_le_add', ← div_le_iff₀ rate, le_sub_iff_add_le']

variable {calls : List LimiterCall} {cost : ℚ}

/-- Every call of the user is refused. -/
def Refused (user : String) (ds : List (LimiterCall × Bool)) : Prop :=
  ∀ d ∈ ds, d.1.userId = user → d.2 = false

theorem Refilling.after (refilling : l.Refilling user level now since)
    (rate : 0 ≤ l.refillPerSecond)
    (sorted : calls.Pairwise fun earlier later => earlier.now ≤ later.now)
    (onward : ∀ c ∈ calls, since ≤ c.now) (refused : Refused user (l.decisions calls)) {later : ℚ}
    (started : since ≤ later) (last : ∀ c ∈ calls, c.now ≤ later) :
    (l.after calls).Refilling user level now later := by
  induction calls generalizing l since with
  | nil => exact fun x after => refilling x (started.trans after)
  | cons c rest ih =>
      obtain ⟨first, others⟩ := List.forall_mem_cons.mp refused
      have next := refilling.serve rate (onward c List.mem_cons_self) first
      exact ih next (by simpa using rate) sorted.of_cons
        (fun _ => List.rel_of_pairwise_cons sorted) others (last c List.mem_cons_self)
        fun c' mem => last c' (List.mem_cons_of_mem _ mem)

/-- Calls that cost no less and come before the time are all refused. -/
theorem Refilling.refused (refilling : l.Refilling user level now since)
    (rate : 0 < l.refillPerSecond) (fits : cost ≤ l.capacity)
    (sorted : calls.Pairwise fun earlier later => earlier.now ≤ later.now)
    (onward : ∀ c ∈ calls, since ≤ c.now)
    (early : ∀ c ∈ calls, c.userId = user →
      cost ≤ c.cost ∧ c.now < now + (cost - level) / l.refillPerSecond) :
    Refused user (l.decisions calls) := by
  induction calls generalizing l since with
  | nil => exact List.forall_mem_nil _
  | cons c rest ih =>
      obtain ⟨first, others⟩ := List.forall_mem_cons.mp early
      have here := onward c List.mem_cons_self
      have refused : c.userId = user → l.allows c = false := by
        intro own
        obtain ⟨dearer, before⟩ := first own
        rw [Bool.eq_false_iff]
        intro admitted
        have paid := TokenBucketLimiter.allows_iff.mp admitted
        rw [own] at paid
        have cheaper : l.allows ⟨user, c.now, cost⟩ = true :=
          TokenBucketLimiter.allows_iff.mpr (dearer.trans paid)
        exact absurd ((refilling.allows_iff rate fits here).mp cheaper) (not_le.mpr before)
      refine List.forall_mem_cons.mpr ⟨refused, ?_⟩
      refine ih (refilling.serve rate.le here refused) (by simpa using rate) (by simpa using fits)
        sorted.of_cons (fun _ => List.rel_of_pairwise_cons sorted) ?_
      simpa using others

/-- The calls after a refusal. -/
structure Retries (now : ℚ) (calls : List LimiterCall) : Prop where
  sorted : calls.Pairwise fun earlier later => earlier.now ≤ later.now
  onward : ∀ c ∈ calls, now ≤ c.now

/-- A refusal with a time to wait: how long it is, and the bucket that is written. -/
theorem check_of_refused {wait : ℚ} (refusal : (l.check user now cost).1 = .error (some wait)) :
    wait = (cost - l.current user now) / l.refillPerSecond ∧
      (l.check user now cost).2 = l.setBucket user (l.current user now) now := by
  unfold check at refusal ⊢
  simp only at refusal ⊢
  split at refusal
  · rename_i short
    rw [if_pos short]
    simp only [retryAfterS, Except.error.injEq, Option.ite_none_right_eq_some,
      Option.some.injEq] at refusal
    exact ⟨refusal.2.symm, rfl⟩
  · cases refusal

theorem refilling_setBucket (l : TokenBucketLimiter) (user : String) (level now : ℚ) :
    (l.setBucket user level now).Refilling user level now now := by
  intro later onward
  simp [current, setBucket, max_eq_right (sub_nonneg.mpr onward)]

end Waiting

/-- A refusal names the time to wait exactly. Until then every call of the user that costs no
less is refused; and as long as no call of the user is admitted, however many were refused, the
cost is admitted from that time on and not before. -/
theorem retry_after_exact {l : TokenBucketLimiter} (rate : 0 < l.refillPerSecond) {user : String}
    {now cost wait : ℚ} (fits : cost ≤ l.capacity)
    (refusal : (l.check user now cost).1 = .error (some wait)) {calls : List LimiterCall}
    (retries : Retries now calls) :
    ((∀ c ∈ calls, c.userId = user → cost ≤ c.cost ∧ c.now < now + wait) →
        Refused user ((l.check user now cost).2.decisions calls)) ∧
      (Refused user ((l.check user now cost).2.decisions calls) →
        ∀ later, now ≤ later → (∀ c ∈ calls, c.now ≤ later) →
          (((l.check user now cost).2.after calls).allows ⟨user, later, cost⟩ = true ↔
            now + wait ≤ later)) := by
  obtain ⟨sorted, onward⟩ := retries
  obtain ⟨rfl, written⟩ := check_of_refused refusal
  rw [written]
  have refilling := refilling_setBucket l user (l.current user now) now
  refine ⟨refilling.refused rate fits sorted onward, ?_⟩
  intro refused later started last
  have after := refilling.after rate.le sorted onward refused started last
  generalize served : (l.setBucket user (l.current user now) now).after calls = l' at after ⊢
  have capacity : l'.capacity = l.capacity := served ▸ after_capacity
  have rate' : l'.refillPerSecond = l.refillPerSecond := served ▸ after_rate
  rw [← rate']
  exact after.allows_iff (rate'.symm ▸ rate) (capacity.symm ▸ fits) le_rfl

/-- Half a token is missing; the user comes back too early, with another in between, and then in
time. -/
theorem retry_after_exact_half :
    let l : TokenBucketLimiter :=
      { capacity := 2, refillPerSecond := 1, buckets := fun _ => some (1 / 2, 0) }
    let l' := (l.check "u" 0 1).2.after [⟨"u", 1 / 4, 1⟩, ⟨"v", 1 / 4, 1⟩]
    l'.allows ⟨"u", 1 / 2, 1⟩ = true := by
  intro l l'
  have refusal : (l.check "u" 0 1).1 = .error (some (1 / 2)) := by decide +kernel
  have retries : Retries 0 [⟨"u", 1 / 4, 1⟩, ⟨"v", 1 / 4, 1⟩] :=
    ⟨by decide +kernel, by decide +kernel⟩
  obtain ⟨refuses, recovers⟩ :=
    retry_after_exact (by norm_num [l]) (by norm_num [l]) refusal retries
  refine (recovers (refuses ?_) (1 / 2) (by norm_num) (by decide +kernel)).mpr (by norm_num)
  decide +kernel

end TokenBucketLimiter

end LLMInference
