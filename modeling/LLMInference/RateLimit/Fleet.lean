import LLMInference.Lib.Decimal
import LLMInference.Lib.Runs
import Mathlib.Logic.Function.Basic
import Mathlib.Tactic.Linarith

/-!
The fleet-wide token bucket (`app/ratelimit.py`, `RedisRateLimiter`).

`consume` is one atomic execution of the script. It clamps a negative elapsed time to zero, but
stores the call's own timestamp either way, so a call from a replica whose clock is behind
makes the next one earn the same time again.

* `LimiterFleet.Honest`: a call earns no time twice, and what it leaves is not rounded up.
* `LimiterFleet.Metered.check`: the step lemma; refills telescope over the timestamps passed.
* `admitted_within_span`: what honest calls have been admitted, in any order.
-/

namespace LLMInference

open Runs

/-- What reading Lua's `tostring` back gives: 14 significant digits. -/
def luaNumber (x : ℚ) : ℚ := Decimal.roundSignificant 14 x

/-- The fields of the hash under a user's key. -/
structure Bucket where
  tokens : ℚ
  ts : ℚ
  deriving DecidableEq, Repr

structure RedisRateLimiter where
  capacity : ℚ := 20
  refillPerSecond : ℚ := 5
  /-- `namespace`. -/
  keyspace : String := "llm:rl"
  deriving DecidableEq, Repr

namespace RedisRateLimiter

variable (l : RedisRateLimiter)

/-- `_key`. -/
def key (userId : String) : String := l.keyspace ++ ":" ++ userId

theorem key_injective {u u' : String} (same : l.key u = l.key u') : u = u' := by
  have texts := congrArg String.toList same
  simp only [key, String.toList_append] at texts
  exact String.toList_inj.mp (List.append_cancel_left texts)

/-- The tokens stored, the capacity if there is no bucket. -/
def stored (b : Option Bucket) : ℚ := (b.map (·.tokens)).getD l.capacity

/-- The tokens after a refill for the time since `since`. -/
def refilled (b : Option Bucket) (since now : ℚ) : ℚ :=
  min l.capacity (l.stored b + max 0 (now - since) * l.refillPerSecond)

/-- The tokens the script finds. -/
def available (b : Option Bucket) (now : ℚ) : ℚ := l.refilled b ((b.map (·.ts)).getD now) now

/-- The tokens the script leaves. -/
def left (b : Option Bucket) (now cost : ℚ) : ℚ :=
  if cost ≤ l.available b now then l.available b now - cost else l.available b now

/-- `_CONSUME_LUA`: `allowed`, and the bucket it writes, whose tokens are also the reply's. -/
def consume (b : Option Bucket) (now cost : ℚ) : Bool × Bucket :=
  (decide (cost ≤ l.available b now),
    { tokens := luaNumber (l.left b now cost), ts := luaNumber now })

/-- What `check` makes of the reply: a refusal carries `retry_after_s`, `none` for infinity. -/
def onReply (cost : ℚ) : Bool × Bucket → Except (Option ℚ) Unit
  | (true, _) => .ok ()
  | (false, b) =>
      .error (if 0 < l.refillPerSecond then
        some (max 0 ((cost - b.tokens) / l.refillPerSecond)) else none)

end RedisRateLimiter

/-- The server, and for each user what has been admitted and which timestamps were passed. -/
structure LimiterFleet where
  buckets : String → Option Bucket := fun _ => none
  admitted : String → ℚ := fun _ => 0
  /-- The smallest and the largest timestamp. -/
  passed : String → Option (ℚ × ℚ) := fun _ => none

inductive LimiterAct where
  /-- The script of some replica's `check` is executed; `now` is the replica's reading. -/
  | check (userId : String) (now cost : ℚ)
  deriving DecidableEq, Repr

/-- The timestamps passed, with one more. -/
def widen (now : ℚ) : Option (ℚ × ℚ) → ℚ × ℚ
  | none => (now, now)
  | some (least, most) => (min least now, max most now)

namespace LimiterFleet

def step (l : RedisRateLimiter) (s : LimiterFleet) : LimiterAct → Option LimiterFleet
  | .check userId now cost =>
      let (allowed, bucket) := l.consume (s.buckets (l.key userId)) now cost
      some
        { buckets := Function.update s.buckets (l.key userId) (some bucket)
          admitted :=
            if allowed then Function.update s.admitted userId (s.admitted userId + cost)
            else s.admitted
          passed := Function.update s.passed userId (some (widen now (s.passed userId))) }

/-- The largest timestamp the user's calls have passed, this one's if it is the first. -/
def latest (s : LimiterFleet) (userId : String) (now : ℚ) : ℚ :=
  ((s.passed userId).map (·.2)).getD now

/-- The refill is no more than for the time past the largest timestamp so far, and the text of
the tokens left is not rounded up. -/
def Honest (l : RedisRateLimiter) (user : String) (s : LimiterFleet) : LimiterAct → Prop
  | .check userId now cost => userId = user →
      l.available (s.buckets (l.key user)) now ≤
          l.refilled (s.buckets (l.key user)) (s.latest user now) now ∧
        luaNumber (l.left (s.buckets (l.key user)) now cost) ≤
          l.left (s.buckets (l.key user)) now cost

instance (l : RedisRateLimiter) (user : String) (s : LimiterFleet) :
    ∀ a, Decidable (s.Honest l user a)
  | .check userId _ _ => inferInstanceAs (Decidable (userId = user → _ ∧ _))

/-- What was admitted, and what is left to be, against the span of the timestamps. -/
structure Metered (l : RedisRateLimiter) (user : String) (s : LimiterFleet) : Prop where
  unused : s.passed user = none → s.buckets (l.key user) = none ∧ s.admitted user = 0
  ordered : ∀ least most, s.passed user = some (least, most) → least ≤ most
  admitted : ∀ least most, s.passed user = some (least, most) →
    s.admitted user ≤ l.capacity + l.refillPerSecond * (most - least)
  remaining : ∀ least most, s.passed user = some (least, most) →
    s.admitted user + l.stored (s.buckets (l.key user)) ≤
      l.capacity + l.refillPerSecond * (most - least)

section Steps

variable {l : RedisRateLimiter} {user : String} {s s' : LimiterFleet}

/-- What the user has been admitted and could be admitted now, by an honest refill. -/
theorem Metered.offer (metered : s.Metered l user) (rate : 0 ≤ l.refillPerSecond) (now : ℚ) :
    s.admitted user + l.refilled (s.buckets (l.key user)) (s.latest user now) now ≤
      l.capacity + l.refillPerSecond *
        ((widen now (s.passed user)).2 - (widen now (s.passed user)).1) := by
  obtain ⟨unused, -, -, remaining⟩ := metered
  unfold RedisRateLimiter.refilled latest
  cases passed : s.passed user with
  | none =>
      obtain ⟨-, zero⟩ := unused passed
      have full := min_le_left l.capacity
        (l.stored (s.buckets (l.key user)) + max 0 (now - now) * l.refillPerSecond)
      simp only [widen, Option.map_none, Option.getD_none, sub_self, mul_zero, zero]
      rw [sub_self] at full
      linarith
  | some span =>
      obtain ⟨least, most⟩ := span
      have before := remaining least most passed
      have refill := min_le_right l.capacity
        (l.stored (s.buckets (l.key user)) + max 0 (now - most) * l.refillPerSecond)
      have telescoped : most - least + max 0 (now - most) ≤ max most now - min least now := by
        have low := min_le_left least now
        rcases le_total most now with ahead | behind
        · rw [max_eq_right (sub_nonneg.mpr ahead), max_eq_right ahead]
          linarith
        · rw [max_eq_left (sub_nonpos.mpr behind), max_eq_left behind]
          linarith
      have scaled := mul_le_mul_of_nonneg_left telescoped rate
      simp only [widen, Option.map_some, Option.getD_some]
      linarith

/-- The span only grows. -/
theorem span_widen {least most : ℚ} (now : ℚ) (ordered : least ≤ most) :
    most - least ≤ (widen now (some (least, most))).2 - (widen now (some (least, most))).1 ∧
      (widen now (some (least, most))).1 ≤ (widen now (some (least, most))).2 := by
  have low := min_le_left least now
  have high := le_max_left most now
  constructor
  · simp only [widen]
    linarith
  · exact low.trans (ordered.trans high)

/-- A call of the user. -/
theorem Metered.check (metered : s.Metered l user) (capacity : 0 ≤ l.capacity)
    (rate : 0 ≤ l.refillPerSecond) {now cost : ℚ} (honest : s.Honest l user (.check user now cost))
    (stepped : s.step l (.check user now cost) = some s') : s'.Metered l user := by
  obtain ⟨credit, exact⟩ := honest rfl
  have offer := metered.offer rate now
  have found := add_le_add_right credit (s.admitted user)
  cases stepped
  have wide : (widen now (s.passed user)).1 ≤ (widen now (s.passed user)).2 := by
    cases passed : s.passed user with
    | none => exact le_rfl
    | some span => exact (span_widen now (metered.ordered _ _ passed)).2
  have before : s.admitted user ≤ l.capacity + l.refillPerSecond *
      ((widen now (s.passed user)).2 - (widen now (s.passed user)).1) := by
    cases passed : s.passed user with
    | none =>
        rw [(metered.unused passed).2]
        exact add_nonneg capacity (mul_nonneg rate (sub_nonneg.mpr (passed ▸ wide)))
    | some span =>
        have old := metered.admitted _ _ passed
        have grown := (span_widen now (metered.ordered _ _ passed)).1
        have scaled := mul_le_mul_of_nonneg_left grown rate
        linarith
  refine ⟨?_, ?_, ?_, ?_⟩
  · intro none
    simp at none
  · intro least most passed
    simp only [Function.update_self, Option.some.injEq] at passed
    rw [passed] at wide
    exact wide
  · intro least most passed
    simp only [Function.update_self, Option.some.injEq] at passed
    rw [passed] at before offer
    simp only [decide_eq_true_eq]
    split
    · rename_i allowed
      rw [Function.update_self]
      linarith
    · exact before
  · intro least most passed
    simp only [Function.update_self, Option.some.injEq] at passed
    rw [passed] at before offer
    simp only [decide_eq_true_eq, Function.update_self, RedisRateLimiter.stored,
      Option.map_some, Option.getD_some]
    unfold RedisRateLimiter.left at exact ⊢
    split
    · rename_i allowed
      rw [if_pos allowed] at exact
      rw [Function.update_self]
      linarith
    · rename_i refused
      rw [if_neg refused] at exact
      linarith

theorem Metered.step (metered : s.Metered l user) (capacity : 0 ≤ l.capacity)
    (rate : 0 ≤ l.refillPerSecond) {a : LimiterAct} (honest : s.Honest l user a)
    (stepped : s.step l a = some s') : s'.Metered l user := by
  obtain ⟨userId, now, cost⟩ := a
  by_cases mine : userId = user
  · subst mine
    exact metered.check capacity rate honest stepped
  · have key : l.key user ≠ l.key userId := fun same => mine (l.key_injective same).symm
    obtain ⟨unused, ordered, admitted, remaining⟩ := metered
    cases stepped
    have same : (if decide (cost ≤ l.available (s.buckets (l.key userId)) now) = true then
        Function.update s.admitted userId (s.admitted userId + cost) else s.admitted) user =
          s.admitted user := by
      split
      · exact Function.update_of_ne (Ne.symm mine) _ _
      · rfl
    constructor <;>
      simp only [Function.update_of_ne (Ne.symm mine), Function.update_of_ne key, same]
    · exact unused
    · exact ordered
    · exact admitted
    · exact remaining

end Steps

/-- While no call of the user earns time twice, the total cost admitted is at most the capacity
and the refill for the span of the timestamps passed, whatever their order. -/
theorem admitted_within_span (l : RedisRateLimiter) (capacity : 0 ≤ l.capacity)
    (rate : 0 ≤ l.refillPerSecond) (user : String) {s : LimiterFleet}
    (reached : Reaches (step l) (Honest l user) {} s) {least most : ℚ}
    (passed : s.passed user = some (least, most)) :
    s.admitted user ≤ l.capacity + l.refillPerSecond * (most - least) := by
  have metered : s.Metered l user := by
    apply reached.invariant
    · exact ⟨fun _ => ⟨rfl, rfl⟩, by simp, by simp, by simp⟩
    · intro s a s' metered honest stepped
      exact metered.step capacity rate honest stepped
  exact metered.admitted least most passed

/-- One token a second, and no burst. -/
def oneToken : RedisRateLimiter := { capacity := 1, refillPerSecond := 1 }

/-- The second replica's clock is a second behind, but the bucket is full whenever it asks. -/
def behindActs : List LimiterAct :=
  [.check "u" 1 0, .check "u" 0 0, .check "u" 1 1, .check "u" 2 1]

theorem admitted_within_span_behind :
    ∃ s, Reaches (step oneToken) (Honest oneToken "u") {} s ∧ s.admitted "u" = 2 ∧
      s.admitted "u" ≤ 1 + 1 * (2 - 0) := by
  have holds : execHolds (step oneToken) (Honest oneToken "u") {} behindActs
      (fun s => decide (s.admitted "u" = 2 ∧ s.passed "u" = some (0, 2))) = true := by
    decide +kernel
  obtain ⟨s, reached, good⟩ := exists_reaches_of_execHolds _ _ holds
  obtain ⟨admitted, passed⟩ := of_decide_eq_true good
  exact ⟨s, reached, admitted,
    admitted_within_span oneToken (by decide +kernel) (by decide +kernel) "u" reached passed⟩

/-- Two replicas whose clocks differ by a second take turns. -/
def skewedActs : List LimiterAct :=
  [.check "u" 1 1, .check "u" 0 0, .check "u" 1 1, .check "u" 0 0, .check "u" 1 1]

/-- Three tokens are admitted within one second at one token a second and capacity one. -/
theorem skewed_clocks_earn_twice :
    ∃ s, Reaches (step oneToken) Always {} s ∧ s.passed "u" = some (0, 1) ∧
      oneToken.capacity + oneToken.refillPerSecond * (1 - 0) < s.admitted "u" := by
  have holds : execHolds (step oneToken) Always {} skewedActs (fun s =>
      decide (s.passed "u" = some (0, 1) ∧
        oneToken.capacity + oneToken.refillPerSecond * (1 - 0) < s.admitted "u")) = true := by
    decide +kernel
  obtain ⟨s, reached, good⟩ := exists_reaches_of_execHolds _ _ holds
  exact ⟨s, reached, of_decide_eq_true good⟩

end LimiterFleet

end LLMInference
