import LLMInference.Cost.Booked

/-!
When the two ledgers report the same usage.

`summaries_agree_iff`: within the window of every entry the reports are the same exactly when
every open hold is for nothing and its user has a record, since Redis reports the holds too.
-/

namespace LLMInference

namespace Lockstep

section Agreement

variable {cfg : RedisConfig} {s : Lockstep} {keys : List String}

theorem units_amounts {es : List Entry} (units : ∀ e ∈ es, Units e.amount) :
    Units (amounts es) := by
  induction es with
  | nil => exact ⟨0, by simp [amounts]⟩
  | cons e rest ih =>
      obtain ⟨n, head⟩ := units e List.mem_cons_self
      obtain ⟨m, tail⟩ := ih fun x mem => units x (List.mem_cons_of_mem _ mem)
      refine ⟨n + m, ?_⟩
      rw [amounts, List.map_cons, List.sum_cons, head]
      rw [amounts] at tail
      rw [tail, Nat.cast_add, add_div]

/-- Rounding leaves what the members' text carries. -/
theorem roundTo_units {x : ℚ} (units : Units x) : Decimal.roundTo 10 x = x := by
  obtain ⟨n, rfl⟩ := units
  rw [Decimal.roundTo, div_mul_cancel₀ _ (by positivity), Decimal.roundHalfEven_natCast]
  norm_num

theorem Kept.holdsHash_spendKey (kept : s.Kept cfg) (userId : String) :
    s.redis.server.holdsHash (cfg.spendKey userId) = false := by
  have absent : s.redis.server.totals (cfg.spendKey userId) = none := by
    by_contra stands
    obtain ⟨other, same⟩ := kept.hashes _ stands
    exact spendKey_ne_usageKey userId other same
  simp [RedisServer.holdsHash, absent]

/-- The keys a scan finds are those of the users with an entry. -/
theorem present_spendKey (kept : s.Kept cfg) (booked : s.Booked cfg) (userId : String) :
    s.redis.server.Present (cfg.spendKey userId) ↔ s.memory.spend userId ≠ [] := by
  rw [RedisServer.Present, kept.holdsHash_spendKey, (booked.entered userId).reads.entries]
  simp

/-- What Redis reports within the window: every user with an entry. -/
theorem redis_summary_eq (plain : cfg.Plain) (kept : s.Kept cfg) (booked : s.Booked cfg)
    (scanned : cfg.Scanned s.redis.server keys) :
    RedisLedger.summary cfg s.redis keys = .ok fun userId =>
      if s.memory.spend userId = [] then none else some (amounts (s.memory.spend userId)) := by
  have listed : ∀ userId, cfg.spendKey userId ∈ keys ↔ s.memory.spend userId ≠ [] := by
    intro userId
    rw [scanned, present_spendKey kept booked]
    simp [RedisConfig.spendKey, String.toList_append]
  have spend : ∀ key ∈ keys, (∃ userId, key = cfg.spendKey userId) ∧
      s.redis.server.holdsHash key = false := by
    intro key mem
    obtain ⟨userId, rfl⟩ := exists_spendKey ((scanned key).mp mem).1
    exact ⟨⟨userId, rfl⟩, kept.holdsHash_spendKey userId⟩
  rw [RedisLedger.summary, collect_eq plain spend]
  refine congrArg Except.ok (funext fun userId => ?_)
  have tidy := (kept.refines.agree userId).1
  rw [(booked.entered userId).reads.sumMembers tidy.units, roundTo_units (units_amounts tidy.units)]
  by_cases empty : s.memory.spend userId = []
  · simp [listed, empty]
  · simp [listed, empty]

/-- What a reservation holds is never below nothing. -/
theorem holding_nonneg (kept : s.Kept cfg) (booked : s.Booked cfg) (userId : String)
    {p : Option Reservation × Option Reservation} (mem : p ∈ s.reservations) :
    0 ≤ holding userId p := by
  obtain ⟨h, here⟩ := List.getElem?_of_mem mem
  cases opened : openHold p with
  | none => exact (holding_of_none opened userId).ge
  | some r =>
      rw [holding_of_open opened]
      split
      · obtain ⟨tidy, -⟩ := kept.refines.agree r.userId
        exact (tidy.units _ (booked.kept h p here r opened)).nonneg
      · exact le_rfl

/-- A user is on record or holds something exactly when there is an entry. -/
theorem spend_eq_nil (booked : s.Booked cfg) (userId : String) :
    s.memory.spend userId = [] ↔
      s.memory.recordsOf userId = [] ∧ ∀ r, s.Open r → r.userId ≠ userId := by
  have count := (booked.entered userId).count
  have idle : s.reservations.countP (holds userId) = 0 ↔ ∀ r, s.Open r → r.userId ≠ userId := by
    rw [List.countP_eq_zero]
    constructor
    · rintro none r ⟨p, mem, opened⟩ mine
      have idle := none p mem
      rw [holds_of_open (openHold_eq_some.mpr opened)] at idle
      exact idle (decide_eq_true mine)
    · intro none p mem holds
      cases opened : openHold p with
      | none => simp [holds_of_none opened] at holds
      | some r =>
          rw [holds_of_open opened] at holds
          exact none r ⟨p, mem, openHold_eq_some.mp opened⟩ (of_decide_eq_true holds)
  rw [← List.length_eq_zero_iff, ← List.length_eq_zero_iff, ← idle, count]
  omega

/-- At every step of a run within the window, the two ledgers report the same usage if and only
if every open hold is for nothing and its user has a record. -/
theorem summaries_agree_iff (plain : cfg.Plain) {now : ℚ}
    (reached : Runs.Reaches (step cfg) WithinRun (start cfg now) s) (within : s.Within s.now)
    (scanned : cfg.Scanned s.redis.server keys) :
    RedisLedger.summary cfg s.redis keys = .ok s.memory.reported ↔
      ∀ r, s.Open r → r.amount = 0 ∧ s.memory.reported r.userId ≠ none := by
  have kept : s.Kept cfg := reached.invariant (kept_start cfg now) fun s a s' kept within stepped =>
    kept.step within stepped
  have booked := kept.booked within
  rw [redis_summary_eq plain kept booked scanned, Except.ok.injEq]
  constructor
  · rintro same r ⟨p, mem, opened⟩
    have here := congrFun same r.userId
    obtain ⟨h, at'⟩ := List.getElem?_of_mem mem
    have entry := booked.kept h p at' r (openHold_eq_some.mpr opened)
    rw [if_neg (List.ne_nil_of_mem entry)] at here
    have recorded : s.memory.recordsOf r.userId ≠ [] := by
      intro none
      rw [Ledger.reported, if_pos none] at here
      cases here
    rw [Ledger.reported, if_neg recorded] at here ⊢
    refine ⟨?_, Option.some_ne_none _⟩
    -- Nothing is left for the open holds, and none of them is below nothing.
    have total := (booked.entered r.userId).sum
    rw [Option.some.inj here] at total
    have nothing : (s.reservations.map (holding r.userId)).sum = 0 := by linarith
    have nonneg : ∀ x ∈ s.reservations.map (holding r.userId), 0 ≤ x := by
      intro x mem
      obtain ⟨q, inside, rfl⟩ := List.mem_map.mp mem
      exact holding_nonneg kept booked r.userId inside
    have le := List.single_le_sum nonneg _ (List.mem_map_of_mem mem)
    have positive := holding_nonneg kept booked r.userId mem
    rw [holding_of_open (openHold_eq_some.mpr opened), if_pos rfl] at le positive
    linarith
  · intro nothing
    funext userId
    by_cases none : s.memory.recordsOf userId = []
    · have empty : s.memory.spend userId = [] := by
        refine (spend_eq_nil booked userId).mpr ⟨none, fun r opened mine => ?_⟩
        have recorded := (nothing r opened).2
        rw [mine, Ledger.reported, if_pos none] at recorded
        exact recorded rfl
      rw [if_pos empty, Ledger.reported, if_pos none]
    · have some' : s.memory.spend userId ≠ [] := fun empty =>
        none ((spend_eq_nil booked userId).mp empty).1
      have free : (s.reservations.map (holding userId)).sum = 0 := by
        apply List.sum_eq_zero
        intro x mem
        obtain ⟨p, inside, rfl⟩ := List.mem_map.mp mem
        cases opened : openHold p with
        | none => exact holding_of_none opened userId
        | some r =>
            rw [holding_of_open opened, (nothing r ⟨p, inside, openHold_eq_some.mp opened⟩).1]
            exact ite_self 0
      rw [if_neg some', Ledger.reported, if_neg none, (booked.entered userId).sum, free, add_zero]

/-- The user is the only one who was handed out a reservation, and has entries, all of them
younger than the window at `t`. -/
def youngHere (s : Lockstep) (userId : String) (t : ℚ) : Bool :=
  (s.reservations.all fun p => p.1.all fun r => decide (r.userId = userId)) &&
    (s.memory.spend userId).all fun e => decide (t - s.memory.windowSeconds < e.timestamp)

theorem eq_of_youngHere (named : s.Named) {owner userId : String} {t : ℚ}
    (young : s.youngHere owner t = true) (some' : s.memory.spend userId ≠ []) : userId = owner := by
  obtain ⟨p, mem, r, here, rfl⟩ := named userId some'
  have mine := List.all_eq_true.mp (Bool.and_eq_true_iff.mp young).1 p mem
  rw [here, Option.all_some] at mine
  exact of_decide_eq_true mine

theorem within_of_youngHere (named : s.Named) {owner : String} {t : ℚ}
    (young : s.youngHere owner t = true) : s.Within t := by
  intro userId e mem
  obtain rfl := eq_of_youngHere named young (List.ne_nil_of_mem mem)
  exact of_decide_eq_true (List.all_eq_true.mp (Bool.and_eq_true_iff.mp young).2 e mem)

/-- A scan then yields the user's key. -/
theorem scanned_of_youngHere (kept : s.Kept cfg) (booked : s.Booked cfg) {owner : String} {t : ℚ}
    (young : s.youngHere owner t = true) (some' : s.memory.spend owner ≠ []) :
    cfg.Scanned s.redis.server [cfg.spendKey owner] := by
  intro key
  rw [List.mem_singleton]
  constructor
  · rintro rfl
    exact ⟨by simp [RedisConfig.spendKey, String.toList_append],
      (present_spendKey kept booked owner).mpr some'⟩
  · rintro ⟨begins, present⟩
    obtain ⟨userId, rfl⟩ := exists_spendKey begins
    have here := (present_spendKey kept booked userId).mp present
    rw [eq_of_youngHere kept.named young here]

end Agreement

section Minute

/-- A step at a time when the user's entries are all in the window. -/
def aloneHere (s : Lockstep) (userId : String) : LockAct → Bool
  | .call a => s.youngHere userId (s.timeOf a)
  | .tick t => s.youngHere userId t

theorem minute_plain : minute.Plain := by
  have chars : minute.keyspace.toList = ['l', 'l', 'm'] := by simp [minute]
  simp [RedisConfig.Plain, chars]

/-- A run of one user within the window of a minute. -/
theorem exists_within_minute {acts : List LockAct} (good : Lockstep → Bool)
    (units : ∀ a ∈ acts, ∀ b, a = .call b → b.InUnits)
    (holds : Runs.execHolds (step minute) (fun s a => a ∈ acts ∧ s.aloneHere "u" a = true)
      (start minute 0) acts
      (fun s => s.youngHere "u" s.now && (!(s.memory.spend "u").isEmpty && good s)) = true) :
    ∃ s, Runs.Reaches (step minute) WithinRun (start minute 0) s ∧ s.Within s.now ∧
      minute.Scanned s.redis.server [minute.spendKey "u"] ∧ s.Kept minute ∧ good s = true := by
  obtain ⟨s, run, young⟩ := Runs.exists_reaches_of_execHolds _ _ holds
  have allowed : ∀ s a, Kept minute s → (a ∈ acts ∧ s.aloneHere "u" a = true) → s.WithinRun a := by
    rintro s a kept ⟨mem, young⟩
    cases a with
    | call b => exact ⟨units _ mem b rfl, within_of_youngHere kept.named young⟩
    | tick t => exact within_of_youngHere kept.named young
  obtain ⟨reached, kept⟩ := run.weaken_of (kept_start minute 0) allowed
    fun s a s' kept within stepped => kept.step within stepped
  rw [Bool.and_eq_true, Bool.and_eq_true] at young
  obtain ⟨young, some', good⟩ := young
  have within := within_of_youngHere kept.named young
  have entry : s.memory.spend "u" ≠ [] := by
    intro empty
    rw [empty] at some'
    cases some'
  exact ⟨s, reached, within, scanned_of_youngHere kept (kept.booked within) young entry, kept, good⟩

theorem half_units : half.InUnits := ⟨5 * 10 ^ 9, by norm_num⟩

/-- Once the bill is there, both report it. -/
theorem summaries_agree_iff_once_settled :
    ∃ s, Runs.Reaches (step minute) WithinRun (start minute 0) s ∧ s.Within s.now ∧
      s.memory.reported "u" = some (3 / 4) ∧
      RedisLedger.summary minute s.redis [minute.spendKey "u"] = .ok s.memory.reported := by
  let acts : List LockAct := [.call half, .call (.settle 0 bill 5)]
  have units : ∀ a ∈ acts, ∀ b, a = .call b → b.InUnits := by
    intro a mem
    simp only [acts, List.mem_cons, List.not_mem_nil, or_false] at mem
    rcases mem with rfl | rfl <;> rintro b ⟨⟩
    · exact half_units
    · exact ⟨75 * 10 ^ 8, by norm_num [bill]⟩
  obtain ⟨s, reached, within, scanned, -, good⟩ := exists_within_minute
    (fun s => decide (s.memory.reported "u" = some (3 / 4)) &&
      s.reservations.all fun p => (openHold p).isNone) units (by decide +kernel)
  rw [Bool.and_eq_true, List.all_eq_true] at good
  obtain ⟨bills, closed⟩ := good
  refine ⟨s, reached, within, of_decide_eq_true bills,
    (summaries_agree_iff minute_plain reached within scanned).mpr ?_⟩
  rintro r ⟨p, mem, opened⟩
  have idle := closed p mem
  rw [openHold_eq_some.mpr opened] at idle
  cases idle

/-- A hold that may still be given back is usage on Redis, and no usage in memory. -/
theorem summaries_differ_while_open :
    ∃ s, Runs.Reaches (step minute) WithinRun (start minute 0) s ∧ s.Within s.now ∧
      minute.Scanned s.redis.server [minute.spendKey "u"] ∧ s.memory.reported "u" = none ∧
      ∃ out, RedisLedger.summary minute s.redis [minute.spendKey "u"] = .ok out ∧
        out "u" = some (1 / 2) := by
  have units : ∀ a ∈ [LockAct.call half], ∀ b, a = .call b → b.InUnits := by
    rintro a mem b rfl
    cases List.mem_singleton.mp mem
    exact half_units
  obtain ⟨s, reached, within, scanned, kept, good⟩ := exists_within_minute
    (fun s => decide (s.memory.reported "u" = none ∧ s.memory.spend "u" ≠ [] ∧
      amounts (s.memory.spend "u") = 1 / 2)) units (by decide +kernel)
  obtain ⟨unrecorded, entry, held⟩ := of_decide_eq_true good
  refine ⟨s, reached, within, scanned, unrecorded, _,
    redis_summary_eq minute_plain kept (kept.booked within) scanned, ?_⟩
  rw [if_neg entry, held]

end Minute

end Lockstep

end LLMInference
