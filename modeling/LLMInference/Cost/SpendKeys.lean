import LLMInference.Cost.Memory
import LLMInference.Cost.Redis

/-!
A spend key as a list of ledger entries.

`Reads s key w es`: the sorted set read under `key` is the text of the entries `es`, and
the key outlives them all by the window `w`. Under distinct identifiers every command
sequence of the scripts is an operation on such lists, the same one that the in-memory
ledger performs:

* `Reads.prune` filters, `Reads.drop` is `dropEntry`, `Reads.append` appends.
* `Reads.later`: when time passes, a key that expires takes only entries with it that are
  older than the window.
-/

namespace LLMInference

/-- An entry as a member with its score. -/
def Entry.encode (e : Entry) : String × ℚ := (memberOf e.entryId e.amount, e.timestamp)

/-- The entries younger than the window at `now`. -/
def live (w now : ℚ) (es : List Entry) : List Entry :=
  es.filter fun e => decide (now - w < e.timestamp)

/-- Entries as a run of a ledger leaves them: distinct identifiers out of `ids`, times up to
`now`, amounts that the text carries. -/
structure Tidy (ids : List ℕ) (now : ℚ) (es : List Entry) : Prop where
  distinct : (es.map (·.entryId)).Nodup
  known : ∀ e ∈ es, e.entryId ∈ ids
  past : ∀ e ∈ es, e.timestamp ≤ now
  units : ∀ e ∈ es, Units e.amount

section Lists

variable {ids ids' : List ℕ} {w now now' : ℚ} {es es' : List Entry} {e : Entry} {id : ℕ}

theorem Tidy.nil (ids : List ℕ) (now : ℚ) : Tidy ids now [] :=
  ⟨List.nodup_nil, fun _ mem => absurd mem List.not_mem_nil,
    fun _ mem => absurd mem List.not_mem_nil, fun _ mem => absurd mem List.not_mem_nil⟩

theorem Tidy.sublist (tidy : Tidy ids now es) (sub : es'.Sublist es) : Tidy ids now es' :=
  ⟨tidy.distinct.sublist (sub.map _), fun e mem => tidy.known e (sub.subset mem),
    fun e mem => tidy.past e (sub.subset mem), fun e mem => tidy.units e (sub.subset mem)⟩

theorem Tidy.later (tidy : Tidy ids now es) (le : now ≤ now') (sub : ids ⊆ ids') :
    Tidy ids' now' es :=
  ⟨tidy.distinct, fun e mem => sub (tidy.known e mem), fun e mem => (tidy.past e mem).trans le,
    tidy.units⟩

theorem Tidy.append (tidy : Tidy ids now es) (new : e.entryId ∉ es.map (·.entryId))
    (known : e.entryId ∈ ids) (past : e.timestamp ≤ now) (units : Units e.amount) :
    Tidy ids now (es ++ [e]) := by
  have last : ∀ {P : Entry → Prop}, (∀ a ∈ es, P a) → P e → ∀ a ∈ es ++ [e], P a := by
    intro P old here a mem
    rcases List.mem_append.mp mem with inEs | single
    · exact old a inEs
    · rw [List.mem_singleton] at single
      exact single ▸ here
  refine ⟨?_, last tidy.known known, last tidy.past past, last tidy.units units⟩
  rw [List.map_append, List.map_singleton, List.nodup_append]
  refine ⟨tidy.distinct, List.nodup_singleton _, ?_⟩
  intro a mem b single same
  rw [List.mem_singleton] at single
  exact new (single ▸ same ▸ mem)

/-- What is younger than the window later was so before. -/
theorem live_live (le : now ≤ now') : live w now' (live w now es) = live w now' es := by
  unfold live
  rw [List.filter_filter]
  apply List.filter_congr
  intro e _
  rw [← Bool.decide_and]
  refine decide_eq_decide.mpr ⟨fun both => both.1, fun young => ⟨young, ?_⟩⟩
  linarith

/-- What the in-memory ledger keeps is what is younger than the window and what is exactly
as old as it. -/
theorem amounts_filter_le (w now : ℚ) (es : List Entry) :
    amounts (es.filter fun e => decide (now - w ≤ e.timestamp)) =
      amounts (live w now es) + amounts (es.filter fun e => decide (e.timestamp = now - w)) := by
  unfold live
  induction es with
  | nil => simp [amounts]
  | cons e rest ih =>
      unfold amounts at ih ⊢
      rcases lt_trichotomy e.timestamp (now - w) with old | exactly | young
      · simp only [List.filter_cons, not_le.mpr old, not_lt.mpr old.le, old.ne, decide_false,
          if_false, Bool.false_eq_true]
        exact ih
      · simp only [List.filter_cons, exactly, le_refl, lt_irrefl, decide_true, decide_false,
          if_true, if_false, Bool.false_eq_true, List.map_cons, List.sum_cons]
        rw [ih]
        ring
      · simp only [List.filter_cons, young, young.le, young.ne', decide_true, decide_false,
          if_true, if_false, Bool.false_eq_true, List.map_cons, List.sum_cons]
        rw [ih]
        ring

/-- Filtering out what is older than the window first changes nothing. -/
theorem live_filter_le (w now : ℚ) (es : List Entry) :
    live w now (es.filter fun e => decide (now - w ≤ e.timestamp)) = live w now es := by
  unfold live
  rw [List.filter_filter]
  apply List.filter_congr
  intro e _
  rw [← Bool.decide_and]
  exact decide_eq_decide.mpr ⟨fun both => both.1, fun young => ⟨young, young.le⟩⟩

theorem live_append : live w now (es ++ es') = live w now es ++ live w now es' :=
  List.filter_append ..

/-- Dropping and forgetting the old commute. -/
theorem live_dropEntry (distinct : (es.map (·.entryId)).Nodup) (id : ℕ) :
    live w now (dropEntry es id) = dropEntry (live w now es) id := by
  have young : ((live w now es).map (·.entryId)).Nodup :=
    distinct.sublist (List.filter_sublist.map _)
  rw [dropEntry_eq_filter distinct, dropEntry_eq_filter young]
  exact List.filter_comm ..

theorem live_eq_nil (old : ∀ e ∈ es, e.timestamp ≤ now - w) : live w now es = [] := by
  apply List.filter_eq_nil_iff.mpr
  intro e mem young
  exact absurd (of_decide_eq_true young) (not_lt.mpr (old e mem))

end Lists

/-- What is read under a key, with what is known of its time to live. -/
structure Reads (s : RedisServer) (key : String) (w : ℚ) (es : List Entry) : Prop where
  entries : (s.zset key).entries = es.map Entry.encode
  deadline : ∀ v d, s.liveZset key = some v → v.deadline = some d →
    ∀ e ∈ es, e.timestamp + ttl w ≤ d

namespace Reads

variable {s : RedisServer} {key other : String} {w now : ℚ} {es es' : List Entry} {id : ℕ}

/-- Sums of members are sums of amounts. -/
theorem sumMembers (reads : Reads s key w es) (units : ∀ e ∈ es, Units e.amount) :
    sumMembers (s.zrange key) = amounts es := by
  have sum : LLMInference.sumMembers (s.zrange key) = (s.zset key).sumBy weight := ZSet.sum_range
  rw [sum, ZSet.sumBy, ZSet.members, reads.entries, amounts, List.map_map, List.map_map]
  refine congrArg List.sum (List.map_congr_left ?_)
  intro e mem
  simp only [Function.comp_apply, Entry.encode, weight_memberOf (units e mem)]

/-- Storing part of what is read keeps the time to live. -/
theorem put {z : ZSet String} (reads : Reads s key w es) (sub : es' ⊆ es)
    (entries : z.entries = es'.map Entry.encode) : Reads (s.putZset key z) key w es' := by
  refine ⟨by rw [RedisServer.zset_putZset_self, entries], ?_⟩
  intro v d present deadline e mem
  have old : (s.liveZset key).bind (·.deadline) = some d := by
    simp only [RedisServer.liveZset, RedisServer.putZset, Function.update_self] at present ⊢
    split at present
    · cases present
    · obtain ⟨same, -⟩ := Option.filter_eq_some_iff.mp present
      cases same
      exact deadline
  obtain ⟨v', present', deadline'⟩ := Option.bind_eq_some_iff.mp old
  exact reads.deadline v' d present' deadline' e (sub mem)

theorem prune (reads : Reads s key w es) (now : ℚ) :
    Reads (s.zremrangebyscore key (now - w)) key w (live w now es) := by
  apply reads.put (List.filter_sublist.subset)
  simp only [ZSet.removeUpTo, ZSet.restrict, reads.entries, List.filter_map]
  rfl

/-- The scripts' drop is `dropEntry`. -/
theorem drop (reads : Reads s key w es) (distinct : (es.map (·.entryId)).Nodup) (id : ℕ) :
    Reads (s.dropFirst key id) key w (dropEntry es id) := by
  have members : (s.zset key).members = es.map fun e => memberOf e.entryId e.amount := by
    rw [ZSet.members, reads.entries, List.map_map]
    rfl
  rw [dropEntry_eq_filter distinct]
  unfold RedisServer.dropFirst
  cases found : (s.zrange key).find? (belongsTo id) with
  | none =>
      have absent : ∀ e ∈ es, decide (e.entryId ≠ id) = true := by
        intro e mem
        apply decide_eq_true
        rintro rfl
        have here : memberOf e.entryId e.amount ∈ s.zrange key := by
          apply (ZSet.range_perm _).mem_iff.mpr
          rw [members]
          exact List.mem_map_of_mem mem
        exact List.find?_eq_none.mp found _ here (belongsTo_memberOf.mpr rfl)
      rw [List.filter_eq_self.mpr absent]
      exact reads
  | some m =>
      have inRange := (ZSet.range_perm _).mem_iff.mp (List.mem_of_find?_eq_some found)
      rw [members] at inRange
      obtain ⟨e₀, mem₀, rfl⟩ := List.mem_map.mp inRange
      have named : id = e₀.entryId := belongsTo_memberOf.mp (List.find?_some found)
      subst named
      apply reads.put (List.filter_sublist.subset)
      simp only [ZSet.remove, ZSet.restrict, reads.entries, List.filter_map]
      refine congrArg (List.map Entry.encode) (List.filter_congr ?_)
      intro e mem
      refine decide_eq_decide.mpr (not_congr ⟨?_, ?_⟩)
      · intro same
        have belongs : belongsTo e₀.entryId (memberOf e.entryId e.amount) = true := by
          have : e.encode.1 = memberOf e.entryId e.amount := rfl
          rw [← this, same]
          exact belongsTo_memberOf.mpr rfl
        exact (belongsTo_memberOf.mp belongs).symm
      · intro same
        rw [List.inj_on_of_nodup_map distinct mem mem₀ same]
        rfl

/-- Adding an entry under a new identifier, with the time to live that goes with it. -/
theorem append (reads : Reads s key w es) (e : Entry) (new : e.entryId ∉ es.map (·.entryId))
    (past : ∀ a ∈ es, a.timestamp ≤ e.timestamp) (clock : s.clock = e.timestamp)
    (positive : 0 < ttl w) :
    Reads ((s.zadd key e.timestamp (memberOf e.entryId e.amount)).expireZset key (ttl w)) key w
      (es ++ [e]) := by
  have absent : memberOf e.entryId e.amount ∉ (s.zset key).members := by
    rw [ZSet.members, reads.entries, List.map_map]
    intro mem
    obtain ⟨a, here, same⟩ := List.mem_map.mp mem
    have belongs : belongsTo a.entryId (memberOf e.entryId e.amount) = true :=
      same ▸ belongsTo_memberOf.mpr rfl
    exact new (belongsTo_memberOf.mp belongs ▸ List.mem_map_of_mem here)
  have entries : ((s.zset key).add (memberOf e.entryId e.amount) e.timestamp).entries =
      (es ++ [e]).map Entry.encode := by
    rw [ZSet.entries_add, ZSet.entries_remove_of_notMem absent, reads.entries, List.map_append]
    rfl
  have some' : ((s.zset key).add (memberOf e.entryId e.amount) e.timestamp).entries ≠ [] := by
    rw [entries]
    simp
  have added : (s.putZset key ((s.zset key).add (memberOf e.entryId e.amount)
      e.timestamp)).liveZset key = some ⟨_, _⟩ := RedisServer.liveZset_putZset some'
  have stored := RedisServer.liveZset_expireZset positive added
  constructor
  · rw [RedisServer.zset, RedisServer.zadd, stored]
    exact entries
  · intro v d present deadline a mem
    rw [RedisServer.zadd, stored] at present
    cases present
    cases deadline
    have old : a.timestamp ≤ e.timestamp := by
      rcases List.mem_append.mp mem with inEs | single
      · exact past a inEs
      · exact (List.mem_singleton.mp single) ▸ le_rfl
    have same : (s.putZset key ((s.zset key).add (memberOf e.entryId e.amount) e.timestamp)).clock =
        e.timestamp := clock
    rw [same]
    linarith

/-- With no time to live at all the key is deleted. -/
theorem deleted {seconds : ℤ} (none : seconds ≤ 0) : Reads (s.expireZset key seconds) key w [] := by
  refine ⟨?_, fun _ _ _ _ e mem => absurd mem List.not_mem_nil⟩
  simp [RedisServer.zset, RedisServer.liveZset, RedisServer.expireZset, none, ZSet.empty]

/-- `append`, whatever the time to live: what the key loses by being deleted at once is older
than the window. -/
theorem charge (reads : Reads s key w es) (e : Entry) (new : e.entryId ∉ es.map (·.entryId))
    (past : ∀ a ∈ es, a.timestamp ≤ e.timestamp) (clock : s.clock = e.timestamp) :
    ∃ kept, Reads ((s.zadd key e.timestamp (memberOf e.entryId e.amount)).expireZset key (ttl w))
        key w kept ∧ kept.Sublist (es ++ [e]) ∧
      live w e.timestamp kept = live w e.timestamp (es ++ [e]) := by
  by_cases positive : 0 < ttl w
  · exact ⟨es ++ [e], reads.append e new past clock positive, List.Sublist.refl _, rfl⟩
  · refine ⟨[], deleted (not_lt.mp positive), List.nil_sublist _, ?_⟩
    have short : w ≤ 0 := by
      unfold ttl at positive
      have ceil : ⌈w⌉ ≤ 0 := by omega
      exact (Int.ceil_le.mp ceil).trans_eq Int.cast_zero
    have old : live w e.timestamp (es ++ [e]) = [] := by
      apply live_eq_nil
      intro a mem
      have before : a.timestamp ≤ e.timestamp := by
        rcases List.mem_append.mp mem with inEs | single
        · exact past a inEs
        · exact (List.mem_singleton.mp single) ▸ le_rfl
      linarith
    rw [old]
    rfl

/-- An absent key reads as no entries. -/
theorem absent (none : s.liveZset key = none) : Reads s key w [] := by
  refine ⟨?_, fun _ _ _ _ e mem => absurd mem List.not_mem_nil⟩
  rw [RedisServer.zset, none]
  rfl

theorem eq_nil (reads : Reads s key w es) (none : s.liveZset key = none) : es = [] := by
  have entries := reads.entries
  rw [RedisServer.zset, none] at entries
  exact List.map_eq_nil_iff.mp entries.symm

/-- Time passes: the key stays, or it expires and all its entries are past their time. -/
theorem later (reads : Reads s key w es) {t : ℚ} (le : s.clock ≤ t) :
    Reads { s with clock := t } key w es ∨
      Reads { s with clock := t } key w [] ∧ ∀ e ∈ es, e.timestamp + ttl w < t := by
  cases found : s.zsets key with
  | none =>
      have before : s.liveZset key = none := by simp [RedisServer.liveZset, found]
      have after : ({ s with clock := t } : RedisServer).liveZset key = none := by
        simp [RedisServer.liveZset, found]
      exact .inl (reads.eq_nil before ▸ absent after)
  | some v =>
      by_cases alive : v.live t = true
      · have earlier : v.live s.clock = true := by
          unfold Volatile.live at alive ⊢
          cases deadline : v.deadline with
          | none => rfl
          | some d =>
              rw [deadline] at alive
              exact decide_eq_true (le.trans (of_decide_eq_true alive))
        have same : ({ s with clock := t } : RedisServer).liveZset key = s.liveZset key := by
          simp only [RedisServer.liveZset, found, Option.filter_some, alive, earlier]
        refine .inl ⟨?_, ?_⟩
        · rw [RedisServer.zset, same]
          exact reads.entries
        · rw [same]
          exact reads.deadline
      · have after : ({ s with clock := t } : RedisServer).liveZset key = none := by
          simp [RedisServer.liveZset, found, Option.filter_some, alive]
        refine .inr ⟨absent after, ?_⟩
        intro e mem
        by_cases earlier : v.live s.clock = true
        · have before : s.liveZset key = some v := by
            simp [RedisServer.liveZset, found, Option.filter_some, earlier]
          unfold Volatile.live at alive
          cases deadline : v.deadline with
          | none => exact absurd (deadline ▸ rfl) alive
          | some d =>
              rw [deadline] at alive
              have late : d < t := by simpa using alive
              exact (reads.deadline v d before deadline e mem).trans_lt late
        · have before : s.liveZset key = none := by
            simp [RedisServer.liveZset, found, Option.filter_some, earlier]
          rw [reads.eq_nil before] at mem
          cases mem

/-- What does not touch the key changes nothing. -/
theorem elsewhere {s' : RedisServer} (reads : Reads s key w es) (same : s.SameBut other s')
    (ne : key ≠ other) : Reads s' key w es := by
  have present := same.liveZset ne
  constructor
  · rw [RedisServer.zset, present]
    exact reads.entries
  · rw [present]
    exact reads.deadline

end Reads

end LLMInference
