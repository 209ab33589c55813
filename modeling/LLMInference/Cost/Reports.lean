import LLMInference.Cost.Refinement

/-!
The usage a ledger reports (`summary()`).

The in-memory ledger adds up its settled records. The Redis ledger scans for the spend keys
and adds up whatever members stand there; `collect_eq` says what that comes to under a plain
namespace.
-/

namespace LLMInference

open RedisServer

/-! ### The two reports -/

/-- The records of a user. -/
def Ledger.recordsOf (l : Ledger) (userId : String) : List UsageRecord :=
  l.records.filter fun r => decide (r.userId = userId)

/-- `summary()`: a user without a record is not in the dict. -/
def Ledger.reported (l : Ledger) (userId : String) : Option ℚ :=
  if l.recordsOf userId = [] then none else some (l.summary userId)

/-- What stands behind the first colon. -/
def afterColon (cs : List Char) : Option (List Char) :=
  match cs.dropWhile (· ≠ ':') with
  | [] => none
  | _ :: rest => some rest

/-- `key.split(":", 2)[-1]`. -/
def userOfKey (key : String) : String :=
  match afterColon key.toList with
  | none => key
  | some rest => String.ofList ((afterColon rest).getD rest)

namespace RedisServer

/-- A hash stands under the key. -/
def holdsHash (s : RedisServer) (key : String) : Bool :=
  ((s.totals key).filter (·.live s.clock)).isSome

/-- The key exists; no empty set does. -/
def Present (s : RedisServer) (key : String) : Prop :=
  (s.zset key).entries ≠ [] ∨ s.holdsHash key = true

/-- `ZRANGE key 0 -1`, which a hash refuses. -/
def typedRange (s : RedisServer) (key : String) : Except String (List String) :=
  if s.holdsHash key then
    .error "WRONGTYPE Operation against a key holding the wrong kind of value"
  else .ok (s.zrange key)

/-- The loop of `summary`: the exception that ends it, if one does, and the dict so far. -/
def collect (s : RedisServer) :
    List String → (String → Option ℚ) → Option String × (String → Option ℚ)
  | [], out => (none, out)
  | key :: rest, out =>
      match s.typedRange key with
      | .error detail => (some detail, out)
      | .ok members =>
          collect s rest
            (Function.update out (userOfKey key) (some (Decimal.roundTo 10 (sumMembers members))))

end RedisServer

/-- The namespace stands for itself in a key and in a pattern: no colon, and none of the
characters that mean something in a pattern. -/
def RedisConfig.Plain (cfg : RedisConfig) : Prop :=
  ∀ c ∈ cfg.keyspace.toList, c ∉ [':', '*', '?', '[', '\\']

/-- What `scan_iter(match=f"{namespace}:spend:*")` yields under a plain namespace: the keys
there are that begin so, in some order, and perhaps more than once. -/
def RedisConfig.Scanned (cfg : RedisConfig) (s : RedisServer) (keys : List String) : Prop :=
  ∀ key, key ∈ keys ↔ (cfg.keyspace ++ ":spend:").toList <+: key.toList ∧ s.Present key

/-- `summary()` over the scanned keys. -/
def RedisLedger.summary (cfg : RedisConfig) (l : RedisLedger) (keys : List String) :
    Except LedgerError (String → Option ℚ) :=
  match l.server.collect keys fun _ => none with
  | (some detail, out) => if cfg.failClosed then .error (.unavailable detail) else .ok out
  | (none, out) => .ok out

/-! ### Reading the report -/

section Report

variable {cfg : RedisConfig} {s : RedisServer}

theorem afterColon_of_notMem {xs : List Char} (none : ':' ∉ xs) (ys : List Char) :
    afterColon (xs ++ ':' :: ys) = some ys := by
  have before : ∀ c ∈ xs, decide (c ≠ ':') = true :=
    fun c mem => decide_eq_true (ne_of_mem_of_not_mem mem none)
  rw [afterColon, List.dropWhile_append_of_pos before]
  simp

theorem afterColon_of_mem {xs : List Char} (some' : ':' ∈ xs) (ys : List Char) :
    ∃ zs, afterColon (xs ++ ys) = some (zs ++ ys) := by
  induction xs with
  | nil => cases some'
  | cons c rest ih =>
      by_cases here : c = ':'
      · exact ⟨rest, by simp [afterColon, here]⟩
      · obtain ⟨zs, later⟩ := ih ((List.mem_cons.mp some').resolve_left (Ne.symm here))
        exact ⟨zs, by simpa [afterColon, here] using later⟩

theorem toList_spendKey (userId : String) : (cfg.spendKey userId).toList =
    cfg.keyspace.toList ++ ':' :: ("spend".toList ++ ':' :: userId.toList) := by
  simp [RedisConfig.spendKey, String.toList_append]

/-- The user is what stands behind the second colon, unless the namespace has one itself. -/
theorem userOfKey_spendKey_iff (userId : String) :
    userOfKey (cfg.spendKey userId) = userId ↔ ':' ∉ cfg.keyspace.toList := by
  have second : afterColon ("spend".toList ++ ':' :: userId.toList) = some userId.toList :=
    afterColon_of_notMem (by decide) _
  constructor
  · intro decoded inside
    obtain ⟨zs, first⟩ := afterColon_of_mem inside (':' :: ("spend".toList ++ ':' :: userId.toList))
    rw [userOfKey, toList_spendKey, first, ← String.toList_inj, String.toList_ofList] at decoded
    have lengths := congrArg List.length decoded
    -- Whatever the second colon is, more than the user stands behind it.
    by_cases more : ':' ∈ zs
    · obtain ⟨zs', rest⟩ := afterColon_of_mem more (':' :: ("spend".toList ++ ':' :: userId.toList))
      simp only [rest, Option.getD_some, List.length_append, List.length_cons] at lengths
      omega
    · simp only [afterColon_of_notMem more, Option.getD_some, List.length_append,
        List.length_cons] at lengths
      omega
  · intro none
    rw [userOfKey, toList_spendKey, afterColon_of_notMem none]
    simp only [second, Option.getD_some, String.ofList_toList]

theorem userOfKey_spendKey (plain : cfg.Plain) (userId : String) :
    userOfKey (cfg.spendKey userId) = userId :=
  (userOfKey_spendKey_iff userId).mpr fun inside => plain _ inside (by simp)

/-- A key that begins like a spend key is one. -/
theorem exists_spendKey {key : String}
    (begins : (cfg.keyspace ++ ":spend:").toList <+: key.toList) :
    ∃ userId, key = cfg.spendKey userId := by
  obtain ⟨rest, eq⟩ := begins
  refine ⟨String.ofList rest, ?_⟩
  apply String.toList_inj.mp
  rw [RedisConfig.spendKey, String.toList_append, String.toList_ofList, eq]

/-- A usage key does not. -/
theorem spendKey_ne_usageKey (userId other : String) :
    cfg.spendKey userId ≠ cfg.usageKey other := by
  intro same
  have texts := congrArg String.toList same
  simp only [RedisConfig.spendKey, RedisConfig.usageKey, String.toList_append,
    List.append_assoc] at texts
  have tails := List.append_cancel_left texts
  simp at tails

/-- Over spend keys the loop reads every user's members, once or more. -/
theorem collect_eq (plain : cfg.Plain) {keys : List String}
    (spend : ∀ key ∈ keys, (∃ userId, key = cfg.spendKey userId) ∧ s.holdsHash key = false)
    (out : String → Option ℚ) :
    s.collect keys out = (none, fun userId =>
      if cfg.spendKey userId ∈ keys then
        some (Decimal.roundTo 10 (sumMembers (s.zrange (cfg.spendKey userId))))
      else out userId) := by
  induction keys generalizing out with
  | nil => simp [collect]
  | cons key rest ih =>
      obtain ⟨⟨owner, rfl⟩, noHash⟩ := spend key List.mem_cons_self
      rw [collect, typedRange, noHash]
      simp only [Bool.false_eq_true, if_false, userOfKey_spendKey plain,
        ih fun k mem => spend k (List.mem_cons_of_mem _ mem), Prod.mk.injEq, true_and]
      funext userId
      by_cases listed : cfg.spendKey userId ∈ rest
      · simp [listed]
      · by_cases mine : userId = owner
        · subst mine
          simp [listed]
        · have other : cfg.spendKey userId ≠ cfg.spendKey owner :=
            fun same => mine (cfg.spendKey_injective same)
          simp [listed, other, mine]

/-- Spend keys tell users apart, are no usage keys, and are decoded to their user, if and only if
the namespace has no colon. -/
theorem keys_decode_iff (cfg : RedisConfig) (userId other : String) :
    ((userId ≠ other → cfg.spendKey userId ≠ cfg.spendKey other) ∧
        cfg.spendKey userId ≠ cfg.usageKey other ∧ userOfKey (cfg.spendKey userId) = userId) ↔
      ':' ∉ cfg.keyspace.toList := by
  rw [userOfKey_spendKey_iff]
  constructor
  · exact fun all => all.2.2
  · intro none
    exact ⟨mt cfg.spendKey_injective, spendKey_ne_usageKey userId other, none⟩

theorem colon_misattributes :
    userOfKey (RedisConfig.spendKey { keyspace := "llm:prod" } "alice") = "spend:alice" := by
  decide

end Report

end LLMInference
