import Mathlib.Data.Set.Function
import LLMInference.Cache
import LLMInference.Cache.Redis
import LLMInference.Lib.Json.RoundTrip

/-!
What the instances of a fleet share through the cache (`app/cache.py`): the key of a request, the
document of an entry, and the strings on the server.

* `makeCacheKey_eq_iff`: two requests have one key only if everything the key is made from agrees,
  unless the digest collides.
* `roundTrips_asdict`: the document of a typed entry reads back.
* `Shelf`: what the shared cache is for, a map from requests to entries that expire.
* `get_eq_find`: a `get` of any instance, after the stores of the fleet, finds what the shelf has.
-/

namespace LLMInference

/-- `hashlib.sha256(text.encode("utf-8")).hexdigest()`. -/
structure Digest where
  hex : String → String
  width : ∀ text, (hex text).length = 64

/-! ### Keys -/

/-- `CACHE_KEY_VERSION`. -/
def cacheKeyVersion : String := "v1"

namespace CacheKey

/-- What `make_cache_key` writes down. -/
def document (k : CacheKey) (keyspace : String) : PyDict :=
  [("v", .str keyspace), ("model", .str k.model), ("prompt", .str k.prompt),
    ("max_output_tokens", .int k.maxOutputTokens)]

def payload (f : Json.Floats) (k : CacheKey) (keyspace : String) : String :=
  Json.dumps f { ensureAscii := false, sortKeys := true } (.dict (k.document keyspace))

/-- The items in the order of their keys. -/
def sorted (k : CacheKey) (keyspace : String) : PyDict :=
  [("max_output_tokens", .int k.maxOutputTokens), ("model", .str k.model),
    ("prompt", .str k.prompt), ("v", .str keyspace)]

theorem insertionSort_document (k : CacheKey) (keyspace : String) :
    (k.document keyspace).insertionSort (fun a b => a.1 ≤ b.1) = k.sorted keyspace := by
  have first : ("v" : String) ≤ "model" ↔ False := by decide
  have second : ("v" : String) ≤ "prompt" ↔ False := by decide
  have third : ("v" : String) ≤ "max_output_tokens" ↔ False := by decide
  have fourth : ("model" : String) ≤ "prompt" := by decide
  have fifth : ("model" : String) ≤ "max_output_tokens" ↔ False := by decide
  have sixth : ("prompt" : String) ≤ "max_output_tokens" ↔ False := by decide
  simp [document, sorted, List.insertionSort, List.orderedInsert, first, second, third, fourth,
    fifth, sixth]

/-- The payload is the text of the sorted items. -/
theorem payload_eq (f : Json.Floats) (k : CacheKey) (keyspace : String) :
    k.payload f keyspace =
      Json.dumps f { ensureAscii := false, sortKeys := true } (.dict (k.sorted keyspace)) := by
  rw [← insertionSort_document, payload, Json.dumps, Json.dumps, Json.text_insertionSort rfl]

theorem document_sorted (f : Json.Floats) (k : CacheKey) (keyspace : String) :
    Json.Document f { ensureAscii := false, sortKeys := true } (.dict (k.sorted keyspace)) := by
  refine .dict (by simp [sorted]) (fun _ => ?_) ?_
  · rw [← insertionSort_document]
    exact List.pairwise_insertionSort _ _
  · simp only [sorted, List.forall_mem_cons, List.not_mem_nil, false_implies, implies_true,
      and_true]
    exact ⟨.int _, .str _, .str _, .str _⟩

/-- The payload has everything the key is made from. -/
theorem payload_inj {f : Json.Floats} {k k' : CacheKey} {keyspace keyspace' : String}
    (same : k.payload f keyspace = k'.payload f keyspace') : k = k' ∧ keyspace = keyspace' := by
  rw [payload_eq, payload_eq] at same
  have items := Json.dumps_injective (document_sorted f k keyspace) (document_sorted f k' keyspace')
    same
  cases k
  cases k'
  simp only [sorted, PyValue.dict.injEq, List.cons.injEq, Prod.mk.injEq, PyValue.int.injEq,
    PyValue.str.injEq, true_and, and_true, Nat.cast_inj] at items
  obtain ⟨limit, model, prompt, keyspaces⟩ := items
  exact ⟨by rw [limit, model, prompt], keyspaces⟩

end CacheKey

/-- `make_cache_key`. -/
def makeCacheKey (f : Json.Floats) (digest : Digest) (k : CacheKey) (keyspace : String) : String :=
  keyspace ++ ":" ++ digest.hex (k.payload f keyspace)

/-- Where the digest does not collide, a key stands for what it is made from. -/
theorem makeCacheKey_eq_iff {f : Json.Floats} {digest : Digest} {k k' : CacheKey}
    {keyspace keyspace' : String}
    (apart : digest.hex (k.payload f keyspace) = digest.hex (k'.payload f keyspace') →
      k.payload f keyspace = k'.payload f keyspace') :
    makeCacheKey f digest k keyspace = makeCacheKey f digest k' keyspace' ↔
      k = k' ∧ keyspace = keyspace' := by
  constructor
  · intro same
    have texts := congrArg String.toList same
    simp only [makeCacheKey, String.toList_append] at texts
    have widths : (digest.hex (k.payload f keyspace)).toList.length =
        (digest.hex (k'.payload f keyspace')).toList.length := by
      rw [String.length_toList, String.length_toList, digest.width, digest.width]
    exact CacheKey.payload_inj (apart (String.toList_inj.mp (List.append_inj_right' texts widths)))
  · rintro ⟨rfl, rfl⟩
    rfl

/-! ### Entries -/

/-- The document of a typed entry has no floats and no key twice. -/
theorem CacheObject.Typed.document {entry : CacheObject} (typed : entry.Typed) (f : Json.Floats)
    (ensureAscii : Bool) : Json.Document f { ensureAscii } (.dict entry.asdict) := by
  obtain ⟨⟨s, hs⟩, ⟨n, hn⟩, ⟨m, hm⟩, ⟨t, ht⟩⟩ := typed
  refine .dict (by simp [asdict]) (fun sorts => by cases sorts) ?_
  simp only [asdict, hs, hn, hm, ht, List.forall_mem_cons, List.not_mem_nil, false_implies,
    implies_true, and_true]
  exact ⟨.str _, .int _, .int _, .str _⟩

/-- What `set` writes of a typed entry reads back. -/
theorem roundTrips_asdict {entry : CacheObject} (typed : entry.Typed) (h : PyHost)
    (f : Json.Floats) (explain : String → String) :
    RoundTrips (h.withJson f explain) (Json.dumps f {}) (.dict entry.asdict) where
  written := Json.dumps_ne_empty (typed.document f true)
  read := PyHost.withJson_loads (typed.document f true) h explain

/-! ### The fleet -/

/-- An instance stores an entry; `reached` if the command gets to the server. -/
structure CacheStore where
  key : CacheKey
  entry : CacheObject
  ttlS : ℚ
  now : ℚ
  reached : Bool := true

/-- The seconds an entry is given: `max(1, int(ttl_s))`. -/
def CacheStore.seconds (st : CacheStore) : ℤ := max 1 (st.ttlS.num.tdiv st.ttlS.den)

/-- What the shared cache is for: under a request, an entry and when it expires. -/
abbrev Shelf := CacheKey → Option (CacheObject × ℚ)

namespace Shelf

def store (shelf : Shelf) (st : CacheStore) : Shelf :=
  if st.reached = true ∧ 0 < st.ttlS then
    Function.update shelf st.key (some (st.entry, st.now + st.seconds))
  else shelf

def find (shelf : Shelf) (key : CacheKey) (now : ℚ) : Option CacheObject :=
  ((shelf key).filter fun e => decide (now ≤ e.2)).map Prod.fst

end Shelf

/-- An instance of the fleet stores an entry under the key of its request. -/
def RedisStrings.store (f : Json.Floats) (digest : Digest) (c : RedisCache) (strings : RedisStrings)
    (st : CacheStore) : RedisStrings :=
  match c.set (Json.dumps f {}) (makeCacheKey f digest st.key cacheKeyVersion) st.entry st.ttlS with
  | some command => if st.reached then strings.set command st.now else strings
  | none => strings

section Fleet

variable {f : Json.Floats} {digest : Digest} {c : RedisCache}

/-- The strings of the requests in `keys` are the documents of the shelf's entries. -/
structure Refines (f : Json.Floats) (digest : Digest) (c : RedisCache) (keys : Set CacheKey)
    (strings : RedisStrings) (shelf : Shelf) : Prop where
  same : ∀ key ∈ keys, strings (c.key (makeCacheKey f digest key cacheKeyVersion)) =
    (shelf key).map fun e => ⟨Json.dumps f {} (.dict e.1.asdict), some e.2⟩
  typed : ∀ key e, shelf key = some e → e.1.Typed

/-- The digest does not collide on the payloads of these requests. -/
def KeptApart (f : Json.Floats) (digest : Digest) (keys : Set CacheKey) : Prop :=
  Set.InjOn digest.hex ((fun key => CacheKey.payload f key cacheKeyVersion) '' keys)

theorem KeptApart.key_inj {keys : Set CacheKey} (apart : KeptApart f digest keys) {k k' : CacheKey}
    (mem : k ∈ keys) (mem' : k' ∈ keys)
    (same : c.key (makeCacheKey f digest k cacheKeyVersion) =
      c.key (makeCacheKey f digest k' cacheKeyVersion)) : k = k' := by
  have keys := congrArg String.toList same
  simp only [RedisCache.key, String.toList_append, List.append_cancel_left_eq] at keys
  have separate : makeCacheKey f digest k cacheKeyVersion =
      makeCacheKey f digest k' cacheKeyVersion ↔ k = k' ∧ cacheKeyVersion = cacheKeyVersion :=
    makeCacheKey_eq_iff (apart ⟨k, mem, rfl⟩ ⟨k', mem', rfl⟩)
  exact (separate.mp (String.toList_inj.mp keys)).1

theorem refines_empty (keys : Set CacheKey) :
    Refines f digest c keys (fun _ => none) fun _ => none where
  same := fun _ _ => rfl
  typed := by
    intro key e found
    cases found

section Store

variable {keys : Set CacheKey} {strings : RedisStrings} {shelf : Shelf} {st : CacheStore}

/-- A store that stores nothing. -/
theorem Refines.skip (refines : Refines f digest c keys strings shelf)
    (idle : st.reached = false ∨ st.ttlS ≤ 0) :
    Refines f digest c keys (strings.store f digest c st) (shelf.store st) := by
  have unsent : strings.store f digest c st = strings := by
    by_cases spent : st.ttlS ≤ 0
    · simp [RedisStrings.store, RedisCache.set, spent]
    · have lost := idle.resolve_right spent
      simp [RedisStrings.store, RedisCache.set, spent, lost]
  have unshelved : shelf.store st = shelf := by
    rcases idle with lost | spent
    · exact if_neg fun both => absurd both.1 (by simp [lost])
    · exact if_neg fun both => absurd both.2 (not_lt.mpr spent)
  rwa [unsent, unshelved]

/-- A store of the fleet is a store on the shelf. -/
theorem Refines.store (refines : Refines f digest c keys strings shelf)
    (apart : KeptApart f digest keys) (known : st.key ∈ keys) (typed : st.entry.Typed) :
    Refines f digest c keys (strings.store f digest c st) (shelf.store st) := by
  by_cases does : st.reached = true ∧ 0 < st.ttlS
  · have sent : strings.store f digest c st =
        Function.update strings (c.key (makeCacheKey f digest st.key cacheKeyVersion))
          (some ⟨Json.dumps f {} (.dict st.entry.asdict), some (st.now + st.seconds)⟩) := by
      simp [RedisStrings.store, RedisCache.set, not_le.mpr does.2, does.1, RedisStrings.set,
        CacheStore.seconds]
    rw [sent, Shelf.store, if_pos does]
    constructor
    · intro key mem
      rcases eq_or_ne key st.key with rfl | other
      · rw [Function.update_self, Function.update_self]
        rfl
      · rw [Function.update_of_ne (fun same => other (apart.key_inj mem known same)),
          Function.update_of_ne other]
        exact refines.same key mem
    · intro key e found
      rcases eq_or_ne key st.key with rfl | other
      · rw [Function.update_self] at found
        cases found
        exact typed
      · rw [Function.update_of_ne other] at found
        exact refines.typed key e found
  · rw [not_and_or, Bool.not_eq_true, not_lt] at does
    exact refines.skip does

theorem Refines.stores {stores : List CacheStore} (refines : Refines f digest c keys strings shelf)
    (apart : KeptApart f digest keys) (known : ∀ st ∈ stores, st.key ∈ keys)
    (typed : ∀ st ∈ stores, st.entry.Typed) :
    Refines f digest c keys (stores.foldl (RedisStrings.store f digest c) strings)
      (stores.foldl Shelf.store shelf) := by
  induction stores generalizing strings shelf with
  | nil => exact refines
  | cons st rest ih =>
      have next := refines.store apart (known st List.mem_cons_self) (typed st List.mem_cons_self)
      exact ih next (fun st mem => known st (List.mem_cons_of_mem _ mem))
        fun st mem => typed st (List.mem_cons_of_mem _ mem)

/-- A lookup by way of the server is a lookup on the shelf. -/
theorem Refines.get (refines : Refines f digest c keys strings shelf) {key : CacheKey}
    (known : key ∈ keys) (h : PyHost) (explain : String → String) (now : ℚ) :
    (c.get (h.withJson f explain) (fun k => .ok (strings.get now k))
      (makeCacheKey f digest key cacheKeyVersion)).1 = .ok (shelf.find key now) := by
  have string := refines.same key known
  cases here : shelf key with
  | none =>
      rw [here] at string
      simp [RedisCache.get, RedisCache.miss, RedisStrings.get, string, Shelf.find, here]
  | some e =>
      obtain ⟨entry, deadline⟩ := e
      rw [here] at string
      by_cases alive : now ≤ deadline
      · have found : strings.get now (c.key (makeCacheKey f digest key cacheKeyVersion)) =
            some (Json.dumps f {} (.dict entry.asdict)) := by
          simp [RedisStrings.get, string, Volatile.live, alive]
        rw [RedisCache.get_of_document (congrArg Except.ok found)
          (roundTrips_asdict (refines.typed key _ here) h f explain)]
        simp [Shelf.find, here, alive]
      · have gone : strings.get now (c.key (makeCacheKey f digest key cacheKeyVersion)) = none := by
          simp [RedisStrings.get, string, Volatile.live, alive]
        simp [RedisCache.get, RedisCache.miss, gone, Shelf.find, here, not_le.mp alive]

end Store

/-- After any stores of typed entries by the fleet, a `get` of any of its instances finds what the
shelf has: the entry last stored for the same request, if it has not expired, and no entry of
another. -/
theorem get_eq_find (c : RedisCache) (f : Json.Floats) (digest : Digest) (h : PyHost)
    (explain : String → String) {stores : List CacheStore}
    (typed : ∀ st ∈ stores, st.entry.Typed) (key : CacheKey)
    (apart : KeptApart f digest (insert key {k | ∃ st ∈ stores, st.key = k})) (now : ℚ) :
    (c.get (h.withJson f explain)
      (fun k => .ok ((stores.foldl (RedisStrings.store f digest c) fun _ => none).get now k))
      (makeCacheKey f digest key cacheKeyVersion)).1 =
        .ok (Shelf.find (stores.foldl Shelf.store fun _ => none) key now) := by
  have refines := (refines_empty (c := c) _).stores apart
    (fun st mem => Set.mem_insert_of_mem _ ⟨st, mem, rfl⟩) typed
  exact refines.get (Set.mem_insert _ _) h explain now

end Fleet

def hello : CacheKey := { model := "small", prompt := "hi", maxOutputTokens := 16 }

def goodbye : CacheKey := { model := "small", prompt := "bye", maxOutputTokens := 16 }

/-- A host without floats, which the payloads have none of. -/
def noFloats : Json.Floats := ⟨fun _ => "", fun _ => .nan⟩

/-- The digests of the two payloads. -/
def greetingDigest : Digest where
  hex := fun text =>
    if text = hello.payload noFloats cacheKeyVersion then
      "06c56d761e693b87c2d6289777a5d3211b27201e30b13714f991b8e894c4499d"
    else "18a848a28570d8114f8f814198e307fcab0eb6bd154bfdf171c8b1da58b9abd7"
  width := fun text => by
    split <;> decide

theorem payload_goodbye :
    goodbye.payload noFloats cacheKeyVersion ≠ hello.payload noFloats cacheKeyVersion := by
  intro same
  exact absurd (CacheKey.payload_inj same).1 (by decide)

theorem keptApart_greetings : KeptApart noFloats greetingDigest {hello, goodbye} := by
  have other : greetingDigest.hex (goodbye.payload noFloats cacheKeyVersion) ≠
      greetingDigest.hex (hello.payload noFloats cacheKeyVersion) := by
    simp only [greetingDigest, if_neg payload_goodbye, if_true]
    decide
  rw [KeptApart, Set.image_pair, Set.injOn_pair]
  exact fun same => absurd same.symm other

/-- Two instances store answers for a minute. A second later each is there for every other, under
its own request. -/
theorem get_eq_find_greetings :
    let farewell : CacheObject := ⟨.str "Goodbye", .int 3, .int 2, .str "small"⟩
    let stores : List CacheStore :=
      [{ key := hello, entry := RedisCache.paris, ttlS := 60, now := 0 },
        { key := goodbye, entry := farewell, ttlS := 60, now := 0 }]
    let strings := stores.foldl (RedisStrings.store noFloats greetingDigest {}) fun _ => none
    let h := (VLLMProvider.reading []).withJson noFloats fun _ => "Expecting value"
    (RedisCache.get {} h (fun k => .ok (strings.get 1 k))
        (makeCacheKey noFloats greetingDigest hello cacheKeyVersion)).1 =
      .ok (some RedisCache.paris) ∧
    (RedisCache.get {} h (fun k => .ok (strings.get 1 k))
        (makeCacheKey noFloats greetingDigest goodbye cacheKeyVersion)).1 =
      .ok (some farewell) := by
  intro farewell stores strings h
  have typed : ∀ st ∈ stores, st.entry.Typed := by
    simp only [stores, List.forall_mem_cons, List.not_mem_nil, false_implies, implies_true,
      and_true]
    exact ⟨⟨⟨_, rfl⟩, ⟨_, rfl⟩, ⟨_, rfl⟩, ⟨_, rfl⟩⟩, ⟨_, rfl⟩, ⟨_, rfl⟩, ⟨_, rfl⟩, ⟨_, rfl⟩⟩
  have played : {k | ∃ st ∈ stores, st.key = k} = {hello, goodbye} := by
    ext k
    simp [stores, eq_comm]
  have found : ∀ key ∈ ({hello, goodbye} : Set CacheKey),
      (RedisCache.get {} h (fun k => .ok (strings.get 1 k))
          (makeCacheKey noFloats greetingDigest key cacheKeyVersion)).1 =
        .ok (Shelf.find (stores.foldl Shelf.store fun _ => none) key 1) := by
    intro key mem
    refine get_eq_find {} noFloats greetingDigest (VLLMProvider.reading [])
      (fun _ => "Expecting value") typed key ?_ 1
    rw [played, Set.insert_eq_of_mem mem]
    exact keptApart_greetings
  have other : hello ≠ goodbye := by decide
  constructor
  · rw [found hello (Set.mem_insert _ _)]
    simp [Shelf.find, Shelf.store, stores, CacheStore.seconds, other]
  · rw [found goodbye (Set.mem_insert_of_mem _ rfl)]
    simp [Shelf.find, Shelf.store, stores, CacheStore.seconds]

end LLMInference
