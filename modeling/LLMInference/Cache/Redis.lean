import LLMInference.Cost.Redis
import LLMInference.Providers.Malformed

/-!
The shared response cache (`app/cache.py`, `RedisCache`).

An entry travels as a JSON object. What comes back is checked by `json.loads` and by
`CacheEntry(**data)`, and a dataclass looks at the names of its fields only.

* `CacheObject`: an entry as the interpreter has it. `ofKeywords_eq_some_iff`: when there is one.
* `serves_typed_iff`: `get` returns or misses as it should exactly when what is stored is
  `Servable`: a document that is decoded, or fails in a way `get` expects, and has the types of the
  fields if it has their names. What `set` has stored comes back.
-/

namespace LLMInference

/-- A `CacheEntry` as the interpreter has it: a field takes any value. -/
structure CacheObject where
  text : PyValue
  inputTokens : PyValue
  outputTokens : PyValue
  model : PyValue

namespace CacheObject

/-- The fields have the types they are declared with. -/
structure Typed (entry : CacheObject) : Prop where
  text : ∃ s, entry.text = .str s
  inputTokens : ∃ n, entry.inputTokens = .int n
  outputTokens : ∃ n, entry.outputTokens = .int n
  model : ∃ s, entry.model = .str s

def fields : List String := ["text", "input_tokens", "output_tokens", "model"]

/-- `asdict(entry)`. -/
def asdict (entry : CacheObject) : PyDict :=
  [("text", entry.text), ("input_tokens", entry.inputTokens),
    ("output_tokens", entry.outputTokens), ("model", entry.model)]

/-- `CacheEntry(**data)`: no keyword is unexpected and none is missing. All else is a `TypeError`,
`none` here. -/
def ofKeywords : PyValue → Option CacheObject
  | .dict items =>
      if ∀ item ∈ items, item.1 ∈ fields then do
        let text ← items.lookup "text"
        let inputTokens ← items.lookup "input_tokens"
        let outputTokens ← items.lookup "output_tokens"
        let model ← items.lookup "model"
        return { text, inputTokens, outputTokens, model }
      else none
  | _ => none

end CacheObject

/-- `SET key value EX seconds`. -/
structure SetCommand where
  key : String
  value : String
  seconds : ℤ
  deriving DecidableEq, Repr

/-- The strings on the server. -/
abbrev RedisStrings := String → Option (Volatile String)

namespace RedisStrings

/-- The server executes `SET`. -/
def set (strings : RedisStrings) (command : SetCommand) (now : ℚ) : RedisStrings :=
  Function.update strings command.key (some ⟨command.value, some (now + command.seconds)⟩)

/-- The server executes `GET`. -/
def get (strings : RedisStrings) (now : ℚ) (key : String) : Option String :=
  ((strings key).filter (·.live now)).map (·.value)

/-- A string is read until its time is up. -/
theorem get_set (strings : RedisStrings) (command : SetCommand) {now later : ℚ}
    (alive : later ≤ now + command.seconds) :
    (strings.set command now).get later command.key = some command.value := by
  rw [get, set, Function.update_self, Option.filter_some, Volatile.live, Option.all_some,
    decide_eq_true alive, if_pos rfl, Option.map_some]

end RedisStrings

structure RedisCache where
  /-- `namespace`. -/
  keyspace : String := "llm:cache"
  hits : ℕ := 0
  misses : ℕ := 0
  deriving DecidableEq, Repr

namespace RedisCache

/-- What `get` catches of decoding: `except (json.JSONDecodeError, TypeError, ValueError)`, with the
built-in exceptions below these. -/
def expected : List String :=
  ["JSONDecodeError", "TypeError", "ValueError", "UnicodeError", "UnicodeDecodeError",
    "UnicodeEncodeError", "UnicodeTranslateError"]

variable (c : RedisCache)

/-- `_key`. -/
def key (key : String) : String := c.keyspace ++ ":" ++ key

def miss : Except PyError (Option CacheObject) × RedisCache :=
  (.ok none, { c with misses := c.misses + 1 })

/-- `get`. The client answers with a string, with none, or raises. -/
def get (h : PyHost) (client : String → Except PyError (Option String)) (key : String) :
    Except PyError (Option CacheObject) × RedisCache :=
  match client (c.key key) with
  | .error _ => c.miss
  | .ok none => c.miss
  | .ok (some raw) =>
      if raw = "" then c.miss
      else
        match h.loads raw with
        | .error e => if e.typeName ∈ expected then c.miss else (.error e, c)
        | .ok data =>
            match CacheObject.ofKeywords data with
            | none => c.miss
            | some entry => (.ok (some entry), { c with hits := c.hits + 1 })

/-- `set`: the command it sends, if any. An exception of the client is caught. -/
def set (dumps : PyValue → String) (key : String) (entry : CacheObject) (ttlS : ℚ) :
    Option SetCommand :=
  if ttlS ≤ 0 then none
  else some
    { key := c.key key
      value := dumps (.dict entry.asdict)
      seconds := max 1 (ttlS.num.tdiv ttlS.den) }

end RedisCache

/-! ### What is served -/

/-- The object has the fields of an entry, and no other. -/
def HasFields (items : PyDict) : Prop :=
  (∀ item ∈ items, item.1 ∈ CacheObject.fields) ∧
    ∀ field ∈ CacheObject.fields, ∃ x, items.lookup field = some x

/-- Texts and integers stand where an entry has them. -/
structure OfSchema (items : PyDict) : Prop where
  text : ∃ s, items.lookup "text" = some (.str s)
  inputTokens : ∃ n, items.lookup "input_tokens" = some (.int n)
  outputTokens : ∃ n, items.lookup "output_tokens" = some (.int n)
  model : ∃ s, items.lookup "model" = some (.str s)

/-- A string that does no harm under a key: its decoding fails in a way that is caught, or gives no
object with the fields of an entry, or one with their types. -/
structure Servable (h : PyHost) (raw : String) : Prop where
  caught : ∀ e, h.loads raw = .error e → e.typeName ∈ RedisCache.expected
  typed : ∀ items, h.loads raw = .ok (.dict items) → HasFields items → OfSchema items

/-- The document reads back. -/
structure RoundTrips (h : PyHost) (dumps : PyValue → String) (x : PyValue) : Prop where
  written : dumps x ≠ ""
  read : h.loads (dumps x) = .ok x

namespace CacheObject

variable {x : PyValue} {items : PyDict} {entry : CacheObject}

/-- Which objects are entries. -/
theorem ofKeywords_eq_some_iff : ofKeywords x = some entry ↔ ∃ items, x = .dict items ∧
    (∀ item ∈ items, item.1 ∈ fields) ∧ items.lookup "text" = some entry.text ∧
      items.lookup "input_tokens" = some entry.inputTokens ∧
        items.lookup "output_tokens" = some entry.outputTokens ∧
          items.lookup "model" = some entry.model := by
  cases x with
  | dict items =>
      simp only [ofKeywords, PyValue.dict.injEq, exists_eq_left']
      split
      · rename_i known
        simp only [Option.bind_eq_bind, Option.bind_eq_some_iff, Option.pure_def,
          Option.some.injEq]
        constructor
        · rintro ⟨text, hasText, inputs, hasInputs, outputs, hasOutputs, model, hasModel, rfl⟩
          exact ⟨known, hasText, hasInputs, hasOutputs, hasModel⟩
        · rintro ⟨-, hasText, hasInputs, hasOutputs, hasModel⟩
          exact ⟨_, hasText, _, hasInputs, _, hasOutputs, _, hasModel, rfl⟩
      · rename_i unknown
        constructor
        · intro made
          cases made
        · rintro ⟨known, -⟩
          exact absurd known unknown
  | _ => simp [ofKeywords]

/-- An object is an entry if it has the fields. -/
theorem exists_ofKeywords_iff :
    (∃ entry, ofKeywords (.dict items) = some entry) ↔ HasFields items := by
  simp only [ofKeywords_eq_some_iff, PyValue.dict.injEq, exists_eq_left']
  constructor
  · rintro ⟨entry, known, text, inputs, outputs, model⟩
    refine ⟨known, fun field mem => ?_⟩
    simp only [fields, List.mem_cons, List.not_mem_nil, or_false] at mem
    rcases mem with rfl | rfl | rfl | rfl
    · exact ⟨_, text⟩
    · exact ⟨_, inputs⟩
    · exact ⟨_, outputs⟩
    · exact ⟨_, model⟩
  · rintro ⟨known, complete⟩
    obtain ⟨text, hasText⟩ := complete "text" (by simp [fields])
    obtain ⟨inputs, hasInputs⟩ := complete "input_tokens" (by simp [fields])
    obtain ⟨outputs, hasOutputs⟩ := complete "output_tokens" (by simp [fields])
    obtain ⟨model, hasModel⟩ := complete "model" (by simp [fields])
    exact ⟨⟨text, inputs, outputs, model⟩, known, hasText, hasInputs, hasOutputs, hasModel⟩

theorem typed_iff (made : ofKeywords (.dict items) = some entry) :
    entry.Typed ↔ OfSchema items := by
  obtain ⟨_, same, -, text, inputs, outputs, model⟩ := ofKeywords_eq_some_iff.mp made
  cases same
  constructor
  · rintro ⟨⟨s, hs⟩, ⟨n, hn⟩, ⟨m, hm⟩, ⟨t, ht⟩⟩
    exact ⟨⟨s, hs ▸ text⟩, ⟨n, hn ▸ inputs⟩, ⟨m, hm ▸ outputs⟩, ⟨t, ht ▸ model⟩⟩
  · rintro ⟨⟨s, hs⟩, ⟨n, hn⟩, ⟨m, hm⟩, ⟨t, ht⟩⟩
    exact ⟨⟨s, Option.some.inj (text.symm.trans hs)⟩, ⟨n, Option.some.inj (inputs.symm.trans hn)⟩,
      ⟨m, Option.some.inj (outputs.symm.trans hm)⟩, ⟨t, Option.some.inj (model.symm.trans ht)⟩⟩

/-- The object of an entry makes the entry. -/
theorem ofKeywords_asdict (entry : CacheObject) :
    ofKeywords (.dict entry.asdict) = some entry := by
  rw [ofKeywords_eq_some_iff]
  exact ⟨_, rfl, by simp [asdict, fields], rfl, rfl, rfl, rfl⟩

end CacheObject

namespace RedisCache

/-- `get` does not raise, and what it returns has the types of an entry. -/
def ServesTyped (c : RedisCache) (h : PyHost) (client : String → Except PyError (Option String))
    (key : String) : Prop :=
  ∃ found, (c.get h client key).1 = .ok found ∧ ∀ entry, found = some entry → entry.Typed

section Served

variable {c : RedisCache} {h : PyHost} {client : String → Except PyError (Option String)}
  {key raw : String} {entry : CacheObject}

theorem servesTyped_of_miss (missed : c.get h client key = c.miss) :
    c.ServesTyped h client key := by
  refine ⟨none, by rw [missed, miss], fun entry found => ?_⟩
  cases found

theorem servesTyped_of_raw (replied : client (c.key key) = .ok (some raw)) (some' : raw ≠ "") :
    c.ServesTyped h client key ↔ Servable h raw := by
  cases decoded : h.loads raw with
  | error e =>
      by_cases known : e.typeName ∈ expected
      · refine iff_of_true (servesTyped_of_miss ?_) ⟨?_, ?_⟩
        · simp [get, replied, some', decoded, known]
        · intro e' failed
          cases decoded.symm.trans failed
          exact known
        · intro items read
          cases decoded.symm.trans read
      · refine iff_of_false ?_ fun servable => known (servable.caught e decoded)
        rintro ⟨found, returned, -⟩
        simp [get, replied, some', decoded, known] at returned
  | ok data =>
      cases made : CacheObject.ofKeywords data with
      | none =>
          refine iff_of_true (servesTyped_of_miss ?_) ⟨?_, ?_⟩
          · simp [get, replied, some', decoded, made]
          · intro e failed
            cases decoded.symm.trans failed
          · intro items read complete
            cases decoded.symm.trans read
            obtain ⟨entry, made'⟩ := CacheObject.exists_ofKeywords_iff.mpr complete
            cases made.symm.trans made'
      | some entry =>
          have returned : (c.get h client key).1 = .ok (some entry) := by
            simp [get, replied, some', decoded, made]
          obtain ⟨items, rfl, -⟩ := CacheObject.ofKeywords_eq_some_iff.mp made
          constructor
          · rintro ⟨found, found', typed⟩
            cases returned.symm.trans found'
            refine ⟨?_, ?_⟩
            · intro e failed
              cases decoded.symm.trans failed
            · intro items' read _
              cases decoded.symm.trans read
              exact (CacheObject.typed_iff made).mp (typed entry rfl)
          · intro servable
            have complete := CacheObject.exists_ofKeywords_iff.mp ⟨entry, made⟩
            refine ⟨some entry, returned, fun entry' same => ?_⟩
            cases same
            exact (CacheObject.typed_iff made).mpr (servable.typed items decoded complete)

/-- A document that reads back is served. -/
theorem get_of_document {dumps : PyValue → String}
    (replied : client (c.key key) = .ok (some (dumps (.dict entry.asdict))))
    (trip : RoundTrips h dumps (.dict entry.asdict)) :
    (c.get h client key).1 = .ok (some entry) := by
  simp [get, replied, trip.written, trip.read, CacheObject.ofKeywords_asdict]

/-- An entry that `set` has sent and the server has stored is found until its time is up. -/
theorem get_of_set {writer : RedisCache} {dumps : PyValue → String} {ttlS now later : ℚ}
    {command : SetCommand} (shared : writer.keyspace = c.keyspace)
    (trip : RoundTrips h dumps (.dict entry.asdict))
    (sent : writer.set dumps key entry ttlS = some command) (strings : RedisStrings)
    (alive : later ≤ now + command.seconds) :
    (c.get h (fun k => .ok ((strings.set command now).get later k)) key).1 = .ok (some entry) := by
  have same : c.key key = writer.key key := by rw [RedisCache.key, RedisCache.key, shared]
  have stored := RedisStrings.get_set strings command alive
  unfold set at sent
  split at sent
  · cases sent
  · cases sent
    exact get_of_document (congrArg Except.ok (same ▸ stored)) trip

/-- `get` is right about what the client answers if and only if a string it answers with, unless
that is empty, does no harm; and every entry that `set` is given with a positive time to live is
sent, lives for a second or longer, and comes back to every cache of the fleet until it expires. -/
theorem serves_typed_iff (c : RedisCache) (h : PyHost) (dumps : PyValue → String) :
    (∀ client key, c.ServesTyped h client key ↔
      ∀ raw, client (c.key key) = .ok (some raw) → raw ≠ "" → Servable h raw) ∧
    ∀ (writer : RedisCache) (key : String) (entry : CacheObject) (ttlS : ℚ),
      writer.keyspace = c.keyspace → RoundTrips h dumps (.dict entry.asdict) → 0 < ttlS →
      ∃ command, writer.set dumps key entry ttlS = some command ∧ 1 ≤ command.seconds ∧
        ∀ (strings : RedisStrings) (now later : ℚ), later ≤ now + command.seconds →
          (c.get h (fun k => .ok ((strings.set command now).get later k)) key).1 =
            .ok (some entry) := by
  refine ⟨fun client key => ?_, fun writer key entry ttlS shared trip positive => ?_⟩
  · constructor
    · intro serves raw replied some'
      exact (servesTyped_of_raw replied some').mp serves
    · intro servable
      cases replied : client (c.key key) with
      | error e => exact servesTyped_of_miss (by simp [get, replied])
      | ok reply =>
          cases reply with
          | none => exact servesTyped_of_miss (by simp [get, replied])
          | some raw =>
              rcases eq_or_ne raw "" with rfl | some'
              · exact servesTyped_of_miss (by simp [get, replied])
              · exact (servesTyped_of_raw replied some').mpr (servable raw replied some')
  · have sent : writer.set dumps key entry ttlS = some _ := if_neg (not_le.mpr positive)
    refine ⟨_, sent, le_max_left .., fun strings now later alive => ?_⟩
    exact get_of_set shared trip sent strings alive

end Served

/-- An entry whose text is a number, as another version or a hand may have left it. -/
def driftedText : String :=
  "\x7b\"text\": 5, \"input_tokens\": 3, \"output_tokens\": 1, \"model\": \"small\"\x7d"

def drifted : CacheObject := ⟨.int 5, .int 3, .int 1, .str "small"⟩

/-- It is served. -/
theorem drifted_is_served :
    let h := VLLMProvider.reading [(driftedText, .dict drifted.asdict)]
    (RedisCache.get {} h (fun _ => .ok (some driftedText)) "k").1 = .ok (some drifted) ∧
      ¬RedisCache.ServesTyped {} h (fun _ => .ok (some driftedText)) "k" := by
  intro h
  have served : (RedisCache.get {} h (fun _ => .ok (some driftedText)) "k").1 =
      .ok (some drifted) := by
    rfl
  refine ⟨served, ?_⟩
  rintro ⟨found, returned, typed⟩
  cases served.symm.trans returned
  obtain ⟨s, text⟩ := (typed drifted rfl).text
  cases text

/-- The document `json.dumps` makes of an entry. -/
def parisText : String :=
  "\x7b\"text\": \"Paris\", \"input_tokens\": 3, \"output_tokens\": 1, \"model\": \"small\"\x7d"

def paris : CacheObject := ⟨.str "Paris", .int 3, .int 1, .str "small"⟩

/-- It comes back a second later. -/
theorem serves_typed_iff_paris :
    ∃ command, RedisCache.set {} (fun _ => parisText) "k" paris 60 = some command ∧
      (RedisCache.get {} (VLLMProvider.reading [(parisText, .dict paris.asdict)])
        (fun k => .ok ((RedisStrings.set (fun _ => none) command 0).get 1 k)) "k").1 =
          .ok (some paris) := by
  obtain ⟨command, sent, lives, back⟩ :=
    (serves_typed_iff {} (VLLMProvider.reading [(parisText, .dict paris.asdict)])
      fun _ => parisText).2 {} "k" paris 60 rfl ⟨by decide, by rfl⟩ (by norm_num)
  refine ⟨command, sent, back _ 0 1 ?_⟩
  rw [zero_add]
  exact_mod_cast lives

end RedisCache

end LLMInference
