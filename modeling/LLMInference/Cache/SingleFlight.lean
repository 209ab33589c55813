import LLMInference.Lib.Pool
import LLMInference.Lib.PyValue
import LLMInference.Lib.Runs
import Mathlib.Data.List.AList

/-!
`SingleFlight.run` (`app/cache.py`) on an event loop.

A caller runs without interruption up to its one `await`, and from there to its end when it is
resumed. The first caller for a key starts the factory as a task and awaits the task itself; those
who find the key in the table await a shield of it. `Task.cancel` goes to what the caller awaits: an
unfinished task is cancelled with its first caller, a shield alone with any other.

The factory is an async function: to call it only makes what the task runs. An execution is to
produce `due`. Once it has been cancelled the factory may do anything: let `CancelledError` through,
clean up and fail, or come to its value all the same.

* `Sound`: the table holds the executions whose first caller has not returned.
* `one_execution_per_key`: so at most one execution per key is unfinished, an entry is removed by
  its own first caller only, and the table is empty when all callers have returned.
-/

namespace LLMInference

open Runs

namespace SingleFlight

/-- `asyncio.CancelledError`. -/
def cancelledError : PyError := ⟨"CancelledError", ""⟩

/-- A factory that runs as a task. -/
structure Execution (α : Type) where
  key : String
  /-- The first caller, who awaits the task itself. -/
  leader : ℕ
  /-- What the factory produces when it is left alone. -/
  due : Except PyError α
  /-- The task has been asked to stop. -/
  cancelled : Bool := false
  outcome : Option (Except PyError α) := none

/-- A caller that has got as far as its `await`. -/
structure Caller (α : Type) where
  awaits : ℕ
  cancelled : Bool := false
  /-- `CancelledError` is thrown into it when it is resumed. -/
  mustCancel : Bool := false
  /-- What `run` has returned or raised. -/
  result : Option (Except PyError α) := none

/-- The table and what the loop runs. Executions and callers go by the order of their start. -/
structure World (α : Type) where
  inflight : AList (fun _ : String => ℕ) := ∅
  executions : List (Execution α) := []
  callers : List (Caller α) := []

inductive Act (α : Type) where
  /-- A caller enters `run`; its factory would produce `due`. -/
  | run (key : String) (due : Except PyError α)
  /-- The execution produces what it was to. -/
  | finish (e : ℕ)
  /-- The execution, asked to stop, ends in a way of its own. -/
  | divert (e : ℕ) (outcome : Except PyError α)
  /-- `Task.cancel` of a caller that has not returned. -/
  | cancel (i : ℕ)
  /-- The loop resumes a caller. -/
  | resume (i : ℕ)

variable {α : Type}

/-- What a caller is resumed with, once it can be. -/
def Caller.wake (c : Caller α) (x : Execution α) : Option (Except PyError α) :=
  if c.mustCancel then some (.error cancelledError) else x.outcome

/-- Uninterrupted, with what the execution has produced. -/
theorem Caller.wake_of_free {c : Caller α} (free : c.mustCancel = false) (x : Execution α) :
    c.wake x = x.outcome := by
  rw [Caller.wake, free, if_neg Bool.false_ne_true]

namespace World

/-- `inflight_count()`. -/
def inflightCount (w : World α) : ℕ := w.inflight.keys.length

/-- A caller awaits a shield. The shield of a finished task is the task. -/
def join (w : World α) (e : ℕ) (x : Execution α) : World α :=
  { w with callers := w.callers ++ [{ awaits := e, result := x.outcome }] }

/-- A caller starts the factory and awaits the task. -/
def launch (w : World α) (key : String) (due : Except PyError α) : World α where
  inflight := w.inflight.insert key w.executions.length
  executions := w.executions ++ [{ key, leader := w.callers.length, due }]
  callers := w.callers ++ [{ awaits := w.executions.length }]

/-- `run` up to its `await`. -/
def enter (w : World α) (key : String) (due : Except PyError α) : Option (World α) :=
  match w.inflight.lookup key with
  | some e => w.executions[e]?.map (w.join e)
  | none => some (w.launch key due)

/-- The execution comes to its end. -/
def settle (w : World α) (e : ℕ) (x : Execution α) (outcome : Except PyError α) : World α :=
  { w with executions := w.executions.set e { x with outcome := some outcome } }

/-- The cancellation goes to the task the caller awaits. -/
def passOn (w : World α) (i : ℕ) (c : Caller α) (x : Execution α) : World α :=
  { w with
    executions := w.executions.set c.awaits { x with cancelled := true }
    callers := w.callers.set i { c with cancelled := true } }

/-- The cancellation stays with the caller. -/
def interrupt (w : World α) (i : ℕ) (c : Caller α) : World α :=
  { w with callers := w.callers.set i { c with cancelled := true, mustCancel := true } }

/-- `run` after its `await`: the first caller removes its key. -/
def leave (w : World α) (i : ℕ) (c : Caller α) (x : Execution α) (r : Except PyError α) : World α :=
  { w with
    inflight := if x.leader = i then w.inflight.erase x.key else w.inflight
    callers := w.callers.set i { c with result := some r } }

def step (w : World α) : Act α → Option (World α)
  | .run key due => w.enter key due
  | .finish e => do
      let x ← w.executions[e]?
      if x.outcome.isNone then some (w.settle e x x.due) else none
  | .divert e outcome => do
      let x ← w.executions[e]?
      if x.outcome.isNone ∧ x.cancelled then some (w.settle e x outcome) else none
  | .cancel i => do
      let c ← w.callers[i]?
      let x ← w.executions[c.awaits]?
      if c.result.isNone then
        if x.leader = i ∧ x.outcome.isNone then some (w.passOn i c x)
        else some (w.interrupt i c)
      else none
  | .resume i => do
      let c ← w.callers[i]?
      let x ← w.executions[c.awaits]?
      if c.result.isNone then (c.wake x).map (w.leave i c x) else none

/-- What a step does. -/
inductive Trans (w : World α) : Act α → World α → Prop
  | joins {key : String} {due : Except PyError α} {e : ℕ} {x : Execution α}
      (entry : w.inflight.lookup key = some e) (runs : w.executions[e]? = some x) :
      Trans w (.run key due) (w.join e x)
  | launches {key : String} {due : Except PyError α} (absent : w.inflight.lookup key = none) :
      Trans w (.run key due) (w.launch key due)
  | finishes {e : ℕ} {x : Execution α} (runs : w.executions[e]? = some x)
      (unfinished : x.outcome = none) : Trans w (.finish e) (w.settle e x x.due)
  | diverts {e : ℕ} {x : Execution α} {outcome : Except PyError α}
      (runs : w.executions[e]? = some x) (unfinished : x.outcome = none)
      (asked : x.cancelled = true) : Trans w (.divert e outcome) (w.settle e x outcome)
  | passesOn {i : ℕ} {c : Caller α} {x : Execution α} (here : w.callers[i]? = some c)
      (runs : w.executions[c.awaits]? = some x) (waits : c.result = none) (leads : x.leader = i)
      (unfinished : x.outcome = none) : Trans w (.cancel i) (w.passOn i c x)
  | interrupts {i : ℕ} {c : Caller α} {x : Execution α} (here : w.callers[i]? = some c)
      (runs : w.executions[c.awaits]? = some x) (waits : c.result = none)
      (apart : x.leader = i → x.outcome.isSome = true) : Trans w (.cancel i) (w.interrupt i c)
  | returns {i : ℕ} {c : Caller α} {x : Execution α} {r : Except PyError α}
      (here : w.callers[i]? = some c) (runs : w.executions[c.awaits]? = some x)
      (waits : c.result = none) (woken : c.wake x = some r) :
      Trans w (.resume i) (w.leave i c x r)

theorem trans_of_step {w w' : World α} {a : Act α} (stepped : w.step a = some w') :
    Trans w a w' := by
  cases a with
  | run key due =>
      simp only [step, enter] at stepped
      cases entry : w.inflight.lookup key with
      | none =>
          simp only [entry, Option.some.injEq] at stepped
          exact stepped ▸ .launches entry
      | some e =>
          simp only [entry, Option.map_eq_some_iff] at stepped
          obtain ⟨x, runs, rfl⟩ := stepped
          exact .joins entry runs
  | finish e =>
      simp only [step, Option.bind_eq_bind, Option.bind_eq_some_iff] at stepped
      obtain ⟨x, runs, stepped⟩ := stepped
      split at stepped
      · rename_i unfinished
        cases stepped
        exact .finishes runs (Option.isNone_iff_eq_none.mp unfinished)
      · cases stepped
  | divert e outcome =>
      simp only [step, Option.bind_eq_bind, Option.bind_eq_some_iff] at stepped
      obtain ⟨x, runs, stepped⟩ := stepped
      split at stepped
      · rename_i open'
        cases stepped
        exact .diverts runs (Option.isNone_iff_eq_none.mp open'.1) open'.2
      · cases stepped
  | cancel i =>
      simp only [step, Option.bind_eq_bind, Option.bind_eq_some_iff] at stepped
      obtain ⟨c, here, x, runs, stepped⟩ := stepped
      split at stepped
      · rename_i waits
        have waits := Option.isNone_iff_eq_none.mp waits
        split at stepped
        · rename_i awaited
          cases stepped
          exact .passesOn here runs waits awaited.1 (Option.isNone_iff_eq_none.mp awaited.2)
        · rename_i apart
          cases stepped
          refine .interrupts here runs waits fun leads => ?_
          by_contra unfinished
          rw [Option.not_isSome_iff_eq_none, ← Option.isNone_iff_eq_none] at unfinished
          exact apart ⟨leads, unfinished⟩
      · cases stepped
  | resume i =>
      simp only [step, Option.bind_eq_bind, Option.bind_eq_some_iff] at stepped
      obtain ⟨c, here, x, runs, stepped⟩ := stepped
      split at stepped
      · rename_i waits
        obtain ⟨r, woken, rfl⟩ := Option.map_eq_some_iff.mp stepped
        exact .returns here runs (Option.isNone_iff_eq_none.mp waits) woken
      · cases stepped

/-! ### The table -/

/-- What never changes of an execution: its key and its first caller. -/
def heads (w : World α) : List (String × ℕ) := w.executions.map fun x => (x.key, x.leader)

/-- Who has not returned. -/
def waiting (w : World α) : List Bool := w.callers.map (·.result.isNone)

/-- An execution for the key whose first caller has not returned. -/
def Held (w : World α) (key : String) (e : ℕ) : Prop :=
  ∃ i, w.heads[e]? = some (key, i) ∧ w.waiting[i]? = some true

/-- The first caller awaits the execution; once it is to leave, the execution is over. -/
def Led (callers : List (Caller α)) (e : ℕ) (x : Execution α) : Prop :=
  ∃ c, callers[x.leader]? = some c ∧ c.awaits = e ∧
    (c.result.isSome = true ∨ c.mustCancel = true → x.outcome.isSome = true)

structure Sound (w : World α) : Prop where
  awaited : ∀ c ∈ w.callers, c.awaits < w.executions.length
  led : Pool.Each (Led w.callers) w.executions
  table : ∀ key e, w.inflight.lookup key = some e ↔ w.Held key e

section Table

variable {w w' : World α} {a : Act α} {key : String} {e i : ℕ} {c c' : Caller α} {x : Execution α}
  {callers : List (Caller α)}

theorem held_iff : w.Held key e ↔ ∃ x c, w.executions[e]? = some x ∧ x.key = key ∧
    w.callers[x.leader]? = some c ∧ c.result = none := by
  simp only [Held, heads, waiting, List.getElem?_map, Option.map_eq_some_iff, Prod.mk.injEq,
    Option.isNone_iff_eq_none]
  constructor
  · rintro ⟨i, ⟨x, runs, keyed, rfl⟩, c, here, waits⟩
    exact ⟨x, c, runs, keyed, here, waits⟩
  · rintro ⟨x, c, runs, keyed, here, waits⟩
    exact ⟨x.leader, ⟨x, runs, keyed, rfl⟩, c, here, waits⟩

theorem Led.spawn (led : Led callers e x) (d : Caller α) : Led (callers ++ [d]) e x := by
  obtain ⟨c, here, rest⟩ := led
  exact ⟨c, Pool.get_old here _, rest⟩

theorem Led.step (led : Led callers e x) (here : callers[i]? = some c)
    (same : c'.awaits = c.awaits)
    (ended : x.leader = i → c.awaits = e → c'.result.isSome = true ∨ c'.mustCancel = true →
      x.outcome.isSome = true) : Led (callers.set i c') e x := by
  obtain ⟨d, there, awaits, rest⟩ := led
  rcases eq_or_ne x.leader i with mine | other
  · rw [mine] at there
    cases here.symm.trans there
    exact ⟨c', mine ▸ Pool.get_set_self here c', same.trans awaits, ended mine awaits⟩
  · exact ⟨d, (List.getElem?_set_ne other.symm).trans there, awaits, rest⟩

/-- A caller that changes awaits what it has awaited. -/
theorem Sound.awaited_set (sound : w.Sound) (runs : w.executions[c.awaits]? = some x)
    {d : Caller α} (mem : d ∈ w.callers.set i c') (same : c'.awaits = c.awaits) :
    d.awaits < w.executions.length := by
  rcases List.mem_or_eq_of_mem_set mem with old | rfl
  · exact sound.awaited d old
  · exact same ▸ (List.getElem?_eq_some_iff.mp runs).1

/-- A first caller leads the execution it awaits. -/
theorem Sound.leads (sound : w.Sound) (here : w.callers[i]? = some c)
    (runs : w.executions[c.awaits]? = some x) {y : Execution α} (there : w.executions[e]? = some y)
    (leads : y.leader = i) : e = c.awaits ∧ y = x := by
  obtain ⟨d, found, awaits, -⟩ := sound.led e y there
  rw [leads] at found
  cases here.symm.trans found
  rw [awaits] at runs
  exact ⟨awaits.symm, Option.some.inj (there.symm.trans runs)⟩

/-- The first caller's entry, until it returns. -/
theorem Sound.entry (sound : w.Sound) (here : w.callers[i]? = some c)
    (runs : w.executions[c.awaits]? = some x) (waits : c.result = none) (leads : x.leader = i) :
    w.inflight.lookup x.key = some c.awaits :=
  (sound.table ..).mpr (held_iff.mpr ⟨x, c, runs, rfl, leads ▸ here, waits⟩)

/-- What leaves the heads and the waiting callers alone leaves the executions in the table. -/
theorem held_congr (heads : w'.heads = w.heads) (waiting : w'.waiting = w.waiting) :
    w.Held key e ↔ w'.Held key e := by
  rw [Held, Held, heads, waiting]

/-- A first caller is one of the callers. -/
theorem Sound.leader_lt (sound : w.Sound) (head : w.heads[e]? = some (key, i)) :
    i < w.waiting.length := by
  rw [heads, List.getElem?_map, Option.map_eq_some_iff] at head
  obtain ⟨x, runs, same⟩ := head
  cases same
  obtain ⟨c, here, -⟩ := sound.led e x runs
  rw [waiting, List.length_map]
  exact (List.getElem?_eq_some_iff.mp here).1

theorem heads_launch {due : Except PyError α} :
    (w.launch key due).heads = w.heads ++ [(key, w.waiting.length)] := by
  simp [heads, waiting, launch]

theorem waiting_launch {due : Except PyError α} :
    (w.launch key due).waiting = w.waiting ++ [true] := by
  simp [waiting, launch]

theorem waiting_leave {r : Except PyError α} :
    (w.leave i c x r).waiting = w.waiting.set i false :=
  List.map_set

/-- A caller who joins leaves them as well. -/
theorem Sound.held_join (sound : w.Sound) {k : String} {e' : ℕ} :
    (w.join e x).Held k e' ↔ w.Held k e' := by
  have waits : (w.join e x).waiting = w.waiting ++ [x.outcome.isNone] := List.map_append
  rw [Held, Held, waits]
  refine exists_congr fun i => and_congr_right fun head => ?_
  rw [List.getElem?_append_left (sound.leader_lt head)]

/-- A caller who starts an execution holds it. -/
theorem Sound.held_launch (sound : w.Sound) {due : Except PyError α} {k : String} :
    (w.launch key due).Held k e ↔ w.Held k e ∨ k = key ∧ e = w.heads.length := by
  rw [Held, Held, heads_launch, waiting_launch]
  constructor
  · rintro ⟨i, head, waits⟩
    rcases Pool.get_spawn head with old | ⟨rfl, new⟩
    · rw [List.getElem?_append_left (sound.leader_lt old)] at waits
      exact .inl ⟨i, old, waits⟩
    · cases new
      exact .inr ⟨rfl, rfl⟩
  · rintro (⟨i, head, waits⟩ | ⟨rfl, rfl⟩)
    · exact ⟨i, Pool.get_old head _, Pool.get_old waits _⟩
    · exact ⟨_, List.getElem?_concat_length, List.getElem?_concat_length⟩

/-- A caller who returns holds nothing any more. -/
theorem held_leave {r : Except PyError α} {k : String} :
    (w.leave i c x r).Held k e ↔ w.Held k e ∧ w.heads[e]? ≠ some (k, i) := by
  have heads : (w.leave i c x r).heads = w.heads := rfl
  rw [Held, Held, heads, waiting_leave]
  constructor
  · rintro ⟨j, head, waits⟩
    rcases Pool.get_set waits with ⟨-, off⟩ | ⟨ne, old⟩
    · cases off
    · refine ⟨⟨j, head, old⟩, fun mine => ne ?_⟩
      cases head.symm.trans mine
      rfl
  · rintro ⟨⟨j, head, waits⟩, other⟩
    have ne : i ≠ j := by
      rintro rfl
      exact other head
    exact ⟨j, head, (List.getElem?_set_ne ne).trans waits⟩

theorem Sound.start : ({} : World α).Sound where
  awaited := fun _ mem => by cases mem
  led := .nil _
  table := by simp [Held, heads]

theorem Sound.join (sound : w.Sound) (runs : w.executions[e]? = some x) : (w.join e x).Sound where
  awaited := by
    intro d mem
    rcases List.mem_append.mp mem with old | new
    · exact sound.awaited d old
    · rw [List.mem_singleton.mp new]
      exact (List.getElem?_eq_some_iff.mp runs).1
  led := sound.led.mono fun _ _ _ led => led.spawn _
  table := fun k e' => (sound.table k e').trans sound.held_join.symm

theorem Sound.launch (sound : w.Sound) (absent : w.inflight.lookup key = none)
    {due : Except PyError α} : (w.launch key due).Sound where
  awaited := by
    intro d mem
    rw [World.launch, List.length_append]
    rcases List.mem_append.mp mem with old | new
    · exact Nat.lt_succ_of_lt (sound.awaited d old)
    · rw [List.mem_singleton.mp new]
      exact Nat.lt_succ_self _
  led := by
    refine sound.led.spawn ?_ fun _ _ _ led => led.spawn _
    exact ⟨_, List.getElem?_concat_length, rfl, by simp⟩
  table := by
    intro k e
    rw [sound.held_launch, ← sound.table, World.launch]
    rcases eq_or_ne k key with rfl | other
    · rw [AList.lookup_insert, absent, heads, List.length_map]
      simp [eq_comm]
    · simp [AList.lookup_insert_ne other, other]

theorem Sound.settle (sound : w.Sound) (runs : w.executions[e]? = some x)
    (outcome : Except PyError α) : (w.settle e x outcome).Sound where
  awaited := fun d mem => (sound.awaited d mem).trans_eq (List.length_set ..).symm
  led := by
    refine Pool.Each.step (i := e) sound.led ?_ fun _ _ _ _ led => led
    obtain ⟨c, here, awaits, -⟩ := sound.led e x runs
    exact ⟨c, here, awaits, fun _ => rfl⟩
  table := fun k e' => (sound.table k e').trans (held_congr (Pool.map_step runs rfl) rfl)

theorem Sound.passOn (sound : w.Sound) (here : w.callers[i]? = some c)
    (runs : w.executions[c.awaits]? = some x) : (w.passOn i c x).Sound where
  awaited := fun _ mem => (sound.awaited_set runs mem rfl).trans_eq (List.length_set ..).symm
  led := by
    have step : ∀ {e y}, Led w.callers e y →
        Led (w.callers.set i { c with cancelled := true }) e y := by
      intro e y led
      refine led.step here rfl fun mine same => ?_
      obtain ⟨d, there, -, ended⟩ := led
      rw [mine] at there
      cases here.symm.trans there
      exact ended
    exact Pool.Each.step sound.led (step (sound.led _ x runs)) fun _ _ _ _ led => step led
  table := fun k e' => (sound.table k e').trans
    (held_congr (Pool.map_step runs rfl) (Pool.map_step here rfl))

theorem Sound.interrupt (sound : w.Sound) (here : w.callers[i]? = some c)
    (runs : w.executions[c.awaits]? = some x) (apart : x.leader = i → x.outcome.isSome = true) :
    (w.interrupt i c).Sound where
  awaited := fun _ mem => sound.awaited_set runs mem rfl
  led := by
    refine sound.led.mono fun e y there led => led.step here rfl fun mine same _ => ?_
    obtain ⟨-, rfl⟩ := sound.leads here runs there mine
    exact apart mine
  table := fun k e' => (sound.table k e').trans (held_congr rfl (Pool.map_step here rfl))

theorem Sound.leave (sound : w.Sound) (here : w.callers[i]? = some c)
    (runs : w.executions[c.awaits]? = some x) (waits : c.result = none) {r : Except PyError α}
    (woken : c.wake x = some r) : (w.leave i c x r).Sound where
  awaited := fun _ mem => sound.awaited_set runs mem rfl
  led := by
    refine sound.led.mono fun e y there led => led.step here rfl fun mine same _ => ?_
    obtain ⟨-, rfl⟩ := sound.leads here runs there mine
    obtain ⟨d, found, -, ended⟩ := led
    rw [mine] at found
    cases here.symm.trans found
    cases interrupted : c.mustCancel with
    | true => exact ended (.inr interrupted)
    | false =>
        rw [Caller.wake_of_free interrupted] at woken
        rw [woken]
        rfl
  table := by
    intro k e'
    rw [held_leave, ← sound.table]
    have same : w.heads[e']? = some (k, i) → e' = c.awaits ∧ k = x.key ∧ x.leader = i := by
      intro head
      rw [heads, List.getElem?_map, Option.map_eq_some_iff] at head
      obtain ⟨y, there, agree⟩ := head
      cases agree
      obtain ⟨rfl, rfl⟩ := sound.leads here runs there rfl
      exact ⟨rfl, rfl, rfl⟩
    unfold World.leave
    split
    · rename_i leads
      have mine := sound.entry here runs waits leads
      have head : w.heads[c.awaits]? = some (x.key, i) := by
        rw [heads, List.getElem?_map, runs, Option.map_some, leads]
      rcases eq_or_ne k x.key with rfl | other
      · rw [AList.lookup_erase, mine]
        constructor
        · intro entry
          cases entry
        · rintro ⟨entry, kept⟩
          cases entry
          exact absurd head kept
      · rw [AList.lookup_erase_ne other]
        exact (and_iff_left fun head => other (same head).2.1).symm
    · rename_i follows
      exact (and_iff_left fun head => follows (same head).2.2).symm

/-- A step keeps the table. -/
theorem Sound.step (sound : w.Sound) (stepped : w.step a = some w') : w'.Sound := by
  cases trans_of_step stepped with
  | joins _ runs => exact sound.join runs
  | launches absent => exact sound.launch absent
  | finishes runs _ => exact sound.settle runs _
  | diverts runs _ _ => exact sound.settle runs _
  | passesOn here runs _ _ _ => exact sound.passOn here runs
  | interrupts here runs _ apart => exact sound.interrupt here runs apart
  | returns here runs waits woken => exact sound.leave here runs waits woken

theorem sound_of_reaches (reached : Reaches step Always {} w) : w.Sound :=
  reached.invariant .start fun _ _ _ sound _ stepped => sound.step stepped

/-- An unfinished execution is in the table. -/
theorem Sound.entry_of_unfinished (sound : w.Sound) (runs : w.executions[e]? = some x)
    (unfinished : x.outcome = none) : w.inflight.lookup x.key = some e := by
  obtain ⟨c, here, -, ends⟩ := sound.led e x runs
  refine (sound.table ..).mpr (held_iff.mpr ⟨x, c, runs, rfl, here, ?_⟩)
  by_contra returned
  have ended := ends (.inl (Option.ne_none_iff_isSome.mp returned))
  rw [unfinished] at ended
  cases ended

/-- An entry is removed by its own first caller. -/
theorem Sound.removal (sound : w.Sound) (stepped : w.step a = some w')
    (entry : w.inflight.lookup key = some e) (removed : w'.inflight.lookup key ≠ some e) :
    ∃ x, w.executions[e]? = some x ∧ a = .resume x.leader := by
  cases trans_of_step stepped with
  | launches absent =>
      rename_i k due
      have other : key ≠ k := by
        rintro rfl
        cases absent.symm.trans entry
      exact absurd ((AList.lookup_insert_ne other).trans entry) removed
  | returns here runs waits woken =>
      rename_i i c x r
      unfold World.leave at removed
      split at removed
      · rename_i leads
        rcases eq_or_ne key x.key with rfl | other
        · cases entry.symm.trans (sound.entry here runs waits leads)
          exact ⟨x, runs, by rw [leads]⟩
        · exact absurd ((AList.lookup_erase_ne other).trans entry) removed
      · exact absurd entry removed
  | _ => exact absurd entry removed

/-- In any run at most one execution per key is unfinished; a key is in the table, with its latest
execution, from the start of that execution until its first caller has returned; an entry is
removed by that caller alone; and when all callers have returned the table is empty. -/
theorem one_execution_per_key (reached : Reaches step Always ({} : World α) w) :
    (∀ (e e' : ℕ) (x x' : Execution α), w.executions[e]? = some x → w.executions[e']? = some x' →
      x.key = x'.key → x.outcome = none → x'.outcome = none → e = e') ∧
    (∀ key e, w.inflight.lookup key = some e ↔ ∃ x c, w.executions[e]? = some x ∧ x.key = key ∧
      w.callers[x.leader]? = some c ∧ c.result = none) ∧
    (∀ a w' key e, w.step a = some w' → w.inflight.lookup key = some e →
      w'.inflight.lookup key ≠ some e → ∃ x, w.executions[e]? = some x ∧ a = .resume x.leader) ∧
    ((∀ c ∈ w.callers, c.result ≠ none) → w.inflightCount = 0) := by
  have sound := sound_of_reaches reached
  refine ⟨?_, fun key e => (sound.table key e).trans held_iff,
    fun a w' key e stepped entry removed => sound.removal stepped entry removed, ?_⟩
  · intro e e' x x' runs runs' same unfinished unfinished'
    have entry := sound.entry_of_unfinished runs unfinished
    rw [same, sound.entry_of_unfinished runs' unfinished'] at entry
    exact (Option.some.inj entry).symm
  · intro returned
    rw [inflightCount, List.length_eq_zero_iff, List.eq_nil_iff_forall_not_mem]
    intro key mem
    obtain ⟨e, entry⟩ := Option.isSome_iff_exists.mp (AList.lookup_isSome.mpr mem)
    obtain ⟨x, c, -, -, here, waits⟩ := held_iff.mp ((sound.table key e).mp entry)
    exact returned c (List.mem_of_getElem? here) waits

/-- The first caller of "k" is cancelled and with it the task; one joins before it has returned,
one comes after that. -/
def twiceActs : List (Act ℕ) :=
  [.run "k" (.ok 1), .cancel 0, .run "m" (.ok 2), .divert 0 (.error cancelledError),
    .run "k" (.ok 3), .resume 0, .run "k" (.ok 4), .finish 2, .finish 1, .resume 3, .resume 1]

/-- "k" has been executed twice, and the table is empty. -/
theorem one_execution_per_key_twice :
    ∃ w : World ℕ, Reaches step Always {} w ∧ w.executions.map (·.key) = ["k", "m", "k"] ∧
      w.inflightCount = 0 := by
  have holds : execHolds step Always ({} : World ℕ) twiceActs (fun w =>
      decide (w.executions.map (·.key) = ["k", "m", "k"]) &&
        w.callers.all (·.result.isSome)) = true := by
    decide +kernel
  obtain ⟨w, reached, good⟩ := exists_reaches_of_execHolds _ _ holds
  obtain ⟨keys, returned⟩ := Bool.and_eq_true_iff.mp good
  refine ⟨w, reached, of_decide_eq_true keys, (one_execution_per_key reached).2.2.2 ?_⟩
  intro c mem
  exact Option.ne_none_iff_isSome.mpr (List.all_eq_true.mp returned c mem)

end Table

end World

end SingleFlight

end LLMInference
