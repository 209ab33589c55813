import LLMInference.Cost.Redis
import LLMInference.Lib.Scripting
import LLMInference.Complexity

/-!
How the ledger's scripts reach the server (`app/cost/redis_ledger.py`, `_eval`; the limiter of
`app/ratelimit.py` has the same).

A replica loads a script once and then sends its digest, until the server has forgotten it. Any
number of replicas and tasks do so at the same time.

* `evaluations_are_atomic`: a call that is over is one `RedisLedger.eval`, at one moment of the run.
* `evaluations_return`: a server that forgets its scripts is not noticed by any call.
* `forgotten_scripts_stay_forgotten`: unless the library words the error without its code.
-/

namespace LLMInference

open Runs Scripting

/-- The script attributes `_reserve_sha`, `_settle_sha` and `_release_sha`. -/
inductive LuaScript where
  | reserve
  | settle
  | release
  deriving DecidableEq, Repr

/-- The calls of `_eval`. -/
inductive Evaluation where
  | reserve (r : Reservation) (limit : ℚ)
  | settle (r : Reservation) (cost now : ℚ)
  | release (r : Reservation)

namespace Evaluation

def source : Evaluation → LuaScript
  | reserve .. => .reserve
  | settle .. => .settle
  | release _ => .release

/-- The script with the keys and arguments of the call. -/
def script (cfg : RedisConfig) : Evaluation → Script
  | reserve r limit => cfg.reserveScript r limit
  | settle r cost now => cfg.settleScript r cost now
  | release r => cfg.releaseScript r

end Evaluation

/-- What the Redis library of a replica does, as far as `_eval` depends on it. -/
structure RedisLibrary where
  /-- The digest of a script. -/
  sha1 : LuaScript → String
  /-- `str` of the exception for a digest that the server does not know. -/
  noScript : String
  /-- `str.upper`. -/
  upper : String → String

/-- `"NOSCRIPT" in str(e).upper()`. -/
def RedisLibrary.missing (lib : RedisLibrary) (text : String) : Bool :=
  hasSubstring "NOSCRIPT".toList (lib.upper text).toList

/-- The ledger of a fleet, as scripts. -/
def RedisLibrary.ledger (lib : RedisLibrary) (cfg : RedisConfig) :
    Interface RedisServer Evaluation Reply String LuaScript String where
  run s call := s.run (call.script cfg)
  source := Evaluation.source
  digest := lib.sha1
  noScript := lib.noScript
  missing := lib.missing

/-- A fleet whose replicas are the numbers. -/
abbrev LedgerFleet := Scripting.World RedisServer Evaluation Reply String LuaScript String ℕ

abbrev EvalCall := Scripting.Call Evaluation Reply String String ℕ

abbrev EvalAct := Scripting.Act RedisServer Evaluation String String ℕ

abbrev EvalEvent := Scripting.Event RedisServer Evaluation

abbrev RedisLibrary.step (lib : RedisLibrary) (cfg : RedisConfig) :
    LedgerFleet → EvalAct → Option LedgerFleet :=
  Scripting.World.step (lib.ledger cfg)

/-- What `_eval` returns or raises, once it is over. -/
def outcome? : Scripting.Phase Reply String String → Option (Except String Reply)
  | .returned r => some (.ok r)
  | .raised e => some (.error e)
  | _ => none

/-- The call is the evaluation of its script, on a network that does `f` to it: it has taken effect
once, at one moment of the log, or not at all. -/
def Explained (lib : RedisLibrary) (cfg : RedisConfig) (s₀ : RedisServer)
    (log : List EvalEvent) (k : ℕ) (call : Evaluation)
    (outcome : Except String Reply) (f : LedgerFault) : Prop :=
  (f.executed = false ∧ runsOf k log = 0 ∧
    ∀ l : RedisLedger, l.eval f (call.script cfg) = (outcome, l)) ∨
  f.executed = true ∧ runsOf k log = 1 ∧ ∃ before after, log = before ++ .ran k call :: after ∧
    ∀ l : RedisLedger, l.server = replay (lib.ledger cfg) s₀ before →
      (l.eval f (call.script cfg)).1 = outcome ∧
      (l.eval f (call.script cfg)).2.server = replay (lib.ledger cfg) s₀ (before ++ [.ran k call])

/-- A library that words the error for an unknown digest like this. -/
def wording (noScript : String) : RedisLibrary where
  sha1
    | .reserve => "22c365098180df59f7448325ebfb7bdd272d95f8"
    | .settle => "9d39c080bae8d706155a73121cc9beb93d3354cb"
    | .release => "65e3391fb3187c907478d70e4ca950d93080eb9b"
  noScript
  upper s := String.ofList (s.toList.map Char.toUpper)

/-- With the code of the error, or without it. -/
def coded : RedisLibrary := wording "NOSCRIPT No matching script."

def uncoded : RedisLibrary := wording "No matching script. Please use EVAL."

def halfDollar : Reservation := { id := 1, userId := "u", amount := 1 / 2, createdAt := 0 }

/-- A replica loads a script, the server forgets it, and the replica sends it whole. -/
def holdForgotten : List EvalAct :=
  [.submit 0 (.reserve halfDollar 1), .serve 0, .deliver 0, .flush, .serve 0, .deliver 0, .serve 0,
    .deliver 0]

section Atomic

variable {lib : RedisLibrary} {cfg : RedisConfig} {s₀ : RedisServer} {w : LedgerFleet} {k : ℕ}
  {call : EvalCall}

theorem runsOf_pos {log : List EvalEvent} (positive : 0 < runsOf k log) :
    ∃ i, .ran k i ∈ log := by
  obtain ⟨e, mem, run⟩ := List.countP_pos_iff.mp positive
  cases e with
  | ran j i =>
      obtain rfl := of_decide_eq_true run
      exact ⟨i, mem⟩
  | outside => cases run

/-- A call that has returned took effect, and was not disturbed. -/
theorem explained_of_returned (sound : Scripting.Sound (lib.ledger cfg) s₀ w)
    (here : w.calls[k]? = some call) {r : Reply} (returned : call.phase = .returned r) :
    Explained lib cfg s₀ w.log k call.input (.ok r) .none := by
  obtain ⟨before, after, whole, reply⟩ := sound.got k call r here (by rw [returned]; rfl)
  refine .inr ⟨rfl, ?_, before, after, whole, fun l there => ?_⟩
  · have once := sound.once k
    have mem : .ran k call.input ∈ w.log := by simp [whole]
    have ran : 0 < runsOf k w.log := List.countP_pos_iff.mpr ⟨_, mem, decide_eq_true rfl⟩
    omega
  · constructor
    · rw [reply, ← there]
      rfl
    · rw [replay_append, ← there]
      rfl

/-- A call that is over by an exception took effect before, or did not. -/
theorem explained_of_raised (sound : Scripting.Sound (lib.ledger cfg) s₀ w)
    (here : w.calls[k]? = some call) (e : String) :
    ∃ f, Explained lib cfg s₀ w.log k call.input (.error e) f := by
  rcases Nat.eq_zero_or_pos (runsOf k w.log) with none | ran
  · exact ⟨.lost e, .inl ⟨rfl, none, fun l => rfl⟩⟩
  · obtain ⟨i, mem⟩ := runsOf_pos ran
    obtain ⟨owner, there, rfl⟩ := sound.own k i mem
    rw [here] at there
    cases there
    obtain ⟨before, after, whole⟩ := List.append_of_mem mem
    have once := sound.once k
    refine ⟨.noReply e, .inr ⟨rfl, by omega, before, after, whole, fun l there => ⟨rfl, ?_⟩⟩⟩
    rw [replay_append, ← there]
    rfl

/-- In every run of the fleet, whatever the server forgets and the network loses or delays, the
state of the server is what the scripts that ran have made of it, one after the other, and every
call of `_eval` that is over is one atomic evaluation among them: it took effect once if it
returned, at most once if it raised. The network must not word its own faults as `NOSCRIPT`. -/
theorem evaluations_are_atomic (lib : RedisLibrary) (cfg : RedisConfig) (s₀ : RedisServer)
    {w : LedgerFleet} (reached : Reaches (lib.step cfg) (Plain (lib.ledger cfg))
      { state := s₀ } w) :
    w.state = replay (lib.ledger cfg) s₀ w.log ∧
    ∀ k call, w.calls[k]? = some call → runsOf k w.log ≤ 1 ∧
      ∀ outcome, outcome? call.phase = some outcome →
        ∃ f, Explained lib cfg s₀ w.log k call.input outcome f := by
  have sound := sound_of_reaches reached
  refine ⟨sound.replayed, fun k call here => ⟨?_, fun outcome ended => ?_⟩⟩
  · have once := sound.once k
    omega
  · cases phase : call.phase with
    | returned r =>
        rw [phase] at ended
        cases ended
        exact ⟨.none, explained_of_returned sound here phase⟩
    | raised e =>
        rw [phase] at ended
        cases ended
        exact explained_of_raised sound here e
    | sent | loaded | unknown | replied =>
        rw [phase] at ended
        cases ended

/-- The call that finds its script forgotten holds half a dollar, once. -/
theorem evaluations_are_atomic_after_flush :
    ∃ w : LedgerFleet, Reaches (coded.step {}) (Plain (coded.ledger {}))
        { state := {} } w ∧
      (w.calls[0]?).map (·.phase) = some (.returned (.reserved true 0)) ∧ runsOf 0 w.log ≤ 1 := by
  have holds : execHolds (coded.step {}) Faultless ({ state := {} } : LedgerFleet)
      holdForgotten (fun w => decide
        ((w.calls[0]?).map (·.phase) = some (.returned (.reserved true 0)))) = true := by
    decide +kernel
  obtain ⟨w, reached, returned⟩ := exists_reaches_of_execHolds _ _ holds
  have returned := of_decide_eq_true returned
  obtain ⟨call, here, -⟩ := Option.map_eq_some_iff.mp returned
  have plain : Reaches (coded.step {}) (Plain (coded.ledger {})) { state := {} } w :=
    reached.weaken fun w a => plain_of_faultless _ w
  exact ⟨w, plain, returned, ((evaluations_are_atomic coded {} {} plain).2 0 call here).1⟩

/-- Without faults, every call of every replica returns, whenever the server forgets its scripts: it
is an undisturbed evaluation, or has taken fewer than six steps and can take another. The library
must word the error for an unknown digest with its code. -/
theorem evaluations_return (lib : RedisLibrary) (cfg : RedisConfig) (s₀ : RedisServer)
    (known : lib.missing lib.noScript = true) {acts : List EvalAct}
    {w : LedgerFleet}
    (ran : exec (lib.step cfg) Faultless { state := s₀ } acts = some w) {k : ℕ}
    {call : EvalCall} (here : w.calls[k]? = some call) :
    (∃ r, call.phase = .returned r ∧ Explained lib cfg s₀ w.log k call.input (.ok r) .none) ∨
      acts.countP (·.own k) < 6 ∧ ∃ a : EvalAct,
        a.own k = true ∧ a.isFault = false ∧ (lib.step cfg w a).isSome = true := by
  have reached := (exec_reaches _ _ acts ran).weaken fun w a =>
    plain_of_faultless (lib.ledger cfg) w
  rcases returns_of_faultless known ran here with ⟨r, returned⟩ | going
  · exact .inl ⟨r, returned, explained_of_returned (sound_of_reaches reached) here returned⟩
  · exact .inr going

/-- It takes all of six steps, and returns. -/
theorem evaluations_return_after_flush :
    ∃ w : LedgerFleet, exec (coded.step {}) Faultless { state := {} } holdForgotten =
        some w ∧
      ∃ call r, w.calls[0]? = some call ∧ call.phase = .returned r := by
  have holds : ((exec (coded.step {}) Faultless ({ state := {} } : LedgerFleet)
      holdForgotten).any fun w => (w.calls[0]?).isSome) = true := by
    decide +kernel
  obtain ⟨w, ran, here⟩ := (Option.any_eq_true ..).mp holds
  obtain ⟨call, here⟩ := Option.isSome_iff_exists.mp here
  rcases evaluations_return coded {} {} (by decide +kernel) ran here with
    ⟨r, returned, -⟩ | ⟨few, -⟩
  · exact ⟨w, ran, call, r, here, returned⟩
  · exact absurd few (by decide)

/-- A library that words the error without its code leaves a fleet, once all of it has loaded the
scripts and the server has lost them, with no ledger for good: no script runs any more, and no
call returns. -/
theorem forgotten_scripts_stay_forgotten (lib : RedisLibrary) (cfg : RedisConfig) (s₀ : RedisServer)
    (unknown : lib.missing lib.noScript = false) {shas : ℕ → LuaScript → Option String}
    (loaded : ∀ replica script, (shas replica script).isSome = true) {w : LedgerFleet}
    (reached : Reaches (lib.step cfg) (Unaided (lib.ledger cfg))
      { state := s₀, shas } w) :
    (∀ k call, .ran k call ∉ w.log) ∧
      ∀ (k : ℕ) (call : EvalCall) (outcome : Except String Reply),
        w.calls[k]? = some call → outcome? call.phase = some outcome → ∃ e, outcome = .error e := by
  have start : Forgotten ({ state := s₀, shas } : LedgerFleet) :=
    ⟨fun _ => rfl, loaded, fun k call here => by simp at here, fun entry mem => by simp at mem,
      fun k i ran => by simp at ran⟩
  have forgotten := forgotten_of_reaches unknown start reached
  refine ⟨forgotten.log, fun k call outcome here ended => ?_⟩
  have asks := forgotten.calls k call here
  cases phase : call.phase with
  | raised e =>
      rw [phase] at ended
      exact ⟨e, (Option.some.inj ended).symm⟩
  | returned r =>
      rw [phase] at asks
      cases asks
  | sent | loaded | unknown | replied =>
      rw [phase] at ended
      cases ended

/-- The first call after that raises, and holds nothing. -/
theorem forgotten_scripts_stay_forgotten_uncoded :
    ∃ w : LedgerFleet, Reaches (uncoded.step {}) (Unaided (uncoded.ledger {}))
        { state := {}, shas := fun _ script => some (uncoded.sha1 script) } w ∧
      (w.calls[0]?).map (·.phase) = some (.raised uncoded.noScript) ∧
      ∀ k call, .ran k call ∉ w.log := by
  have holds : execHolds (uncoded.step {}) (Unaided (uncoded.ledger {}))
      ({ state := {}, shas := fun _ script => some (uncoded.sha1 script) } : LedgerFleet)
      [.submit 0 (.reserve halfDollar 1), .serve 0, .deliver 0] (fun w => decide
        ((w.calls[0]?).map (·.phase) = some (.raised uncoded.noScript))) = true := by
    decide +kernel
  obtain ⟨w, reached, raised⟩ := exists_reaches_of_execHolds _ _ holds
  have none := forgotten_scripts_stay_forgotten uncoded {} {} (by decide +kernel)
    (fun _ _ => rfl) reached
  exact ⟨w, reached, of_decide_eq_true raised, none.1⟩

end Atomic

end LLMInference
