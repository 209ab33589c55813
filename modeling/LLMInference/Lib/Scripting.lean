import LLMInference.Lib.Runs
import Mathlib.Logic.Function.Basic
import Mathlib.Data.List.Basic
import Mathlib.Data.List.Induction

/-!
Scripts that a server runs by their digest, and forgets when it restarts.

A client loads a script once, keeps the digest, and from then on sends only that. When the server
does not know the digest any more, the client sends the script itself. Any number of clients call
at the same time; a command or its answer may be lost, and a command whose caller has given up may
still arrive.

* `Sound`, `sound_of_reaches`: every call has one chance to run, which it takes, loses, or leaves
  on the network, in every run whose faults are not taken for a forgotten script.
* `returns_of_faultless`: without faults no call raises, and each returns within six steps.
* `forgotten_of_reaches`: where a client does not recognize that a script is forgotten, it is
  forgotten for good.
-/

namespace Scripting

open Runs

variable {S I R E Source Digest Client : Type}

structure Interface (S I R E Source Digest : Type) where
  /-- One atomic execution. -/
  run : S → I → R × S
  source : I → Source
  digest : Source → Digest
  /-- What a client raises when the server does not know a digest. -/
  noScript : E
  /-- Whether a client takes an exception for that one. -/
  missing : E → Bool

inductive Command (Digest : Type) where
  | load
  | evalsha (d : Digest)
  | eval
  deriving DecidableEq

/-- The command can run the script. -/
def Command.runs : Command Digest → Bool
  | .load => false
  | .evalsha _ | .eval => true

/-- The command is the last resort. -/
def Command.last : Command Digest → Bool
  | .eval => true
  | .load | .evalsha _ => false

/-- Where a call stands. -/
inductive Phase (R E Digest : Type) where
  | sent (c : Command Digest)
  /-- `SCRIPT LOAD` is answered. -/
  | loaded (d : Digest)
  /-- `EVALSHA` is refused. -/
  | unknown
  /-- The script has run, and its reply is on its way: the reply to `EVAL` if it is the `last`. -/
  | replied (last : Bool) (r : R)
  | returned (r : R)
  | raised (e : E)
  deriving DecidableEq

structure Call (I R E Digest Client : Type) where
  client : Client
  input : I
  phase : Phase R E Digest

/-- What changed the state of the server. -/
inductive Event (S I : Type) where
  | ran (k : ℕ) (i : I)
  /-- Somebody else, or time. -/
  | outside (s : S)

structure World (S I R E Source Digest Client : Type) where
  state : S
  /-- The digests the server knows. -/
  cached : Digest → Bool := fun _ => false
  /-- The digests the clients have kept. -/
  shas : Client → Source → Option Digest := fun _ _ => none
  calls : List (Call I R E Digest Client) := []
  /-- Commands on their way whose callers have given up. -/
  late : List (ℕ × Command Digest) := []
  log : List (Event S I) := []

inductive Act (S I E Digest Client : Type) where
  | submit (client : Client) (i : I)
  /-- The command of the call reaches the server. -/
  | serve (k : ℕ)
  /-- Its answer reaches the client. -/
  | deliver (k : ℕ)
  /-- The client gets an exception instead. -/
  | fault (k : ℕ) (e : E)
  /-- A command whose caller has given up reaches the server. -/
  | serveLate (n : ℕ)
  /-- The server forgets its scripts. -/
  | flush
  | load (d : Digest)
  | outside (s : S)

variable (P : Interface S I R E Source Digest)

namespace World

variable [DecidableEq Source] [DecidableEq Digest] [DecidableEq Client]

variable (w : World S I R E Source Digest Client)

/-- One execution. -/
def execute (last : Bool) (k : ℕ) (i : I) :
    Phase R E Digest × World S I R E Source Digest Client :=
  (.replied last (P.run w.state i).1,
    { w with state := (P.run w.state i).2, log := w.log ++ [.ran k i] })

/-- The server knows the script of this input. -/
def know (i : I) : World S I R E Source Digest Client :=
  { w with cached := Function.update w.cached (P.digest (P.source i)) true }

/-- The server performs a command of the call `k` with input `i`. -/
def perform (k : ℕ) (i : I) :
    Command Digest → Phase R E Digest × World S I R E Source Digest Client
  | .load => (.loaded (P.digest (P.source i)), w.know P i)
  | .evalsha d => if w.cached d then w.execute P false k i else (.unknown, w)
  | .eval => (w.know P i).execute P true k i

def put (k : ℕ) (call : Call I R E Digest Client) (phase : Phase R E Digest) :
    World S I R E Source Digest Client :=
  { w with calls := w.calls.set k { call with phase } }

def keep (client : Client) (source : Source) (sha : Option Digest) :
    World S I R E Source Digest Client :=
  { w with shas := Function.update w.shas client (Function.update (w.shas client) source sha) }

/-- The `except` of a call, which the last resort is outside of. -/
def rescue (k : ℕ) (call : Call I R E Digest Client) (last : Bool) (e : E) :
    World S I R E Source Digest Client :=
  if last = false ∧ P.missing e = true then
    (w.keep call.client (P.source call.input) none).put k call (.sent .eval)
  else w.put k call (.raised e)

/-- The first command of a call. -/
def first (client : Client) (i : I) : Command Digest :=
  match w.shas client (P.source i) with
  | none => .load
  | some d => .evalsha d

/-- One step; a call that is over takes none. -/
def step : Act S I E Digest Client → Option (World S I R E Source Digest Client)
  | .submit client input =>
      some { w with calls := w.calls ++ [⟨client, input, .sent (w.first P client input)⟩] }
  | .serve k =>
      match w.calls[k]? with
      | some ⟨client, input, .sent c⟩ =>
          some ((w.perform P k input c).2.put k ⟨client, input, .sent c⟩
            (w.perform P k input c).1)
      | _ => none
  | .deliver k =>
      match w.calls[k]? with
      | some ⟨client, input, .loaded d⟩ =>
          some ((w.keep client (P.source input) (some d)).put k ⟨client, input, .loaded d⟩
            (.sent (.evalsha d)))
      | some ⟨client, input, .unknown⟩ =>
          some (w.rescue P k ⟨client, input, .unknown⟩ false P.noScript)
      | some ⟨client, input, .replied last r⟩ =>
          some (w.put k ⟨client, input, .replied last r⟩ (.returned r))
      | _ => none
  | .fault k e =>
      match w.calls[k]? with
      | some ⟨client, input, .sent c⟩ =>
          some ({ w with late := w.late ++ [(k, c)] }.rescue P k ⟨client, input, .sent c⟩
            c.last e)
      | some ⟨client, input, .loaded d⟩ => some (w.rescue P k ⟨client, input, .loaded d⟩ false e)
      | some ⟨client, input, .unknown⟩ => some (w.rescue P k ⟨client, input, .unknown⟩ false e)
      | some ⟨client, input, .replied last r⟩ =>
          some (w.rescue P k ⟨client, input, .replied last r⟩ last e)
      | _ => none
  | .serveLate n =>
      match w.late[n]? with
      | some (k, c) =>
          (w.calls[k]?).map fun call =>
            ({ w with late := w.late.eraseIdx n }.perform P k call.input c).2
      | none => none
  | .flush => some { w with cached := fun _ => false }
  | .load d => some { w with cached := Function.update w.cached d true }
  | .outside s => some { w with state := s, log := w.log ++ [.outside s] }

end World

/-! ### Chances -/

/-- The state the log explains. -/
def Event.apply (s : S) : Event S I → S
  | .ran _ i => (P.run s i).2
  | .outside s' => s'

def replay (s₀ : S) (log : List (Event S I)) : S := log.foldl (Event.apply P) s₀

@[simp] theorem replay_append (s₀ : S) (log : List (Event S I)) (e : Event S I) :
    replay P s₀ (log ++ [e]) = e.apply P (replay P s₀ log) := by
  simp [replay]

/-- The event is a run of the call `k`. -/
def Event.isRun (k : ℕ) : Event S I → Bool
  | .ran j _ => decide (j = k)
  | .outside _ => false

/-- How often the call has run. -/
def runsOf (k : ℕ) (log : List (Event S I)) : ℕ := log.countP (Event.isRun k)

/-- How often it may run once its caller has given up. -/
def lateOf (k : ℕ) (late : List (ℕ × Command Digest)) : ℕ :=
  late.countP fun entry => decide (entry.1 = k) && entry.2.runs

namespace Phase

/-- How often the call may still be made to run by its caller. -/
def chances : Phase R E Digest → ℕ
  | sent _ | loaded _ | unknown => 1
  | replied .. | returned _ | raised _ => 0

/-- The reply of the server. -/
def got : Phase R E Digest → Option R
  | replied _ r | returned r => some r
  | _ => none

theorem got_of_chances {ph : Phase R E Digest} (open' : ph.chances = 1) : ph.got = none := by
  cases ph with
  | replied | returned => cases open'
  | _ => rfl

end Phase

/-- A number for every call, `n` for one that is not submitted. -/
def World.measure (w : World S I R E Source Digest Client) (n : ℕ) (f : Phase R E Digest → ℕ)
    (k : ℕ) : ℕ :=
  (w.calls[k]?).elim n fun call => f call.phase

/-- A call that is not submitted has its chance, too. -/
def World.chances (w : World S I R E Source Digest Client) : ℕ → ℕ := w.measure 1 Phase.chances

/-- The call ran with this input, from the state of that moment, with this reply. -/
def RanAs (s₀ : S) (log : List (Event S I)) (k : ℕ) (i : I) (r : R) : Prop :=
  ∃ before after, log = before ++ .ran k i :: after ∧ r = (P.run (replay P s₀ before) i).1

/-- What the log says about the state and the calls. -/
structure Sound (s₀ : S) (w : World S I R E Source Digest Client) : Prop where
  replayed : w.state = replay P s₀ w.log
  once : ∀ k, runsOf k w.log + lateOf k w.late + w.chances k ≤ 1
  got : ∀ k call r, w.calls[k]? = some call → call.phase.got = some r →
    RanAs P s₀ w.log k call.input r
  own : ∀ k i, .ran k i ∈ w.log → ∃ call, w.calls[k]? = some call ∧ call.input = i

section Counting

variable {k : ℕ} {w : World S I R E Source Digest Client} {call : Call I R E Digest Client}

theorem runsOf_append (log : List (Event S I)) (e : Event S I) :
    runsOf k (log ++ [e]) = runsOf k log + if e.isRun k then 1 else 0 := by
  simp [runsOf, List.countP_append, List.countP_singleton]

theorem lateOf_append (late : List (ℕ × Command Digest)) (j : ℕ) (c : Command Digest) :
    lateOf k (late ++ [(j, c)]) = lateOf k late + if j = k ∧ c.runs = true then 1 else 0 := by
  simp [lateOf, List.countP_append, List.countP_singleton]

/-- What arrives late is not late any more. -/
theorem lateOf_eraseIdx {late : List (ℕ × Command Digest)} {n j : ℕ} {c : Command Digest}
    (here : late[n]? = some (j, c)) :
    lateOf k (late.eraseIdx n) + (if j = k ∧ c.runs = true then 1 else 0) = lateOf k late := by
  induction late generalizing n with
  | nil => cases here
  | cons entry late ih =>
      cases n with
      | zero =>
          cases here
          simp [lateOf, List.countP_cons]
      | succ n =>
          have rest := ih (n := n) (by simpa using here)
          simp only [lateOf, List.eraseIdx_cons_succ, List.countP_cons] at rest ⊢
          omega

theorem RanAs.append {s₀ : S} {log : List (Event S I)} {i : I} {r : R}
    (ran : RanAs P s₀ log k i r) (e : Event S I) : RanAs P s₀ (log ++ [e]) k i r := by
  obtain ⟨before, after, rfl, reply⟩ := ran
  exact ⟨before, after ++ [e], by simp, reply⟩

theorem measure_of_some {n : ℕ} {f : Phase R E Digest → ℕ} (here : w.calls[k]? = some call) :
    w.measure n f k = f call.phase := by
  rw [World.measure, here]
  rfl

theorem chances_of_some (here : w.calls[k]? = some call) : w.chances k = call.phase.chances :=
  measure_of_some here

variable (ph : Phase R E Digest)

theorem getElem?_put_self (here : w.calls[k]? = some call) :
    (w.put k call ph).calls[k]? = some { call with phase := ph } := by
  have bound := (List.getElem?_eq_some_iff.mp here).1
  rw [World.put, List.getElem?_set_self bound]

theorem getElem?_put_of_ne {j : ℕ} (ne : j ≠ k) : (w.put k call ph).calls[j]? = w.calls[j]? :=
  List.getElem?_set_ne ne.symm

theorem measure_put {n : ℕ} {f : Phase R E Digest → ℕ} (here : w.calls[k]? = some call) (j : ℕ) :
    (w.put k call ph).measure n f j = if j = k then f ph else w.measure n f j := by
  split
  · rename_i same
    subst same
    rw [measure_of_some (getElem?_put_self ph here)]
  · rename_i ne
    rw [World.measure, getElem?_put_of_ne ph ne, World.measure]

theorem chances_put (here : w.calls[k]? = some call) (j : ℕ) :
    (w.put k call ph).chances j = if j = k then ph.chances else w.chances j :=
  measure_put ph here j

/-- A call that is submitted begins with at most what it had. -/
theorem measure_submit (n : ℕ) (f : Phase R E Digest → ℕ) (call : Call I R E Digest Client)
    (j : ℕ) :
    World.measure { w with calls := w.calls ++ [call] } n f j =
      if j = w.calls.length then f call.phase else w.measure n f j := by
  unfold World.measure
  rcases Nat.lt_trichotomy j w.calls.length with old | rfl | later
  · rw [List.getElem?_append_left old, if_neg (Nat.ne_of_lt old)]
  · simp
  · have beyond : (w.calls ++ [call]).length ≤ j := by
      rw [List.length_append]
      exact later
    rw [List.getElem?_eq_none (Nat.le_of_lt later), List.getElem?_eq_none beyond,
      if_neg (Nat.ne_of_gt later)]

end Counting

/-! ### Steps -/

section Steps

variable {P}

variable {s₀ : S} {w w' : World S I R E Source Digest Client} {k : ℕ} {i : I}
  {call : Call I R E Digest Client} {c : Command Digest} {ph : Phase R E Digest} {e : E}

/-- A command runs the script, or leaves the state alone and the chance to the caller. -/
inductive Performs (k : ℕ) (i : I) (c : Command Digest) (w : World S I R E Source Digest Client) :
    Phase R E Digest → World S I R E Source Digest Client → Prop
  | ran {last : Bool} {w' : World S I R E Source Digest Client} (runs : c.runs = true)
      (calls : w'.calls = w.calls) (late : w'.late = w.late)
      (state : w'.state = (P.run w.state i).2) (log : w'.log = w.log ++ [.ran k i]) :
      Performs k i c w (.replied last (P.run w.state i).1) w'
  | none {ph : Phase R E Digest} {w' : World S I R E Source Digest Client} (open' : ph.chances = 1)
      (calls : w'.calls = w.calls) (late : w'.late = w.late)
      (state : w'.state = w.state) (log : w'.log = w.log) : Performs k i c w ph w'

theorem Performs.calls_eq (performed : Performs (P := P) k i c w ph w') : w'.calls = w.calls := by
  cases performed with
  | ran runs calls => exact calls
  | none open' calls => exact calls

/-- A call goes on with no more chances than it had, and no other reply. -/
theorem Sound.put (sound : Sound P s₀ w) (here : w.calls[k]? = some call)
    (fewer : ph.chances ≤ call.phase.chances)
    (same : ∀ r, ph.got = some r → call.phase.got = some r) :
    Sound P s₀ (w.put k call ph) where
  replayed := sound.replayed
  once j := by
    have before := sound.once j
    rw [chances_put ph here]
    split
    · rename_i this
      subst this
      rw [chances_of_some here] at before
      exact Nat.le_trans (Nat.add_le_add_left fewer _) before
    · exact before
  got j other r there told := by
    by_cases this : j = k
    · subst this
      rw [getElem?_put_self ph here] at there
      cases there
      exact sound.got j call r here (same r told)
    · rw [getElem?_put_of_ne ph this] at there
      exact sound.got j other r there told
  own j input ran := by
    obtain ⟨owner, there, input'⟩ := sound.own j input ran
    by_cases this : j = k
    · subst this
      rw [here] at there
      cases there
      exact ⟨_, getElem?_put_self ph here, input'⟩
    · exact ⟨owner, (getElem?_put_of_ne ph this).trans there, input'⟩

/-- A call that raises leaves its chance on the network. -/
theorem Sound.giveUp (sound : Sound P s₀ w) (here : w.calls[k]? = some call)
    (sent : call.phase = .sent c) :
    Sound P s₀ ({ w with late := w.late ++ [(k, c)] }.put k call (.raised e)) where
  replayed := sound.replayed
  once j := by
    have before := sound.once j
    have now := chances_put (w := { w with late := w.late ++ [(k, c)] }) (.raised e) here j
    have later := lateOf_append (k := j) w.late k c
    simp only [World.put] at now ⊢
    rw [now, later]
    by_cases this : j = k
    · subst this
      rw [chances_of_some here, sent] at before
      simp only [Phase.chances, true_and, if_true] at before ⊢
      split <;> omega
    · simp only [if_neg this, if_neg fun both : k = j ∧ c.runs = true => this both.1.symm]
      exact before
  got j other r there told := by
    by_cases this : j = k
    · subst this
      rw [getElem?_put_self _ (by exact here)] at there
      cases there
      cases told
    · rw [getElem?_put_of_ne _ this] at there
      exact sound.got j other r there told
  own j input ran := by
    obtain ⟨owner, there, input'⟩ := sound.own j input ran
    by_cases this : j = k
    · subst this
      rw [here] at there
      cases there
      exact ⟨_, getElem?_put_self _ (by exact here), input'⟩
    · exact ⟨owner, (getElem?_put_of_ne _ this).trans there, input'⟩

/-- What somebody else does to the server. -/
theorem Sound.outside (sound : Sound P s₀ w) (s : S) :
    Sound P s₀ { w with state := s, log := w.log ++ [.outside s] } where
  replayed := (replay_append P s₀ w.log (.outside s)).symm
  once j := by
    rw [runsOf_append]
    exact sound.once j
  got j other r there told := (sound.got j other r there told).append P _
  own j input ran := by
    rcases List.mem_append.mp ran with before | new
    · exact sound.own j input before
    · simp at new

/-- A new call has the chance it had before. -/
theorem Sound.submit (sound : Sound P s₀ w) (client : Client) (i : I) (c : Command Digest) :
    Sound P s₀ { w with calls := w.calls ++ [⟨client, i, .sent c⟩] } where
  replayed := sound.replayed
  once j := by
    have before := sound.once j
    have same := measure_submit (w := w) 1 Phase.chances ⟨client, i, .sent c⟩ j
    simp only [World.chances] at before ⊢
    rw [same]
    split
    · rename_i this
      rw [World.measure, List.getElem?_eq_none (Nat.le_of_eq this.symm)] at before
      exact before
    · exact before
  got j other r there told := by
    rcases Nat.lt_or_ge j w.calls.length with old | new
    · rw [List.getElem?_append_left old] at there
      exact sound.got j other r there told
    · rw [List.getElem?_append_right new] at there
      obtain rfl := List.mem_singleton.mp (List.mem_of_getElem? there)
      cases told
  own j input ran := by
    obtain ⟨owner, there, input'⟩ := sound.own j input ran
    have old := (List.getElem?_eq_some_iff.mp there).1
    exact ⟨owner, (List.getElem?_append_left old).trans there, input'⟩

/-- A run is logged, and told to nobody but its own call. -/
theorem Sound.ran (sound : Sound P s₀ w) (here : w.calls[k]? = some call)
    (state : w'.state = (P.run w.state call.input).2)
    (log : w'.log = w.log ++ [.ran k call.input])
    (others : ∀ j, j ≠ k → w'.calls[j]? = w.calls[j]?)
    (there : w'.calls[k]? = some { call with phase := ph })
    (told : ∀ r, ph.got = some r →
      call.phase.got = some r ∨ r = (P.run w.state call.input).1)
    (once : ∀ k, runsOf k w'.log + lateOf k w'.late + w'.chances k ≤ 1) : Sound P s₀ w' where
  replayed := by
    rw [log, replay_append, ← sound.replayed]
    exact state
  once := once
  got j other r found got := by
    rw [log]
    by_cases this : j = k
    · subst this
      rw [there] at found
      cases found
      rcases told r got with before | now
      · exact (sound.got j call r here before).append P _
      · exact ⟨w.log, [], rfl, sound.replayed ▸ now⟩
    · rw [others j this] at found
      exact (sound.got j other r found got).append P _
  own j input ran := by
    rw [log] at ran
    have ofKnown : ∀ owner, w.calls[j]? = some owner → owner.input = input →
        ∃ call, w'.calls[j]? = some call ∧ call.input = input := by
      intro owner found input'
      by_cases this : j = k
      · subst this
        rw [here] at found
        cases found
        exact ⟨_, there, input'⟩
      · exact ⟨owner, (others j this).trans found, input'⟩
    rcases List.mem_append.mp ran with before | new
    · obtain ⟨owner, found, input'⟩ := sound.own j input before
      exact ofKnown owner found input'
    · cases List.mem_singleton.mp new
      exact ofKnown call here rfl

/-- A command of a call is served: the call uses its chance, if the script runs. -/
theorem Sound.serve (sound : Sound P s₀ w) (here : w.calls[k]? = some call)
    (sent : call.phase = .sent c) (performed : Performs (P := P) k call.input c w ph w') :
    Sound P s₀ (w'.put k call ph) := by
  cases performed with
  | none open' calls late state log =>
      have same : Sound P s₀ w' := by
        cases w
        cases w'
        subst calls late state log
        exact ⟨sound.replayed, sound.once, sound.got, sound.own⟩
      refine same.put (calls ▸ here) ?_ fun r told => ?_
      · rw [open', sent]
        exact Nat.le_refl _
      · rw [Phase.got_of_chances open'] at told
        cases told
  | ran runs calls late state log =>
      rename_i last
      have here' : w'.calls[k]? = some call := calls ▸ here
      refine sound.ran here state log (fun j ne => ?_) (getElem?_put_self _ here')
        (fun r told => .inr (Option.some.inj told).symm) fun j => ?_
      · rw [getElem?_put_of_ne _ ne, calls]
      · have before := sound.once j
        have now := chances_put (.replied last (P.run w.state call.input).1) here' j
        rw [now]
        simp only [World.put, log, late, runsOf_append, Event.isRun, decide_eq_true_eq]
        by_cases this : j = k
        · subst this
          rw [chances_of_some here, sent] at before
          simp only [Phase.chances, if_true] at before ⊢
          omega
        · rw [if_neg (Ne.symm this), if_neg this, World.chances, World.measure, calls]
          exact before

/-- A command that arrives late uses the chance its caller left. -/
theorem Sound.serveLate (sound : Sound P s₀ w) (here : w.calls[k]? = some call) {n : ℕ}
    (waiting : w.late[n]? = some (k, c))
    (performed : Performs (P := P) k call.input c { w with late := w.late.eraseIdx n } ph w') :
    Sound P s₀ w' := by
  have fewer := fun j => lateOf_eraseIdx (k := j) waiting
  cases performed with
  | none open' calls late state log =>
      refine ⟨?_, fun j => ?_, ?_, ?_⟩
      · rw [state, log]
        exact sound.replayed
      · have before := sound.once j
        have less := fewer j
        rw [World.chances, World.measure] at before
        rw [log, late, World.chances, World.measure, calls]
        dsimp only
        omega
      · rw [calls, log]
        exact sound.got
      · rw [calls, log]
        exact sound.own
  | ran runs calls late state log =>
      refine sound.ran here state log (fun j _ => congrArg (·[j]?) calls)
        ((congrArg (·[k]?) calls).trans here) (fun r told => .inl told) fun j => ?_
      have before := sound.once j
      have less := fewer j
      rw [log, late, World.chances, World.measure, calls, runsOf_append]
      rw [World.chances, World.measure] at before
      simp only [Event.isRun, decide_eq_true_eq, runs, and_true] at less ⊢
      omega

theorem sound_start (s₀ : S) :
    Sound P s₀ ({ state := s₀ } : World S I R E Source Digest Client) where
  replayed := rfl
  once k := by simp [runsOf, lateOf, World.chances, World.measure]
  got k call r here := by simp at here
  own k i ran := by simp at ran

end Steps

/-! ### Runs -/

section Runs

variable {P} [DecidableEq Source] [DecidableEq Digest] [DecidableEq Client]

variable {s₀ : S} {w w' : World S I R E Source Digest Client}

omit [DecidableEq Source] [DecidableEq Client] in
theorem performs (k : ℕ) (i : I) (c : Command Digest) (w : World S I R E Source Digest Client) :
    Performs (P := P) k i c w (w.perform P k i c).1 (w.perform P k i c).2 := by
  cases c with
  | load => exact .none rfl rfl rfl rfl rfl
  | evalsha d =>
      simp only [World.perform]
      split
      · exact .ran rfl rfl rfl rfl rfl
      · exact .none rfl rfl rfl rfl rfl
  | eval => exact .ran rfl rfl rfl rfl rfl

/-- No fault is taken for a forgotten script. -/
def Plain (P : Interface S I R E Source Digest) (_ : World S I R E Source Digest Client) :
    Act S I E Digest Client → Prop
  | .fault _ e => P.missing e = false
  | _ => True

omit [DecidableEq Digest] in
theorem Sound.rescue {k : ℕ} {call : Call I R E Digest Client} {last : Bool} {e : E}
    (sound : Sound P s₀ w) (here : w.calls[k]? = some call) (chance : call.phase.chances = 1) :
    Sound P s₀ (w.rescue P k call last e) := by
  unfold World.rescue
  split
  · have kept : Sound P s₀ (w.keep call.client (P.source call.input) none) :=
      ⟨sound.replayed, sound.once, sound.got, sound.own⟩
    refine kept.put here ?_ fun r told => by cases told
    rw [chance]
    exact Nat.le_refl _
  · exact sound.put here (Nat.zero_le _) fun r told => by cases told

omit [DecidableEq Digest] in
/-- An exception that is not taken for a forgotten script is raised. -/
theorem World.rescue_eq {k : ℕ} {call : Call I R E Digest Client} {last : Bool} {e : E}
    (other : P.missing e = false) : w.rescue P k call last e = w.put k call (.raised e) := by
  rw [World.rescue, if_neg fun both => by rw [other] at both; cases both.2]

theorem Sound.step {a : Act S I E Digest Client} (sound : Sound P s₀ w) (plain : Plain P w a)
    (made : w.step P a = some w') : Sound P s₀ w' := by
  cases a with
  | submit client i =>
      cases made
      exact sound.submit client i _
  | serve k =>
      simp only [World.step] at made
      split at made
      · rename_i client input c here
        cases made
        exact sound.serve here rfl (performs k input c w)
      · cases made
  | deliver k =>
      simp only [World.step] at made
      split at made
      · rename_i client input d here
        cases made
        have kept : Sound P s₀ (w.keep client (P.source input) (some d)) :=
          ⟨sound.replayed, sound.once, sound.got, sound.own⟩
        exact kept.put here (Nat.le_refl _) fun r told => by cases told
      · rename_i client input here
        cases made
        exact sound.rescue here rfl
      · rename_i client input last r here
        cases made
        exact sound.put here (Nat.le_refl _) fun r' told => told
      · cases made
  | fault k e =>
      simp only [World.step, World.rescue_eq plain] at made
      split at made
      · rename_i client input c here
        cases made
        exact sound.giveUp here rfl
      · rename_i client input d here
        cases made
        exact sound.put here (Nat.zero_le _) fun r told => by cases told
      · rename_i client input here
        cases made
        exact sound.put here (Nat.zero_le _) fun r told => by cases told
      · rename_i client input last r here
        cases made
        exact sound.put here (Nat.zero_le _) fun r told => by cases told
      · cases made
  | serveLate n =>
      simp only [World.step] at made
      split at made
      · rename_i k c waiting
        obtain ⟨call, here, rfl⟩ := Option.map_eq_some_iff.mp made
        exact sound.serveLate here waiting (performs k call.input c _)
      · cases made
  | flush | load =>
      cases made
      exact ⟨sound.replayed, sound.once, sound.got, sound.own⟩
  | outside s =>
      cases made
      exact sound.outside s

/-- In every run, every call has at most one chance, and the log explains the state and the
replies. -/
theorem sound_of_reaches
    (reached : Reaches (World.step P) (Plain P)
      ({ state := s₀ } : World S I R E Source Digest Client) w) : Sound P s₀ w :=
  reached.invariant (sound_start s₀) fun _ _ _ sound plain made => sound.step plain made

end Runs

/-! ### Without faults -/

section Faultless

variable {P}

variable {s₀ : S} {w w' : World S I R E Source Digest Client} {k : ℕ}

/-- How many steps a call may still take. -/
def Phase.rank : Phase R E Digest → ℕ
  | .sent .load => 6
  | .loaded _ => 5
  | .sent (.evalsha _) => 4
  | .unknown | .replied false _ => 3
  | .sent .eval => 2
  | .replied true _ => 1
  | .returned _ | .raised _ => 0

def World.rank (w : World S I R E Source Digest Client) : ℕ → ℕ := w.measure 6 Phase.rank

/-- The act is a step of the call `k`. -/
def Act.own (k : ℕ) : Act S I E Digest Client → Bool
  | .serve j | .deliver j => decide (j = k)
  | _ => false

def Act.isFault : Act S I E Digest Client → Bool
  | .fault .. => true
  | _ => false

/-- A step of a run without faults. -/
def Faultless (_ : World S I R E Source Digest Client) (a : Act S I E Digest Client) : Prop :=
  a.isFault = false

instance (w : World S I R E Source Digest Client) (a : Act S I E Digest Client) :
    Decidable (Faultless w a) := inferInstanceAs (Decidable (_ = _))

theorem rank_le (ph : Phase R E Digest) : ph.rank ≤ 6 := by
  unfold Phase.rank
  split <;> decide

/-- What a step without faults does to the calls: one of them comes nearer its end and does not
raise, or one is submitted, or none is touched. -/
inductive Goes (a : Act S I E Digest Client) (w w' : World S I R E Source Digest Client) : Prop
  | on {k : ℕ} {call : Call I R E Digest Client} {ph : Phase R E Digest}
      (here : w.calls[k]? = some call) (calls : w'.calls = (w.put k call ph).calls)
      (nearer : ph.rank < call.phase.rank) (quiet : ∀ e, ph ≠ .raised e)
      (own : ∀ j, a.own j = decide (k = j))
  | submits {client : Client} {i : I} {c : Command Digest}
      (calls : w'.calls = w.calls ++ [⟨client, i, .sent c⟩]) (own : ∀ j, a.own j = false)
  | stays (calls : w'.calls = w.calls) (own : ∀ j, a.own j = false)

theorem Goes.rank {a : Act S I E Digest Client} (goes : Goes a w w') (j : ℕ) :
    (if a.own j = true then 1 else 0) + w'.rank j ≤ w.rank j := by
  cases goes with
  | on here calls nearer quiet own =>
      rename_i k call ph
      have now := measure_put (n := 6) (f := Phase.rank) ph here j
      have same : w'.rank j = (w.put k call ph).rank j := by
        rw [World.rank, World.rank, World.measure, World.measure, calls]
      rw [same, World.rank, now, own, World.rank]
      by_cases this : j = k
      · subst this
        rw [measure_of_some here]
        simp only [decide_true, if_true]
        omega
      · simp only [decide_eq_true_eq, if_neg (Ne.symm this), if_neg this, Nat.zero_add]
        exact Nat.le_refl _
  | submits calls own =>
      rename_i client i c
      have now := measure_submit (w := w) 6 Phase.rank ⟨client, i, .sent c⟩ j
      have same : w'.rank j =
          World.rank { w with calls := w.calls ++ [⟨client, i, .sent c⟩] } j := by
        rw [World.rank, World.rank, World.measure, World.measure, calls]
      rw [same, World.rank, now, own, World.rank]
      simp only [Bool.false_eq_true, if_false, Nat.zero_add]
      split
      · rename_i this
        rw [World.measure, List.getElem?_eq_none (Nat.le_of_eq this.symm)]
        exact rank_le _
      · exact Nat.le_refl _
  | stays calls own =>
      rw [own, World.rank, World.rank, World.measure, World.measure, calls]
      simp

/-- No call has raised. -/
def Unraised (w : World S I R E Source Digest Client) : Prop :=
  ∀ (k : ℕ) (call : Call I R E Digest Client) (e : E), w.calls[k]? = some call →
    call.phase ≠ .raised e

theorem Goes.unraised {a : Act S I E Digest Client} (goes : Goes a w w') (quiet : Unraised w) :
    Unraised w' := by
  intro j other e there
  cases goes with
  | on here calls nearer quiet' own =>
      rename_i k call ph
      rw [calls] at there
      by_cases this : j = k
      · subst this
        rw [getElem?_put_self ph here] at there
        cases there
        exact quiet' e
      · rw [getElem?_put_of_ne ph this] at there
        exact quiet j other e there
  | submits calls own =>
      rw [calls] at there
      rcases Nat.lt_or_ge j w.calls.length with old | new
      · rw [List.getElem?_append_left old] at there
        exact quiet j other e there
      · rw [List.getElem?_append_right new] at there
        obtain rfl := List.mem_singleton.mp (List.mem_of_getElem? there)
        simp
  | stays calls own =>
      rw [calls] at there
      exact quiet j other e there

variable [DecidableEq Source] [DecidableEq Digest] [DecidableEq Client]

theorem goes {a : Act S I E Digest Client} (known : P.missing P.noScript = true)
    (faultless : a.isFault = false) (made : w.step P a = some w') : Goes a w w' := by
  cases a with
  | submit client i =>
      cases made
      exact .submits rfl fun _ => rfl
  | serve k =>
      simp only [World.step] at made
      split at made
      · rename_i client input c here
        cases made
        have nearer : (w.perform P k input c).1.rank < (Phase.sent c : Phase R E Digest).rank ∧
            ∀ e, (w.perform P k input c).1 ≠ .raised e := by
          cases c with
          | load | eval => exact ⟨Nat.lt_succ_self _, fun e same => by cases same⟩
          | evalsha d =>
              simp only [World.perform]
              split
              · exact ⟨Nat.lt_succ_self _, fun e same => by cases same⟩
              · exact ⟨Nat.lt_succ_self _, fun e same => by cases same⟩
        refine .on here ?_ nearer.1 nearer.2 fun _ => rfl
        rw [World.put, World.put, (performs k input c w).calls_eq]
      · cases made
  | deliver k =>
      simp only [World.step] at made
      split at made
      · rename_i client input d here
        cases made
        exact .on here rfl (Nat.lt_succ_self _) (fun e same => by cases same) fun _ => rfl
      · rename_i client input here
        rw [World.rescue, if_pos ⟨rfl, known⟩] at made
        cases made
        exact .on here rfl (Nat.lt_succ_self _) (fun e same => by cases same) fun _ => rfl
      · rename_i client input last r here
        cases made
        refine .on here rfl ?_ (fun e same => by cases same) fun _ => rfl
        cases last <;> simp [Phase.rank]
      · cases made
  | fault => cases faultless
  | serveLate n =>
      simp only [World.step] at made
      split at made
      · rename_i k c waiting
        obtain ⟨call, here, rfl⟩ := Option.map_eq_some_iff.mp made
        exact .stays (performs k call.input c _).calls_eq fun _ => rfl
      · cases made
  | flush | load | outside =>
      cases made
      exact .stays rfl fun _ => rfl

omit [DecidableEq Source] [DecidableEq Digest] [DecidableEq Client] in
theorem plain_of_faultless (P : Interface S I R E Source Digest)
    (w : World S I R E Source Digest Client) {a : Act S I E Digest Client}
    (faultless : Faultless w a) : Plain P w a := by
  cases a with
  | fault => cases faultless
  | _ => trivial

/-- A call that is not over can take a step of its own. -/
theorem exists_own {call : Call I R E Digest Client} (here : w.calls[k]? = some call)
    (going : 0 < call.phase.rank) : ∃ a, a.own k = true ∧ a.isFault = false ∧
      (w.step P a).isSome = true := by
  obtain ⟨client, input, ph⟩ := call
  cases ph with
  | sent c =>
      refine ⟨.serve k, decide_eq_true rfl, rfl, ?_⟩
      simp only [World.step, here, Option.isSome_some]
  | loaded | unknown | replied =>
      refine ⟨.deliver k, decide_eq_true rfl, rfl, ?_⟩
      simp only [World.step, here, Option.isSome_some]
  | returned | raised => cases going

/-- Without faults, whatever the server forgets and however the calls interleave, no call raises:
each has returned, or has taken fewer than six steps and can take another. -/
theorem returns_of_faultless (known : P.missing P.noScript = true)
    {acts : List (Act S I E Digest Client)}
    (ran : exec (World.step P) Faultless
      ({ state := s₀ } : World S I R E Source Digest Client) acts = some w)
    {call : Call I R E Digest Client} (here : w.calls[k]? = some call) :
    (∃ r, call.phase = .returned r) ∨
      acts.countP (·.own k) < 6 ∧ ∃ a, a.own k = true ∧ a.isFault = false ∧
        (w.step P a).isSome = true := by
  have both : acts.countP (·.own k) + w.rank k ≤ 6 ∧ Unraised w := by
    clear here
    induction acts using List.reverseRecOn generalizing w with
    | nil =>
        cases ran
        exact ⟨Nat.le_refl _, fun k call e here => by simp at here⟩
    | append_singleton acts a ih =>
        obtain ⟨mid, before, faultless, made⟩ := exec_concat _ _ ran
        obtain ⟨enough, quiet⟩ := ih before
        have step := goes known faultless made
        have rank := step.rank k
        refine ⟨?_, step.unraised quiet⟩
        rw [List.countP_append, List.countP_singleton]
        omega
  obtain ⟨enough, quiet⟩ := both
  rw [World.rank, measure_of_some here] at enough
  by_cases ended : call.phase.rank = 0
  · left
    obtain ⟨client, input, ph⟩ := call
    cases ph with
    | returned r => exact ⟨r, rfl⟩
    | raised e => exact absurd rfl (quiet k _ e here)
    | sent c => cases c <;> cases ended
    | replied last r => cases last <;> cases ended
    | loaded | unknown => cases ended
  · exact .inr ⟨by omega, exists_own here (Nat.pos_of_ne_zero ended)⟩

end Faultless

/-! ### Where a forgotten script is not recognized -/

section Unrecognized

variable {P}

variable {w₀ w w' : World S I R E Source Digest Client} {k : ℕ}

/-- The call has nothing but the digest. -/
def Phase.asks : Phase R E Digest → Bool
  | .sent (.evalsha _) | .unknown | .raised _ => true
  | _ => false

/-- The server knows no script, and every client thinks that it does. -/
structure Forgotten (w : World S I R E Source Digest Client) : Prop where
  cached : ∀ d, w.cached d = false
  shas : ∀ client source, (w.shas client source).isSome = true
  calls : ∀ (k : ℕ) (call : Call I R E Digest Client), w.calls[k]? = some call →
    call.phase.asks = true
  late : ∀ entry ∈ w.late, ∃ d, entry.2 = .evalsha d
  log : ∀ k i, .ran k i ∉ w.log

/-- Nobody else loads a script, and no fault is taken for a forgotten one. -/
def Unaided (P : Interface S I R E Source Digest) (w : World S I R E Source Digest Client) :
    Act S I E Digest Client → Prop
  | .load _ => False
  | a => Plain P w a

instance (w : World S I R E Source Digest Client) (a : Act S I E Digest Client) :
    Decidable (Unaided P w a) :=
  match a with
  | .load _ => isFalse id
  | .fault _ e => inferInstanceAs (Decidable (P.missing e = false))
  | .submit .. | .serve _ | .deliver _ | .serveLate _ | .flush | .outside _ => isTrue trivial

theorem Forgotten.put (forgotten : Forgotten w) {call : Call I R E Digest Client}
    {ph : Phase R E Digest} (asks : ph.asks = true) (here : w.calls[k]? = some call) :
    Forgotten (w.put k call ph) where
  cached := forgotten.cached
  shas := forgotten.shas
  calls j other there := by
    by_cases this : j = k
    · subst this
      rw [getElem?_put_self ph here] at there
      cases there
      exact asks
    · rw [getElem?_put_of_ne ph this] at there
      exact forgotten.calls j other there
  late := forgotten.late
  log := forgotten.log

variable [DecidableEq Source] [DecidableEq Digest] [DecidableEq Client]

omit [DecidableEq Source] [DecidableEq Client] in
/-- Whoever asks by the digest is told that it is unknown. -/
theorem Forgotten.perform (forgotten : Forgotten w) (k : ℕ) (i : I) (d : Digest) :
    w.perform P k i (.evalsha d) = (.unknown, w) := by
  rw [World.perform, if_neg (by rw [forgotten.cached]; exact Bool.false_ne_true)]

theorem Forgotten.step {a : Act S I E Digest Client} (unknown : P.missing P.noScript = false)
    (forgotten : Forgotten w) (unaided : Unaided P w a) (made : w.step P a = some w') :
    Forgotten w' := by
  cases a with
  | submit client i =>
      cases made
      refine ⟨forgotten.cached, forgotten.shas, fun j other there => ?_, forgotten.late,
        forgotten.log⟩
      rcases Nat.lt_or_ge j w.calls.length with old | new
      · rw [List.getElem?_append_left old] at there
        exact forgotten.calls j other there
      · rw [List.getElem?_append_right new] at there
        obtain rfl := List.mem_singleton.mp (List.mem_of_getElem? there)
        have kept := forgotten.shas client (P.source i)
        simp only [World.first]
        split
        · rename_i none'
          rw [none'] at kept
          cases kept
        · rfl
  | serve k =>
      simp only [World.step] at made
      split at made
      · rename_i client input c here
        cases made
        have asks := forgotten.calls k _ here
        cases c with
        | load | eval => cases asks
        | evalsha d =>
            rw [forgotten.perform]
            exact forgotten.put rfl here
      · cases made
  | deliver k =>
      simp only [World.step] at made
      split at made
      · rename_i client input d here
        cases forgotten.calls k _ here
      · rename_i client input here
        rw [World.rescue_eq unknown] at made
        cases made
        exact forgotten.put rfl here
      · rename_i client input last r here
        cases forgotten.calls k _ here
      · cases made
  | fault k e =>
      simp only [World.step, World.rescue_eq unaided] at made
      split at made
      · rename_i client input c here
        cases made
        have asks := forgotten.calls k _ here
        cases c with
        | load | eval => cases asks
        | evalsha d =>
            have left : Forgotten { w with late := w.late ++ [(k, .evalsha d)] } := by
              refine ⟨forgotten.cached, forgotten.shas, forgotten.calls, fun entry mem => ?_,
                forgotten.log⟩
              rcases List.mem_append.mp mem with old | new
              · exact forgotten.late entry old
              · exact ⟨d, congrArg Prod.snd (List.mem_singleton.mp new)⟩
            exact left.put rfl here
      · rename_i client input d here
        cases forgotten.calls k _ here
      · rename_i client input here
        cases made
        exact forgotten.put rfl here
      · rename_i client input last r here
        cases forgotten.calls k _ here
      · cases made
  | serveLate n =>
      simp only [World.step] at made
      split at made
      · rename_i k c waiting
        obtain ⟨call, here, rfl⟩ := Option.map_eq_some_iff.mp made
        obtain ⟨d, rfl⟩ := forgotten.late _ (List.mem_of_getElem? waiting)
        have left : Forgotten { w with late := w.late.eraseIdx n } :=
          ⟨forgotten.cached, forgotten.shas, forgotten.calls,
            fun entry mem => forgotten.late entry (List.mem_of_mem_eraseIdx mem), forgotten.log⟩
        rw [left.perform]
        exact left
      · cases made
  | flush =>
      cases made
      exact ⟨fun _ => rfl, forgotten.shas, forgotten.calls, forgotten.late, forgotten.log⟩
  | load => cases unaided
  | outside s =>
      cases made
      refine ⟨forgotten.cached, forgotten.shas, forgotten.calls, forgotten.late, fun k i ran => ?_⟩
      rcases List.mem_append.mp ran with old | new
      · exact forgotten.log k i old
      · simp at new

/-- Then no script runs any more, whoever calls. -/
theorem forgotten_of_reaches (unknown : P.missing P.noScript = false) (forgotten : Forgotten w₀)
    (reached : Reaches (World.step P) (Unaided P) w₀ w) : Forgotten w :=
  reached.invariant forgotten fun _ _ _ forgotten unaided made =>
    forgotten.step unknown unaided made

end Unrecognized

end Scripting
