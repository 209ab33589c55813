import LLMInference.Router

/-!
The ledger interface shared by both backends (`app/cost/base.py`).

The contract is a three-phase protocol: `reserve` holds budget before the call, `settle`
replaces the hold with real spend, `release` drops it and charges nothing. `LedgerBackend`
is the interface as the rest of the program sees it; a call that goes over the network
may fail before or after it took effect (`LedgerFault`).
-/

namespace LLMInference

inductive LedgerError where
  /-- `UserBudgetExceededError`. -/
  | userBudgetExceeded (userId : String) (spent limit requested : ℚ)
  /-- `LedgerUnavailableError`: the store could not be reached and the policy is fail-closed. -/
  | unavailable (detail : String)
  deriving DecidableEq, Repr

/-- `str(e)`. -/
def LedgerError.message (ts : TextSupport) : LedgerError → String
  | .userBudgetExceeded userId spent limit requested =>
      "user " ++ ts.repr userId ++ " would spend $" ++ fmt4 (spent + requested) ++
        " exceeding daily limit $" ++ fmt4 limit
  | .unavailable detail => "redis unavailable: " ++ detail

/-- A budget hold. The `id` stands for the random identifier; `closed` is set once the
reservation has been settled or released. -/
structure Reservation where
  id : ℕ
  userId : String
  amount : ℚ
  createdAt : ℚ
  closed : Bool := false
  deriving DecidableEq, Repr

/-- What `settle` is told about the call. -/
structure Charge where
  cost : ℚ
  model : String
  inputTokens : ℕ
  outputTokens : ℕ
  deriving DecidableEq, Repr

structure UsageRecord where
  userId : String
  model : String
  inputTokens : ℕ
  outputTokens : ℕ
  cost : ℚ
  time : ℚ
  deriving DecidableEq, Repr

/-- The record of a charge against a reservation. -/
def Charge.record (c : Charge) (r : Reservation) (now : ℚ) : UsageRecord :=
  { userId := r.userId, model := c.model, inputTokens := c.inputTokens,
    outputTokens := c.outputTokens, cost := c.cost, time := now }

/-- What the network does to a call. -/
inductive LedgerFault where
  | none
  /-- The call raises before it took effect. -/
  | lost (detail : String)
  /-- The call took effect, and raises. -/
  | noReply (detail : String)
  deriving DecidableEq, Repr

/-- The call took effect. -/
def LedgerFault.executed : LedgerFault → Bool
  | .lost _ => false
  | _ => true

/-- The tolerance of the limit comparison. -/
def epsilon : ℚ := 1 / 10 ^ 9

theorem epsilon_nonneg : 0 ≤ epsilon := by
  unfold epsilon
  norm_num

/-- The operations of a ledger with state `σ`, and what they promise of a reservation. A settle
or release also returns the reservation with its `closed` flag, and the exception it raised,
if any. -/
structure LedgerBackend (σ : Type) where
  /-- A call is a round trip: it may fail, and its caller may be cancelled while it lasts. -/
  networked : Bool
  spent : LedgerFault → σ → String → (now : ℚ) → Except LedgerError ℚ × σ
  reserve : LedgerFault → σ → (id : ℕ) → String → (amount limit now : ℚ) →
    Except LedgerError Reservation × σ
  settle : LedgerFault → σ → Reservation → Charge → (now : ℚ) →
    Option LedgerError × Reservation × σ
  release : LedgerFault → σ → Reservation → Option LedgerError × Reservation × σ
  /-- A granted reservation is open, and for what was asked. -/
  reserve_ok : ∀ {f l id userId amount limit now r l'},
    reserve f l id userId amount limit now = (.ok r, l') →
      r = { id, userId, amount, createdAt := now }
  /-- A settle that returns or raises has closed the reservation. -/
  settle_closes : ∀ f l r c now, (settle f l r c now).2.1 = { r with closed := true }

theorem LedgerBackend.closed_of_settle {σ : Type} (B : LedgerBackend σ) {f : LedgerFault} {l l' : σ}
    {r r' : Reservation} {c : Charge} {now : ℚ} {e : Option LedgerError}
    (bill : B.settle f l r c now = (e, r', l')) : r' = { r with closed := true } := by
  rw [← B.settle_closes f l r c now, bill]

/-- The faults a backend's calls may meet. -/
def LedgerBackend.admits {σ : Type} (B : LedgerBackend σ) (f : LedgerFault) : Bool :=
  B.networked || decide (f = .none)

end LLMInference
