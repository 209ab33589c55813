import LLMInference.Cost.Overspend
import LLMInference.Cost.Window

/-!
The in-memory ledger, account by account (`app/cost/memory.py`).

An `Account` is a reservation with its fate: the first settle or release decides it, and what
comes later is ignored. The ledger keeps a list of entries and prunes it at every read; the
accounts keep everything and are never pruned. `Balanced` ties the two.

* `Account.share`: what a reservation contributes to `spent` at a time.
* `Balanced.step`: every operation keeps the entries that count the accounts' own.
* `spent_is_the_sum_of_shares`: `spent` and `summary` as closed formulas over the accounts.
-/

namespace LLMInference

open Runs

/-- What became of a reservation. -/
inductive Fate where
  | «open»
  | settled (cost time : ℚ)
  | released
  deriving DecidableEq, Repr

namespace Fate

/-- The first call decides. -/
def onSettle (cost now : ℚ) : Fate → Fate
  | .open => .settled cost now
  | fate => fate

def onRelease : Fate → Fate
  | .open => .released
  | fate => fate

def closed : Fate → Bool
  | .open => false
  | _ => true

end Fate

/-- A reservation, as its holder has it, and what became of it. -/
structure Account where
  reservation : Reservation
  fate : Fate := .open
  deriving DecidableEq, Repr

namespace Account

/-- What the reservation contributes to `spent` at `t`. -/
def share (window t : ℚ) (a : Account) : ℚ :=
  match a.fate with
  | .open => if t - window ≤ a.reservation.createdAt then a.reservation.amount else 0
  | .settled cost time => if t - window ≤ time then cost else 0
  | .released => 0

/-- What the reservation contributes to `summary`. -/
def bill (a : Account) : ℚ :=
  match a.fate with
  | .settled cost _ => cost
  | _ => 0

def holdEntry (r : Reservation) : Entry :=
  { timestamp := r.createdAt, amount := r.amount, entryId := r.id }

def billEntry (r : Reservation) (cost time : ℚ) : Entry :=
  { timestamp := time, amount := cost, entryId := r.id }

/-- The entry of the reservation, were nothing ever pruned. -/
def entry (a : Account) : Option Entry :=
  match a.fate with
  | .open => some (holdEntry a.reservation)
  | .settled cost time => some (billEntry a.reservation cost time)
  | .released => none

/-- The accounts of a user. -/
def of (u : String) (as : List Account) : List Account :=
  as.filter fun a => decide (a.reservation.userId = u)

theorem entryId_of_entry {a : Account} {e : Entry} (entry : a.entry = some e) :
    e.entryId = a.reservation.id := by
  unfold Account.entry at entry
  split at entry <;> cases entry <;> rfl

end Account

structure AccountRun where
  ledger : Ledger
  accounts : List Account := []
  /-- The latest reading of the clock. -/
  now : ℚ

namespace AccountRun

def start (windowSeconds now : ℚ) : AccountRun := { ledger := { windowSeconds }, now }

/-- One operation; a reservation is named by its position. -/
def step (s : AccountRun) : LedgerAct → Option AccountRun
  | .reserve id userId amount limit now =>
      match s.ledger.reserve id userId amount limit now with
      | (.ok r, ledger) => some { ledger, now, accounts := s.accounts ++ [{ reservation := r }] }
      | (.error _, ledger) => some { s with ledger, now }
  | .settle h c now =>
      match s.accounts[h]? with
      | none => none
      | some a =>
          let (r, ledger) := s.ledger.settle a.reservation c now
          some { ledger, now,
                 accounts := s.accounts.set h
                   { reservation := r, fate := a.fate.onSettle c.cost now } }
  | .release h =>
      match s.accounts[h]? with
      | none => none
      | some a =>
          let (r, ledger) := s.ledger.release a.reservation
          some { s with
            ledger
            accounts := s.accounts.set h { reservation := r, fate := a.fate.onRelease } }
  | .spent userId now => some { s with ledger := (s.ledger.spent userId now).2, now }

/-- The clock does not go back, and no identifier is drawn twice. -/
def OnTerms (s : AccountRun) : LedgerAct → Prop
  | .reserve id _ _ _ now => s.now ≤ now ∧ ∀ a ∈ s.accounts, a.reservation.id ≠ id
  | .settle _ _ now => s.now ≤ now
  | .release _ => True
  | .spent _ now => s.now ≤ now

instance (s : AccountRun) : ∀ a, Decidable (s.OnTerms a)
  | .reserve id _ _ _ now =>
      inferInstanceAs (Decidable (s.now ≤ now ∧ ∀ a ∈ s.accounts, a.reservation.id ≠ id))
  | .settle _ _ now => inferInstanceAs (Decidable (s.now ≤ now))
  | .release _ => isTrue trivial
  | .spent _ now => inferInstanceAs (Decidable (s.now ≤ now))

/-- The operation is none of the user's, or comes after the first settle or release. -/
def Idle (s : AccountRun) (u : String) : LedgerAct → Prop
  | .reserve _ userId _ _ _ => userId ≠ u
  | .settle h _ _ | .release h =>
      ∀ a, s.accounts[h]? = some a → a.reservation.userId = u → a.fate.closed = true
  | .spent _ _ => True

/-- The accounts' entries of a user. -/
def entries (s : AccountRun) (u : String) : List Entry := (Account.of u s.accounts).filterMap (·.entry)

/-- The ledger agrees with the accounts, on what counts from now on. -/
structure Balanced (s : AccountRun) : Prop where
  closed : ∀ a ∈ s.accounts, a.reservation.closed = a.fate.closed
  ids : (s.accounts.map (·.reservation.id)).Nodup
  named : ∀ u, ∀ e ∈ s.ledger.spend u, ∃ a ∈ s.accounts, a.reservation.id = e.entryId
  distinct : ∀ u, ((s.ledger.spend u).map (·.entryId)).Nodup
  window : ∀ u t, s.now ≤ t →
    (s.ledger.inWindow u t).Perm ((s.entries u).filter (s.ledger.young t))
  summary : ∀ u, s.ledger.summary u = ((Account.of u s.accounts).map (·.bill)).sum

section Lists

variable {as before after : List Account} {a a' : Account} {u : String}

theorem of_append (as bs : List Account) :
    Account.of u (as ++ bs) = Account.of u as ++ Account.of u bs :=
  List.filter_append ..

/-- The account at `h`, between the others. -/
theorem exists_split {h : ℕ} (here : as[h]? = some a) (a' : Account) :
    ∃ before after, as = before ++ a :: after ∧ as.set h a' = before ++ a' :: after := by
  obtain ⟨inside, same⟩ := List.getElem?_eq_some_iff.mp here
  obtain ⟨before, after, all, -, updated⟩ := List.exists_of_set inside
  exact ⟨before, after, same ▸ all, updated⟩

/-- The entries of others do not have the identifier. -/
theorem filter_ne_of_absent {id : ℕ} (absent : ∀ b ∈ as, b.reservation.id ≠ id) :
    ((Account.of u as).filterMap (·.entry)).filter (fun e => decide (e.entryId ≠ id)) =
      (Account.of u as).filterMap (·.entry) := by
  apply List.filter_eq_self.mpr
  intro e mem
  obtain ⟨b, inside, entry⟩ := List.mem_filterMap.mp mem
  apply decide_eq_true
  rw [Account.entryId_of_entry entry]
  exact absent b (List.mem_filter.mp inside).1

/-- When one account changes, its old entry leaves and its new one comes. -/
theorem entries_change (ids : ((before ++ a :: after).map (·.reservation.id)).Nodup)
    (user : a.reservation.userId = u) (user' : a'.reservation.userId = u) (p : Entry → Bool) :
    (((Account.of u (before ++ a' :: after)).filterMap (·.entry)).filter p).Perm
      (((((Account.of u (before ++ a :: after)).filterMap (·.entry)).filter p).filter
        fun e => decide (e.entryId ≠ a.reservation.id)) ++ a'.entry.toList.filter p) := by
  rw [List.map_append, List.map_cons, List.nodup_append, List.nodup_cons] at ids
  obtain ⟨-, ⟨right, -⟩, apart⟩ := ids
  have left : ∀ b ∈ before, b.reservation.id ≠ a.reservation.id := by
    intro b mem
    exact apart _ (List.mem_map_of_mem mem) _ List.mem_cons_self
  have right : ∀ b ∈ after, b.reservation.id ≠ a.reservation.id := by
    intro b mem same
    exact right (same ▸ List.mem_map_of_mem mem)
  have split : ∀ x : Account, x.reservation.userId = u →
      (Account.of u (before ++ x :: after)).filterMap (·.entry) =
        (Account.of u before).filterMap (·.entry) ++
          (x.entry.toList ++ (Account.of u after).filterMap (·.entry)) := by
    intro x mine
    have cons : Account.of u (x :: after) = x :: Account.of u after :=
      List.filter_cons_of_pos (decide_eq_true mine)
    rw [of_append, List.filterMap_append, cons]
    cases entry : x.entry with
    | none => rw [List.filterMap_cons_none entry, Option.toList_none, List.nil_append]
    | some e =>
        rw [List.filterMap_cons_some entry, Option.toList_some, List.cons_append, List.nil_append]
  have gone : a.entry.toList.filter (fun e => decide (e.entryId ≠ a.reservation.id)) = [] := by
    cases entry : a.entry with
    | none => rfl
    | some e =>
        apply List.filter_cons_of_neg
        simp [Account.entryId_of_entry entry]
  have swap : ∀ es : List Entry,
      (es.filter p).filter (fun e => decide (e.entryId ≠ a.reservation.id)) =
        (es.filter fun e => decide (e.entryId ≠ a.reservation.id)).filter p := by
    intro es
    rw [List.filter_filter, List.filter_filter]
    exact List.filter_congr fun e _ => Bool.and_comm ..
  rw [split a' user', split a user, swap]
  simp only [List.filter_append]
  rw [filter_ne_of_absent left, filter_ne_of_absent right, gone, List.filter_nil,
    List.nil_append, List.append_assoc]
  exact List.perm_append_comm.append_left _

/-- What a change of one account does to a sum over a user's accounts. -/
theorem sum_change (f : Account → ℚ) (user : a.reservation.userId = u)
    (user' : a'.reservation.userId = u) :
    ((Account.of u (before ++ a' :: after)).map f).sum + f a =
      ((Account.of u (before ++ a :: after)).map f).sum + f a' := by
  have cons : ∀ x : Account, x.reservation.userId = u →
      Account.of u (x :: after) = x :: Account.of u after :=
    fun x mine => List.filter_cons_of_pos (decide_eq_true mine)
  simp only [of_append, cons a user, cons a' user', List.map_append, List.map_cons,
    List.sum_append, List.sum_cons]
  ring

/-- A change of another user's account is none of this user's. -/
theorem of_change (other : a.reservation.userId ≠ u) (other' : a'.reservation.userId ≠ u) :
    Account.of u (before ++ a' :: after) = Account.of u (before ++ a :: after) := by
  rw [of_append, of_append]
  unfold Account.of
  rw [List.filter_cons_of_neg (by simpa using other'), List.filter_cons_of_neg (by simpa using other)]

/-- The sum of the entries that count is the sum of the shares. -/
theorem amounts_entries (l : Ledger) (t : ℚ) (as : List Account) :
    amounts ((as.filterMap (·.entry)).filter (l.young t)) =
      (as.map (·.share l.windowSeconds t)).sum := by
  induction as with
  | nil => rfl
  | cons a rest ih =>
      rw [List.map_cons, List.sum_cons, ← ih]
      obtain ⟨r, fate⟩ := a
      cases fate with
      | released =>
          rw [List.filterMap_cons_none rfl]
          exact (zero_add _).symm
      | «open» =>
          have entry : Account.entry { reservation := r } = some (Account.holdEntry r) := rfl
          rw [List.filterMap_cons_some entry, List.filter_cons, Account.share]
          by_cases young : t - l.windowSeconds ≤ r.createdAt
          · simp [Ledger.young, Account.holdEntry, young, amounts]
          · simp [Ledger.young, Account.holdEntry, young, amounts]
      | settled cost time =>
          have entry : Account.entry { reservation := r, fate := .settled cost time } =
            some (Account.billEntry r cost time) := rfl
          rw [List.filterMap_cons_some entry, List.filter_cons, Account.share]
          by_cases young : t - l.windowSeconds ≤ time
          · simp [Ledger.young, Account.billEntry, young, amounts]
          · simp [Ledger.young, Account.billEntry, young, amounts]

end Lists

section Steps

variable {s s' : AccountRun} {u : String}

/-- A read or a refused reserve only prunes. -/
theorem Balanced.pruned (balanced : s.Balanced) {now : ℚ} (later : s.now ≤ now) (user : String) :
    Balanced { s with ledger := s.ledger.prune user now, now } := by
  obtain ⟨closed, ids, named, distinct, window, summary⟩ := balanced
  have fewer : ∀ v, ((s.ledger.prune user now).spend v).Sublist (s.ledger.spend v) :=
    fun v => Ledger.spend_prune_sublist _ _ _
  refine ⟨closed, ids, ?_, ?_, ?_, summary⟩
  · exact fun v e mem => named v e ((fewer v).subset mem)
  · exact fun v => (distinct v).sublist ((fewer v).map _)
  · intro v t after
    rw [Ledger.inWindow_prune _ _ after]
    exact window v t (later.trans after)

/-- A granted reserve opens an account. -/
theorem Balanced.granted (balanced : s.Balanced) {id : ℕ} {user : String} {amount now : ℚ}
    (later : s.now ≤ now) (fresh : ∀ a ∈ s.accounts, a.reservation.id ≠ id) :
    Balanced
      { ledger := s.ledger.setSpend user
          (s.ledger.inWindow user now ++ [{ timestamp := now, amount, entryId := id }])
        accounts := s.accounts ++ [{ reservation := { id, userId := user, amount, createdAt := now } }]
        now } := by
  obtain ⟨closed, ids, named, distinct, window, summary⟩ := balanced
  have absent : ∀ v, ∀ e ∈ s.ledger.spend v, e.entryId ≠ id := by
    intro v e mem
    obtain ⟨a, inside, same⟩ := named v e mem
    exact same ▸ fresh a inside
  refine ⟨?_, ?_, ?_, ?_, ?_, ?_⟩
  · intro a mem
    rcases List.mem_append.mp mem with old | new
    · exact closed a old
    · rw [List.mem_singleton.mp new]
      rfl
  · rw [List.map_append, List.nodup_append]
    refine ⟨ids, List.nodup_singleton _, ?_⟩
    intro x left y right same
    obtain ⟨a, inside, rfl⟩ := List.mem_map.mp left
    exact fresh a inside (same.trans (List.mem_singleton.mp right))
  · intro v e mem
    by_cases mine : v = user
    · subst mine
      rw [Ledger.setSpend_self] at mem
      rcases List.mem_append.mp mem with old | new
      · obtain ⟨a, inside, same⟩ := named v e (List.mem_filter.mp old).1
        exact ⟨a, List.mem_append_left _ inside, same⟩
      · exact ⟨_, List.mem_append_right _ (List.mem_singleton_self _),
          congrArg Entry.entryId (List.mem_singleton.mp new).symm⟩
    · rw [Ledger.setSpend_ne _ mine] at mem
      obtain ⟨a, inside, same⟩ := named v e mem
      exact ⟨a, List.mem_append_left _ inside, same⟩
  · intro v
    by_cases mine : v = user
    · subst mine
      rw [Ledger.setSpend_self, List.map_append, List.nodup_append]
      refine ⟨(distinct v).sublist (List.filter_sublist.map _), List.nodup_singleton _, ?_⟩
      intro x left y right same
      obtain ⟨e, inside, rfl⟩ := List.mem_map.mp left
      exact absent v e (List.mem_filter.mp inside).1 (same.trans (List.mem_singleton.mp right))
    · rw [Ledger.setSpend_ne _ mine]
      exact distinct v
  · intro v t after
    have old := window v t (later.trans after)
    unfold entries at old ⊢
    rw [of_append, List.filterMap_append, List.filter_append]
    by_cases mine : v = user
    · subst mine
      rw [Ledger.inWindow_held _ after]
      simp only [Account.of, decide_true, List.filter_cons_of_pos, List.filter_nil]
      exact old.append (List.Perm.refl _)
    · have none : Account.of v
          [({ reservation := { id, userId := user, amount, createdAt := now } } : Account)] = [] := by
        simp [Account.of, Ne.symm mine]
      rw [Ledger.inWindow_setSpend_ne mine, none, List.filterMap_nil, List.filter_nil,
        List.append_nil]
      exact old
  · intro v
    rw [of_append, List.map_append, List.sum_append]
    have none : ((Account.of v
        [({ reservation := { id, userId := user, amount, createdAt := now } } : Account)]).map
          (·.bill)).sum = 0 := by
      apply List.sum_eq_zero
      intro x mem
      obtain ⟨a, inside, rfl⟩ := List.mem_map.mp mem
      rw [List.mem_singleton.mp (List.mem_filter.mp inside).1]
      rfl
    rw [none, add_zero]
    exact summary v

/-- The first settle or release of an account: the ledger drops what it has under the
identifier, and gets the new entry. -/
theorem Balanced.decided (balanced : s.Balanced) {h : ℕ} {a a' : Account} {now : ℚ} {l : Ledger}
    (here : s.accounts[h]? = some a) (later : s.now ≤ now)
    (same : a'.reservation.id = a.reservation.id ∧ a'.reservation.userId = a.reservation.userId)
    (closed' : a'.reservation.closed = a'.fate.closed) (seconds : l.windowSeconds = s.ledger.windowSeconds)
    (mine : l.spend a.reservation.userId =
      dropEntry (s.ledger.spend a.reservation.userId) a.reservation.id ++ a'.entry.toList)
    (others : ∀ v, v ≠ a.reservation.userId → l.spend v = s.ledger.spend v)
    (summary' : ∀ v, l.summary v = s.ledger.summary v +
      if v = a.reservation.userId then a'.bill - a.bill else 0) :
    Balanced { ledger := l, accounts := s.accounts.set h a', now } := by
  obtain ⟨closed, ids, named, distinct, window, summary⟩ := balanced
  obtain ⟨before, after, all, updated⟩ := exists_split here a'
  have young : l.young = s.ledger.young := by
    unfold Ledger.young
    rw [seconds]
  have inside : a ∈ s.accounts := List.mem_of_getElem? here
  have kept : ∀ b ∈ s.accounts, ∃ b' ∈ s.accounts.set h a', b'.reservation.id = b.reservation.id := by
    rw [updated, all]
    intro b mem
    rcases List.mem_append.mp mem with left | right
    · exact ⟨b, List.mem_append_left _ left, rfl⟩
    · rcases List.mem_cons.mp right with rfl | tail
      · exact ⟨a', List.mem_append_right _ List.mem_cons_self, same.1⟩
      · exact ⟨b, List.mem_append_right _ (List.mem_cons_of_mem _ tail), rfl⟩
  refine ⟨?_, ?_, ?_, ?_, ?_, ?_⟩
  · intro b mem
    rcases List.mem_or_eq_of_mem_set mem with old | rfl
    · exact closed b old
    · exact closed'
  · show ((s.accounts.set h a').map (·.reservation.id)).Nodup
    rw [updated]
    rw [all] at ids
    simpa [same.1] using ids
  · intro v e mem
    by_cases own : v = a.reservation.userId
    · subst own
      rw [mine] at mem
      rcases List.mem_append.mp mem with old | new
      · obtain ⟨b, was, id⟩ := named _ e (List.mem_of_mem_eraseP old)
        obtain ⟨b', is, id'⟩ := kept b was
        exact ⟨b', is, id'.trans id⟩
      · have entry : a'.entry = some e := by simpa using new
        obtain ⟨b', is, id'⟩ := kept a inside
        refine ⟨b', is, id'.trans ?_⟩
        rw [Account.entryId_of_entry entry, same.1]
    · rw [others v own] at mem
      obtain ⟨b, was, id⟩ := named v e mem
      obtain ⟨b', is, id'⟩ := kept b was
      exact ⟨b', is, id'.trans id⟩
  · intro v
    by_cases own : v = a.reservation.userId
    · subst own
      rw [mine, List.map_append, List.nodup_append]
      refine ⟨(distinct _).sublist (List.eraseP_sublist.map _), ?_, ?_⟩
      · cases a'.entry <;> simp
      · intro x left y right eq
        obtain ⟨e, new, rfl⟩ := List.mem_map.mp right
        have entry : a'.entry = some e := by simpa using new
        have id : x = a.reservation.id := by
          rw [eq, Account.entryId_of_entry entry, same.1]
        exact notMem_dropEntry (distinct _) a.reservation.id (id ▸ left)
    · rw [others v own]
      exact distinct v
  · intro v t past
    have old := window v t (later.trans past)
    unfold entries at old ⊢
    rw [young]
    simp only [updated]
    rw [all] at old
    by_cases own : v = a.reservation.userId
    · subst own
      have changed := entries_change (all ▸ ids) rfl same.2 (s.ledger.young t)
      refine List.Perm.trans ?_ changed.symm
      rw [Ledger.inWindow_eq, mine, young, List.filter_append,
        Ledger.filter_young_dropEntry (distinct _)]
      exact (old.filter _).append (List.Perm.refl _)
    · have own' : a'.reservation.userId ≠ v := fun eq => own (eq.symm.trans same.2)
      rw [of_change (Ne.symm own) own', Ledger.inWindow_eq, others v own, young]
      exact old
  · intro v
    show l.summary v = ((Account.of v (s.accounts.set h a')).map (·.bill)).sum
    rw [summary' v, summary v, updated, all]
    by_cases own : v = a.reservation.userId
    · rw [if_pos own]
      have change : ((Account.of v (before ++ a' :: after)).map (·.bill)).sum + a.bill =
          ((Account.of v (before ++ a :: after)).map (·.bill)).sum + a'.bill :=
        sum_change (·.bill) own.symm (same.2.trans own.symm)
      linarith
    · have own' : a'.reservation.userId ≠ v := fun eq => own (eq.symm.trans same.2)
      rw [if_neg own, of_change (Ne.symm own) own', add_zero]

/-- Time passes. -/
theorem Balanced.later (balanced : s.Balanced) {now : ℚ} (later : s.now ≤ now) :
    Balanced { s with now } :=
  { balanced with window := fun u t after => balanced.window u t (later.trans after) }

theorem summary_settle {l : Ledger} {r : Reservation} (opened : r.closed = false) (c : Charge)
    (now : ℚ) (v : String) :
    (l.settle r c now).2.summary v = l.summary v + if v = r.userId then c.cost else 0 := by
  simp only [Ledger.settle, opened, Bool.false_eq_true, if_false, Ledger.summary]
  rw [List.filter_append, List.map_append, List.sum_append]
  by_cases own : v = r.userId
  · simp [own, Charge.record]
  · simp [own, Ne.symm own, Charge.record]

theorem Balanced.settle (balanced : s.Balanced) {h : ℕ} {a : Account} {c : Charge} {now : ℚ}
    (here : s.accounts[h]? = some a) (later : s.now ≤ now) :
    Balanced
      { ledger := (s.ledger.settle a.reservation c now).2
        accounts := s.accounts.set h
          { reservation := (s.ledger.settle a.reservation c now).1
            fate := a.fate.onSettle c.cost now }
        now } := by
  have flag := balanced.closed a (List.mem_of_getElem? here)
  obtain ⟨r, fate⟩ := a
  cases closed : fate.closed with
  | true =>
      have shut : r.closed = true := flag.trans closed
      have same : fate.onSettle c.cost now = fate := by
        cases fate <;> first | rfl | cases closed
      have unchanged : s.accounts.set h { reservation := r, fate } = s.accounts := by
        obtain ⟨inside, eq⟩ := List.getElem?_eq_some_iff.mp here
        exact eq ▸ List.set_getElem_self inside
      simp only [Ledger.settle, shut, if_true, same, unchanged]
      exact balanced.later later
  | false =>
      have opened : r.closed = false := flag.trans closed
      cases fate with
      | «open» =>
          apply balanced.decided here later
          · simp [Ledger.settle, opened]
          · simp [Ledger.settle, opened, Fate.onSettle, Fate.closed]
          · simp [Ledger.settle, opened]
          · simp [Ledger.settle, opened, Account.entry, Fate.onSettle, Account.billEntry]
          · intro v other
            simp [Ledger.settle, opened, other]
          · intro v
            rw [summary_settle opened]
            simp [Account.bill, Fate.onSettle]
      | settled cost time => cases closed
      | released => cases closed

theorem Balanced.release (balanced : s.Balanced) {h : ℕ} {a : Account}
    (here : s.accounts[h]? = some a) :
    Balanced
      { s with
        ledger := (s.ledger.release a.reservation).2
        accounts := s.accounts.set h
          { reservation := (s.ledger.release a.reservation).1, fate := a.fate.onRelease } } := by
  have flag := balanced.closed a (List.mem_of_getElem? here)
  obtain ⟨r, fate⟩ := a
  cases closed : fate.closed with
  | true =>
      have shut : r.closed = true := flag.trans closed
      have same : fate.onRelease = fate := by
        cases fate <;> first | rfl | cases closed
      have unchanged : s.accounts.set h { reservation := r, fate } = s.accounts := by
        obtain ⟨inside, eq⟩ := List.getElem?_eq_some_iff.mp here
        exact eq ▸ List.set_getElem_self inside
      simp only [Ledger.release, shut, if_true, same, unchanged]
      exact balanced
  | false =>
      have opened : r.closed = false := flag.trans closed
      cases fate with
      | «open» =>
          apply balanced.decided here le_rfl
          · simp [Ledger.release, opened]
          · simp [Ledger.release, opened, Fate.onRelease, Fate.closed]
          · simp [Ledger.release, opened]
          · simp [Ledger.release, opened, Account.entry, Fate.onRelease]
          · intro v other
            simp [Ledger.release, opened, other]
          · intro v
            simp [Ledger.release, opened, Account.bill, Fate.onRelease, Ledger.summary]
      | settled cost time => cases closed
      | released => cases closed

theorem Balanced.step (balanced : s.Balanced) {a : LedgerAct} (terms : s.OnTerms a)
    (stepped : s.step a = some s') : s'.Balanced := by
  cases a with
  | reserve id user amount limit now =>
      obtain ⟨later, fresh⟩ := terms
      rcases Ledger.reserve_cases (l := s.ledger) id user amount limit now with
        ⟨-, eq⟩ | ⟨-, eq⟩
      · simp only [AccountRun.step, eq] at stepped
        cases stepped
        exact balanced.pruned later user
      · simp only [AccountRun.step, eq] at stepped
        cases stepped
        exact balanced.granted later fresh
  | settle h c now =>
      simp only [AccountRun.step] at stepped
      split at stepped
      · cases stepped
      · rename_i a here
        cases stepped
        exact balanced.settle here terms
  | release h =>
      simp only [AccountRun.step] at stepped
      split at stepped
      · cases stepped
      · rename_i a here
        cases stepped
        exact balanced.release here
  | spent user now =>
      cases stepped
      exact balanced.pruned terms user

/-- A duplicate call, or another user's operation, does not show. -/
theorem Balanced.idle (balanced : s.Balanced) {a : LedgerAct} (idle : s.Idle u a)
    (stepped : s.step a = some s') :
    (∀ t, s'.now ≤ t → s'.ledger.inWindow u t = s.ledger.inWindow u t) ∧
      s'.ledger.summary u = s.ledger.summary u := by
  cases a with
  | reserve id user amount limit now =>
      have other : u ≠ user := Ne.symm idle
      rcases Ledger.reserve_cases (l := s.ledger) id user amount limit now with
        ⟨-, eq⟩ | ⟨-, eq⟩
      · simp only [AccountRun.step, eq] at stepped
        cases stepped
        exact ⟨fun t after => Ledger.inWindow_prune _ _ after, rfl⟩
      · simp only [AccountRun.step, eq] at stepped
        cases stepped
        exact ⟨fun t _ => Ledger.inWindow_setSpend_ne other, rfl⟩
  | settle h c now =>
      simp only [AccountRun.step] at stepped
      split at stepped
      · cases stepped
      · rename_i a here
        cases stepped
        have flag := balanced.closed a (List.mem_of_getElem? here)
        by_cases own : a.reservation.userId = u
        · simp only [Ledger.settle, flag, idle a here own, if_true]
          exact ⟨fun _ _ => trivial, trivial⟩
        · constructor
          · exact fun t _ => Ledger.inWindow_settle_ne (Ne.symm own)
          · cases closed : a.reservation.closed with
            | true => simp [Ledger.settle, closed]
            | false =>
                show (s.ledger.settle a.reservation c now).2.summary u = _
                rw [summary_settle closed, if_neg (Ne.symm own), add_zero]
  | release h =>
      simp only [AccountRun.step] at stepped
      split at stepped
      · cases stepped
      · rename_i a here
        cases stepped
        have flag := balanced.closed a (List.mem_of_getElem? here)
        by_cases own : a.reservation.userId = u
        · simp only [Ledger.release, flag, idle a here own, if_true]
          exact ⟨fun _ _ => trivial, trivial⟩
        · constructor
          · exact fun t _ => Ledger.inWindow_release_ne (Ne.symm own)
          · unfold Ledger.release
            split <;> rfl
  | spent user now =>
      cases stepped
      exact ⟨fun t after => Ledger.inWindow_prune _ _ after, rfl⟩

end Steps

/-- From any run on one clock with distinct identifiers: `spent` at any later time is the sum
of the user's shares, `summary` the sum of the user's bills, and a duplicate settle or
release, or another user's operation, changes neither. -/
theorem spent_is_the_sum_of_shares (windowSeconds started : ℚ) {s : AccountRun}
    (reached : Reaches step OnTerms (start windowSeconds started) s) (u : String) :
    (∀ t, s.now ≤ t → (s.ledger.spent u t).1 =
        ((Account.of u s.accounts).map (·.share s.ledger.windowSeconds t)).sum) ∧
      s.ledger.summary u = ((Account.of u s.accounts).map (·.bill)).sum ∧
      ∀ a s', s.OnTerms a → s.Idle u a → s.step a = some s' →
        (∀ t, s'.now ≤ t → (s'.ledger.spent u t).1 = (s.ledger.spent u t).1) ∧
          s'.ledger.summary u = s.ledger.summary u := by
  have balanced : s.Balanced := by
    apply reached.invariant
    · exact ⟨List.forall_mem_nil _, List.nodup_nil, fun _ => List.forall_mem_nil _,
        fun _ => List.nodup_nil, fun _ _ _ => List.Perm.refl _, fun _ => rfl⟩
    · intro s a s' balanced terms stepped
      exact balanced.step terms stepped
  refine ⟨?_, balanced.summary u, ?_⟩
  · intro t after
    rw [← amounts_entries]
    exact ((balanced.window u t after).map (·.amount)).sum_eq
  · intro a s' _ idle stepped
    obtain ⟨window, summary⟩ := balanced.idle idle stepped
    exact ⟨fun t after => congrArg amounts (window t after), summary⟩

/-- One user settles twice and releases, and another only reserves; the last hold has expired
before it is settled. -/
def accountActs : List LedgerAct :=
  [.reserve 0 "u" (1 / 2) 1 0, .reserve 1 "v" (1 / 4) 1 10, .reserve 2 "u" (1 / 8) 1 20,
    .settle 0 { cost := 3 / 4, model := "small", inputTokens := 1, outputTokens := 1 } 30,
    .settle 0 { cost := 5, model := "small", inputTokens := 1, outputTokens := 1 } 40,
    .release 0, .spent "u" 85,
    .settle 2 { cost := 1 / 16, model := "small", inputTokens := 1, outputTokens := 1 } 90]

theorem spent_is_the_sum_of_shares_after_duplicates :
    ∃ s, Reaches step OnTerms (start 60 0) s ∧ (s.ledger.spent "u" 90).1 = 3 / 4 + 1 / 16 ∧
      ((Account.of "u" s.accounts).map (·.share s.ledger.windowSeconds 90)).sum = 3 / 4 + 1 / 16 := by
  have holds : execHolds step (fun s a => s.OnTerms a) (start 60 0) accountActs (fun s =>
      decide (s.now ≤ 90 ∧ (s.ledger.spent "u" 90).1 = 3 / 4 + 1 / 16)) = true := by
    decide +kernel
  obtain ⟨s, reached, good⟩ := exists_reaches_of_execHolds _ _ holds
  obtain ⟨past, spent⟩ := of_decide_eq_true good
  have shares := (spent_is_the_sum_of_shares 60 0 reached "u").1 90 past
  exact ⟨s, reached, spent, shares.symm.trans spent⟩

end AccountRun

end LLMInference
