import LLMInference.Cost.Memory
import LLMInference.Service.Books

/-!
Exactly one refund or charge per reservation, on the in-memory ledger.

The books of a request (`Books`) are tied to the entries and the records of the ledger the
requests share. An entry leaves the ledger by its settle or release, or because a later
`reserve` of its user finds it older than the window (`PrunedAfter`).

* `Trans.ledger_cases`: what a step of a request does to the ledger.
* `Kept`: the entries and the records are those the log accounts for.
* `one_refund_or_charge`: what an exited request has left behind.
-/

namespace LLMInference

open Runs

/-- An event that changes what the ledger holds. -/
def Event.onLedger : Event → Bool
  | .granted .. | .pruned .. | .settled .. | .released _ => true
  | _ => false

theorem onLedger_of_deed {e : Event} (closing : e.deed ∈ [Deed.settled, .released]) :
    e.onLedger = true := by
  cases e with
  | emitted _ ev => cases ev <;> simp [Event.deed] at closing
  | granted _ _ | pruned _ _ | settled _ _ _ _ | released _ => rfl
  | _ => simp [Event.deed] at closing

/-- The settle a request is in, with its reservation. -/
inductive Settling : Phase → Reservation → Charge → Prop
  | buffered {r : Reservation} {served : RoutingDecision} {k : Completion} :
      Settling (.settling r served k) r (chargeFor served.model k.usage)
  | streamed {fin : Finalizer} {x : Exit} :
      Settling (.finalizing fin x) fin.reservation (chargeFor fin.decision.model fin.usage)

/-- The release a request is in, with its reservation. -/
inductive Releasing : Phase → Reservation → Prop
  | shed {r : Reservation} : Releasing (.shedding r) r
  | failed {r : Reservation} {x : Exit} : Releasing (.refunding r x) r

/-- What a step of request `i` does to the in-memory ledger. -/
inductive LedgerMove (s : Settings) (i : ℕ) (req : Request) (now : ℚ) (l l' : Ledger) (ph : Phase) :
    List Event → Prop
  | same {evs : List Event} (ledger : l' = l) (quiet : ∀ e ∈ evs, e.onLedger = false) :
      LedgerMove s i req now l l' ph evs
  | refused (ledger : l' = l.prune req.userId now) :
      LedgerMove s i req now l l' ph [.pruned req.userId now]
  | held {d : RoutingDecision} (here : ph = .reserving d)
      (fits : amounts (l.inWindow req.userId now) + d.projectedCost ≤ req.userLimit s + epsilon)
      (ledger : l' = l.setSpend req.userId
        (l.inWindow req.userId now ++ [{ timestamp := now, amount := d.projectedCost, entryId := i }])) :
      LedgerMove s i req now l l' ph
        [.pruned req.userId now,
          .granted i { id := i, userId := req.userId, amount := d.projectedCost, createdAt := now }]
  | charged {r : Reservation} {c : Charge} {evs : List Event} (settling : Settling ph r c)
      (opened : r.closed = false) (ledger : l' = (l.settle r c now).2)
      (quiet : ∀ e ∈ evs, e.onLedger = false) :
      LedgerMove s i req now l l' ph (.billed i c :: .settled i r.userId c now :: evs)
  | refunded {r : Reservation} {evs : List Event} (releasing : Releasing ph r)
      (opened : r.closed = false) (ledger : l' = (l.release r).2)
      (quiet : ∀ e ∈ evs, e.onLedger = false) :
      LedgerMove s i req now l l' ph (.released i :: evs)

section Moves

variable {ts : TextSupport} {s : Settings} {i : ℕ} {req : Request} {streaming : Bool}
  {sh sh' : Shared Ledger} {ph ph' : Phase} {a : TaskAct} {evs : List Event}

/-- No call on the in-memory ledger fails. -/
theorem eq_none_of_admits {f : LedgerFault} (admits : Ledger.backend.admits f = true) :
    f = .none :=
  of_decide_eq_true admits

theorem ledgerMove_settle {r r' : Reservation} {c : Charge} {l l' : Ledger} {now : ℚ}
    {e : Option LedgerError} {f : LedgerFault} (admits : Ledger.backend.admits f = true)
    (settling : Settling ph r c) (bill : Ledger.backend.settle f l r c now = (e, r', l'))
    (quiet : ∀ e ∈ evs, e.onLedger = false) :
    LedgerMove s i req now l l' ph (settleEvents i r c now f ++ evs) := by
  cases eq_none_of_admits admits
  have ledger : l' = (l.settle r c now).2 := congrArg (fun out => out.2.2) bill.symm
  cases opened : r.closed with
  | true =>
      refine .same ?_ ?_
      · rw [ledger, Ledger.settle, opened]
        rfl
      · simpa [settleEvents, opened, Event.onLedger] using quiet
  | false =>
      have events : settleEvents i r c now .none = [.billed i c, .settled i r.userId c now] := by
        simp [settleEvents, opened, LedgerFault.executed]
      rw [events]
      exact .charged settling opened ledger quiet

theorem ledgerMove_release {r r' : Reservation} {l l' : Ledger} {now : ℚ}
    {e : Option LedgerError} {f : LedgerFault} (admits : Ledger.backend.admits f = true)
    (releasing : Releasing ph r) (refund : Ledger.backend.release f l r = (e, r', l'))
    (quiet : ∀ e ∈ evs, e.onLedger = false) :
    LedgerMove s i req now l l' ph (releaseEvents i r f ++ evs) := by
  cases eq_none_of_admits admits
  have ledger : l' = (l.release r).2 := congrArg (fun out => out.2.2) refund.symm
  cases opened : r.closed with
  | true =>
      refine .same ?_ ?_
      · rw [ledger, Ledger.release, opened]
        rfl
      · simpa [releaseEvents, opened, Event.onLedger] using quiet
  | false =>
      have events : releaseEvents i r .none = [.released i] := by
        simp [releaseEvents, opened, LedgerFault.executed]
      rw [events]
      exact .refunded releasing opened ledger quiet

theorem Trans.ledger_cases (step : Trans Ledger.backend ts s i req streaming sh ph a sh' ph' evs) :
    LedgerMove s i req sh.now sh.ledger sh'.ledger ph evs := by
  cases step
  case granted admits reserved =>
    cases eq_none_of_admits admits
    rcases Ledger.reserve_cases i req.userId _ (req.userLimit s) sh.now with
      ⟨-, refused⟩ | ⟨fits, granted⟩
    · cases reserved.symm.trans refused
    · cases reserved.symm.trans granted
      exact .held rfl fits rfl
  case refused admits reserved =>
    cases eq_none_of_admits admits
    rcases Ledger.reserve_cases i req.userId _ (req.userLimit s) sh.now with
      ⟨-, refused⟩ | ⟨fits, granted⟩
    · cases reserved.symm.trans refused
      exact .refused rfl
    · cases reserved.symm.trans granted
  case settleRaise admits bill =>
    rw [← List.append_nil (settleEvents _ _ _ _ _)]
    exact ledgerMove_settle admits .buffered bill (List.forall_mem_nil _)
  case finalizeStore admits bill =>
    rw [← List.append_nil (settleEvents _ _ _ _ _)]
    exact ledgerMove_settle admits .streamed bill (List.forall_mem_nil _)
  case settleCache admits bill | settleReturn admits bill =>
    exact ledgerMove_settle admits .buffered bill (by simp [Event.onLedger])
  case finalizeClose admits bill =>
    exact ledgerMove_settle admits .streamed bill (by simp [Event.onLedger])
  case finishShed admits refund =>
    rw [← List.append_nil (releaseEvents _ _ _)]
    exact ledgerMove_release admits .shed refund (List.forall_mem_nil _)
  case refundRaise admits refund | refund admits refund =>
    exact ledgerMove_release admits .failed refund (by simp [Event.onLedger])
  case cancelReserve networked | cancelShed networked | cancelSettle networked |
      cancelRefund networked =>
    cases networked
  all_goals exact .same rfl (by simp [Event.onLedger])

end Moves

/-! ### The ledger and the log -/

/-- The record `settle` appends. -/
def Event.usageRecord : Event → Option UsageRecord
  | .settled _ userId c now =>
      some { userId, model := c.model, inputTokens := c.inputTokens, outputTokens := c.outputTokens,
             cost := c.cost, time := now }
  | _ => none

/-- The entry of a hold. -/
def Reservation.entry (r : Reservation) : Entry :=
  { timestamp := r.createdAt, amount := r.amount, entryId := r.id }

/-- The entry of a charge for request `i`. -/
def Charge.entry (c : Charge) (i : ℕ) (now : ℚ) : Entry :=
  { timestamp := now, amount := c.cost, entryId := i }

/-- No settle or release took effect for request `i`. -/
def Unclosed (i : ℕ) (log : List Event) : Prop := Clean [.settled, .released] (history i log)

instance (i : ℕ) (log : List Event) : Decidable (Unclosed i log) :=
  inferInstanceAs (Decidable (Clean _ _))

/-- After `e`, a reserve of the user pruned what is older than its window, `time` included. -/
def PrunedAfter (window : ℚ) (log : List Event) (e : Event) (userId : String) (time : ℚ) : Prop :=
  ∃ before after now, log = before ++ after ∧ e ∈ before ∧ .pruned userId now ∈ after ∧
    time < now - window

/-- The log accounts for an entry: an open hold, or a charge. -/
def Backed (log : List Event) (userId : String) (e : Entry) : Prop :=
  (∃ r, .granted e.entryId r ∈ log ∧ r.userId = userId ∧ Unclosed e.entryId log ∧ e = r.entry) ∨
    ∃ c now, .settled e.entryId userId c now ∈ log ∧ e = c.entry e.entryId now

/-- The ledger is what the log accounts for, up to pruning. -/
structure Kept (l : Ledger) (log : List Event) : Prop where
  named : ∀ i r, .granted i r ∈ log → r.id = i
  entries : ∀ u, ∀ e ∈ l.spend u, Backed log u e
  distinct : ∀ u, ((l.spend u).map (·.entryId)).Nodup
  records : l.records = log.filterMap Event.usageRecord
  payers : ∀ i u c now, .settled i u c now ∈ log → ∃ r, .granted i r ∈ log ∧ r.userId = u
  charges : ∀ i u c now, .settled i u c now ∈ log →
    c.entry i now ∈ l.spend u ∨ PrunedAfter l.windowSeconds log (.settled i u c now) u now
  holds : ∀ i r, .granted i r ∈ log → Unclosed i log →
    r.entry ∈ l.spend r.userId ∨
      PrunedAfter l.windowSeconds log (.granted i r) r.userId r.createdAt

/-- Every settle makes one record. -/
theorem length_usageRecords (h : List Event) :
    (h.filterMap Event.usageRecord).length = tally .settled h := by
  induction h with
  | nil => rfl
  | cons e rest ih =>
      cases e with
      | settled i u c now =>
          rw [tally_cons, ← ih]
          rfl
      | emitted i e =>
          rw [tally_cons, ← ih]
          cases e <;> rfl
      | _ =>
          rw [tally_cons, ← ih]
          rfl

theorem usageRecords_of_tally_one {i : ℕ} {r : Reservation} {c : Charge} {now : ℚ} {h : List Event}
    (once : tally .settled h = 1) (mem : .settled i r.userId c now ∈ h) :
    h.filterMap Event.usageRecord = [c.record r now] := by
  obtain ⟨x, single⟩ := List.length_eq_one_iff.mp ((length_usageRecords h).trans once)
  have there : c.record r now ∈ h.filterMap Event.usageRecord :=
    List.mem_filterMap.mpr ⟨_, mem, rfl⟩
  rw [single, List.mem_singleton] at there
  rw [single, there]

theorem exists_settled {i : ℕ} {log : List Event} (once : tally .settled (history i log) = 1) :
    ∃ u c now, .settled i u c now ∈ log := by
  have some : 0 < tally .settled (history i log) := by
    rw [once]
    exact Nat.one_pos
  obtain ⟨e, mem, deed⟩ := List.countP_pos_iff.mp some
  obtain ⟨mem, about⟩ := mem_history.mp mem
  cases e with
  | settled j u c now =>
      cases about
      exact ⟨u, c, now, mem⟩
  | emitted j e => cases e <;> cases of_decide_eq_true deed
  | _ => cases of_decide_eq_true deed

theorem countP_entryId_le_one {es : List Entry} {i : ℕ} (distinct : (es.map (·.entryId)).Nodup) :
    es.countP (fun e => decide (e.entryId = i)) ≤ 1 := by
  have most := List.nodup_iff_count_le_one.mp distinct i
  rw [List.count, List.countP_map] at most
  refine le_of_eq_of_le (List.countP_congr fun e _ => ?_) most
  simp

section Log

variable {i : ℕ} {log evs : List Event} {u : String} {window time : ℚ} {e : Event}

theorem Unclosed.of_append (unclosed : Unclosed i (log ++ evs)) : Unclosed i log := by
  intro k mem
  have both := unclosed k mem
  rw [history_append, tally_append] at both
  omega

theorem Unclosed.append (unclosed : Unclosed i log)
    (still : Clean [.settled, .released] (history i evs)) : Unclosed i (log ++ evs) := by
  unfold Unclosed
  rw [history_append]
  exact Clean.grow unclosed (List.Subset.refl _) still

theorem not_unclosed_of_settled {c : Charge} (mem : .settled i u c time ∈ log) :
    ¬ Unclosed i log := by
  intro unclosed
  have some : 0 < tally .settled (history i log) := tally_pos (mem_history.mpr ⟨mem, rfl⟩)
  exact some.ne' (unclosed .settled (by simp))

theorem not_unclosed_of_released (mem : .released i ∈ log) : ¬ Unclosed i log := by
  intro unclosed
  have some : 0 < tally .released (history i log) := tally_pos (mem_history.mpr ⟨mem, rfl⟩)
  exact some.ne' (unclosed .released (by simp))

theorem PrunedAfter.append (pruned : PrunedAfter window log e u time) (evs : List Event) :
    PrunedAfter window (log ++ evs) e u time := by
  obtain ⟨before, after, now, rfl, mem, prune, old⟩ := pruned
  exact ⟨before, after ++ evs, now, List.append_assoc .., mem, List.mem_append_left _ prune, old⟩

theorem PrunedAfter.now {now : ℚ} (mem : e ∈ log) (prune : .pruned u now ∈ evs)
    (old : time < now - window) : PrunedAfter window (log ++ evs) e u time :=
  ⟨log, evs, now, rfl, mem, prune, old⟩

/-- Backing survives events that do not close the entry's reservation. -/
theorem Backed.append {x : Entry} (backed : Backed log u x)
    (still : Clean [.settled, .released] (history x.entryId evs)) : Backed (log ++ evs) u x := by
  rcases backed with ⟨r, mem, user, unclosed, eq⟩ | ⟨c, now, mem, eq⟩
  · exact .inl ⟨r, List.mem_append_left _ mem, user, unclosed.append still, eq⟩
  · exact .inr ⟨c, now, List.mem_append_left _ mem, eq⟩

/-- What a step has to do to the ledger so that it stays the log's. -/
theorem Kept.next {l l' : Ledger} (kept : Kept l log) (window : l'.windowSeconds = l.windowSeconds)
    (entries : ∀ u, ∀ x ∈ l'.spend u, Backed (log ++ evs) u x)
    (distinct : ∀ u, ((l'.spend u).map (·.entryId)).Nodup)
    (records : l'.records = l.records ++ evs.filterMap Event.usageRecord)
    (lost : ∀ u, ∀ x ∈ l.spend u, x ∈ l'.spend u ∨
      (∃ now, .pruned u now ∈ evs ∧ x.timestamp < now - l.windowSeconds) ∨
        (Unclosed x.entryId log ∧ ¬ Unclosed x.entryId (log ++ evs)))
    (charged : ∀ i u c now, .settled i u c now ∈ evs →
      c.entry i now ∈ l'.spend u ∧ ∃ r, .granted i r ∈ log ∧ r.userId = u)
    (held : ∀ i r, .granted i r ∈ evs → r.id = i ∧ r.entry ∈ l'.spend r.userId) :
    Kept l' (log ++ evs) := by
  have named : ∀ i r, .granted i r ∈ log ++ evs → r.id = i := by
    intro i r mem
    rcases List.mem_append.mp mem with old | new
    · exact kept.named i r old
    · exact (held i r new).1
  refine ⟨named, entries, distinct, ?_, ?_, ?_, ?_⟩
  · rw [records, kept.records, List.filterMap_append]
  · intro i u c now mem
    have paid : ∃ r, .granted i r ∈ log ∧ r.userId = u := by
      rcases List.mem_append.mp mem with old | new
      · exact kept.payers i u c now old
      · exact (charged i u c now new).2
    obtain ⟨r, granted, user⟩ := paid
    exact ⟨r, List.mem_append_left _ granted, user⟩
  · intro i u c now mem
    rw [window]
    rcases List.mem_append.mp mem with old | new
    · rcases kept.charges i u c now old with present | pruned
      · rcases lost u _ present with still | ⟨later, prune, expired⟩ | ⟨unclosed, -⟩
        · exact .inl still
        · exact .inr (.now old prune expired)
        · exact absurd unclosed (not_unclosed_of_settled old)
      · exact .inr (pruned.append evs)
    · exact .inl (charged i u c now new).1
  · intro i r mem unclosed
    rw [window]
    rcases List.mem_append.mp mem with old | new
    · rcases kept.holds i r old unclosed.of_append with present | pruned
      · rcases lost _ _ present with still | ⟨later, prune, expired⟩ | ⟨-, closed⟩
        · exact .inl still
        · exact .inr (.now old prune expired)
        · cases kept.named i r old
          exact absurd unclosed closed
      · exact .inr (pruned.append evs)
    · exact .inl (held i r new).2

/-- Events that are not about the ledger close nothing. -/
theorem still_of_quiet (quiet : ∀ e ∈ evs, e.onLedger = false) (j : ℕ) :
    Clean [.settled, .released] (history j evs) := by
  intro k closing
  apply tally_eq_zero
  intro e mem deed
  have loud := onLedger_of_deed (deed.symm ▸ closing : e.deed ∈ _)
  exact Bool.noConfusion ((quiet e (mem_history.mp mem).1).symm.trans loud)

theorem notMem_of_quiet (quiet : ∀ e ∈ evs, e.onLedger = false) (loud : e.onLedger = true) :
    e ∉ evs :=
  fun mem => Bool.noConfusion ((quiet e mem).symm.trans loud)

theorem usageRecords_of_quiet (quiet : ∀ e ∈ evs, e.onLedger = false) :
    evs.filterMap Event.usageRecord = [] := by
  apply List.filterMap_eq_nil_iff.mpr
  intro e mem
  cases e <;> first | rfl | exact absurd mem (notMem_of_quiet quiet rfl)

/-- A step that leaves the ledger alone. -/
theorem Kept.same {l : Ledger} (kept : Kept l log) (quiet : ∀ e ∈ evs, e.onLedger = false) :
    Kept l (log ++ evs) := by
  refine kept.next rfl ?_ kept.distinct ?_ (fun _ _ mem => .inl mem) ?_ ?_
  · exact fun u x mem => (kept.entries u x mem).append (still_of_quiet quiet _)
  · rw [usageRecords_of_quiet quiet, List.append_nil]
  · exact fun _ _ _ _ mem => absurd mem (notMem_of_quiet quiet rfl)
  · exact fun _ _ mem => absurd mem (notMem_of_quiet quiet rfl)

section Prune

variable {l : Ledger} {userId : String} {now : ℚ} {new : List Entry} {x : Entry}

/-- The user's list after pruning, with new entries at its end. -/
def Ledger.renewed (l : Ledger) (userId : String) (now : ℚ) (new : List Entry) : Ledger :=
  l.setSpend userId (l.inWindow userId now ++ new)

theorem Ledger.prune_eq_renewed : l.prune userId now = l.renewed userId now [] := by
  rw [Ledger.renewed, List.append_nil]
  rfl

/-- An entry after pruning was there before, or is new. -/
theorem mem_renewed (mem : x ∈ (l.renewed userId now new).spend u) :
    x ∈ l.spend u ∨ (u = userId ∧ x ∈ new) := by
  unfold Ledger.renewed at mem
  by_cases mine : u = userId
  · subst mine
    rw [Ledger.setSpend_self] at mem
    rcases List.mem_append.mp mem with old | fresh
    · exact .inl (List.mem_filter.mp old).1
    · exact .inr ⟨rfl, fresh⟩
  · rw [Ledger.setSpend_ne _ mine] at mem
    exact .inl mem

/-- An entry that pruning takes is older than the window. -/
theorem renewed_or_expired (mem : x ∈ l.spend u) (userId : String) (now : ℚ) (new : List Entry) :
    x ∈ (l.renewed userId now new).spend u ∨
      (u = userId ∧ x.timestamp < now - l.windowSeconds) := by
  unfold Ledger.renewed
  by_cases mine : u = userId
  · subst mine
    rw [Ledger.setSpend_self]
    by_cases young : now - l.windowSeconds ≤ x.timestamp
    · exact .inl (List.mem_append_left _ (List.mem_filter.mpr ⟨mem, decide_eq_true young⟩))
    · exact .inr ⟨rfl, not_le.mp young⟩
  · rw [Ledger.setSpend_ne _ mine]
    exact .inl mem

/-- Distinct identifiers stay distinct when the new ones are. -/
theorem nodup_renewed (distinct : ∀ u, ((l.spend u).map (·.entryId)).Nodup)
    (fresh : (new.map (·.entryId)).Nodup)
    (apart : ∀ a ∈ l.spend userId, ∀ b ∈ new, a.entryId ≠ b.entryId) (u : String) :
    (((l.renewed userId now new).spend u).map (·.entryId)).Nodup := by
  unfold Ledger.renewed
  by_cases mine : u = userId
  · subst mine
    rw [Ledger.setSpend_self, List.map_append, List.nodup_append]
    refine ⟨(distinct u).sublist (List.filter_sublist.map _), fresh, ?_⟩
    intro a left b right
    obtain ⟨x, inWindow, rfl⟩ := List.mem_map.mp left
    obtain ⟨y, inNew, rfl⟩ := List.mem_map.mp right
    exact apart x (List.mem_filter.mp inWindow).1 y inNew
  · rw [Ledger.setSpend_ne _ mine]
    exact distinct u

end Prune

theorem Kept.refused {l : Ledger} {userId : String} {now : ℚ} (kept : Kept l log) :
    Kept (l.renewed userId now []) (log ++ [.pruned userId now]) := by
  refine kept.next rfl ?_ (nodup_renewed kept.distinct List.nodup_nil (by simp)) ?_ ?_ ?_ ?_
  · intro u x mem
    rcases mem_renewed mem with old | ⟨-, none⟩
    · exact (kept.entries u x old).append fun k _ => rfl
    · cases none
  · exact (List.append_nil _).symm
  · intro u x mem
    rcases renewed_or_expired mem userId now [] with still | ⟨rfl, old⟩
    · exact .inl still
    · exact .inr (.inl ⟨now, List.mem_singleton_self _, old⟩)
  · simp
  · simp

/-- A request without a grant has no entry. -/
theorem Kept.absent {l : Ledger} (kept : Kept l log)
    (fresh : Clean [.granted, .settled] (history i log)) {x : Entry} (mem : x ∈ l.spend u) :
    x.entryId ≠ i := by
  rintro rfl
  rcases kept.entries u x mem with ⟨r, granted, -⟩ | ⟨c, now, settled, -⟩
  · have some : 0 < tally .granted (history x.entryId log) :=
      tally_pos (mem_history.mpr ⟨granted, rfl⟩)
    exact some.ne' (fresh .granted (by simp))
  · have some : 0 < tally .settled (history x.entryId log) :=
      tally_pos (mem_history.mpr ⟨settled, rfl⟩)
    exact some.ne' (fresh .settled (by simp))

theorem Kept.held {l : Ledger} {userId : String} {amount now : ℚ} (kept : Kept l log)
    (fresh : Clean [.granted, .settled, .released] (history i log)) :
    Kept (l.renewed userId now [{ timestamp := now, amount, entryId := i }])
      (log ++ [.pruned userId now, .granted i { id := i, userId, amount, createdAt := now }]) := by
  have still : ∀ j, Clean [.settled, .released] (history j
      [.pruned userId now, .granted i { id := i, userId, amount, createdAt := now }]) := by
    intro j k closing
    apply tally_eq_zero
    intro e mem deed
    rw [← deed] at closing
    rw [mem_history] at mem
    simp only [List.mem_cons, List.not_mem_nil, or_false] at mem
    rcases mem.1 with rfl | rfl <;> simp [Event.deed] at closing
  refine kept.next rfl ?_ (nodup_renewed kept.distinct (List.nodup_singleton _) ?_) ?_ ?_ ?_ ?_
  · intro u x mem
    rcases mem_renewed mem with old | ⟨rfl, new⟩
    · exact (kept.entries u x old).append (still _)
    · rw [List.mem_singleton] at new
      subst new
      have unclosed : Unclosed i log := fresh.mono (by simp)
      exact .inl ⟨_, List.mem_append_right _ (List.mem_cons_of_mem _ (List.mem_singleton_self _)), rfl,
        unclosed.append (still i), rfl⟩
  · intro x mem y new
    rw [List.mem_singleton] at new
    exact new ▸ kept.absent (fresh.mono (by simp)) mem
  · exact (List.append_nil _).symm
  · intro u x mem
    rcases renewed_or_expired mem userId now _ with still | ⟨rfl, old⟩
    · exact .inl still
    · exact .inr (.inl ⟨now, List.mem_cons_self, old⟩)
  · simp
  · intro j r mem
    simp only [List.mem_cons, List.not_mem_nil, or_false, reduceCtorEq, false_or] at mem
    cases mem
    refine ⟨rfl, ?_⟩
    simp [Ledger.renewed, Reservation.entry]

section Close

variable {l : Ledger} {r : Reservation} {new : List Entry} {x : Entry}

/-- The user's list without the hold, with new entries at its end. -/
def Ledger.closing (l : Ledger) (r : Reservation) (new : List Entry) : Ledger :=
  l.setSpend r.userId (dropEntry (l.spend r.userId) r.id ++ new)

/-- Only the holder's list has an entry of an open reservation. -/
theorem Kept.user_of_hold (kept : Kept l log) (granted : .granted i r ∈ log)
    (once : tally .granted (history i log) = 1) (unclosed : Unclosed i log) (mem : x ∈ l.spend u)
    (mine : x.entryId = i) : u = r.userId := by
  subst mine
  rcases kept.entries u x mem with ⟨r', granted', user, -, -⟩ | ⟨c, now, settled, -⟩
  · have same := eq_of_tally_le_one once.le (mem_history.mpr ⟨granted, rfl⟩)
      (mem_history.mpr ⟨granted', rfl⟩) rfl rfl
    cases same
    exact user.symm
  · exact absurd unclosed (not_unclosed_of_settled settled)

/-- An entry left after closing is another request's, or new. -/
theorem mem_closing (distinct : ∀ u, ((l.spend u).map (·.entryId)).Nodup)
    (only : ∀ u, ∀ y ∈ l.spend u, y.entryId = r.id → u = r.userId)
    (mem : x ∈ (l.closing r new).spend u) :
    (x ∈ l.spend u ∧ x.entryId ≠ r.id) ∨ (u = r.userId ∧ x ∈ new) := by
  unfold Ledger.closing at mem
  by_cases mine : u = r.userId
  · subst mine
    rw [Ledger.setSpend_self] at mem
    rcases List.mem_append.mp mem with old | fresh
    · refine .inl ⟨List.mem_of_mem_eraseP old, ?_⟩
      intro same
      apply notMem_dropEntry (distinct r.userId) r.id
      exact List.mem_map.mpr ⟨x, old, same⟩
    · exact .inr ⟨rfl, fresh⟩
  · rw [Ledger.setSpend_ne _ mine] at mem
    exact .inl ⟨mem, fun same => mine (only u x mem same)⟩

/-- Closing takes nothing but the hold. -/
theorem closing_or_mine (distinct : ∀ u, ((l.spend u).map (·.entryId)).Nodup)
    (mem : x ∈ l.spend u) (new : List Entry) :
    x ∈ (l.closing r new).spend u ∨ x.entryId = r.id := by
  unfold Ledger.closing
  by_cases mine : u = r.userId
  · subst mine
    rw [Ledger.setSpend_self, dropEntry_eq_filter (distinct r.userId)]
    by_cases same : x.entryId = r.id
    · exact .inr same
    · exact .inl (List.mem_append_left _ (List.mem_filter.mpr ⟨mem, decide_eq_true same⟩))
  · rw [Ledger.setSpend_ne _ mine]
    exact .inl mem

theorem nodup_closing (distinct : ∀ u, ((l.spend u).map (·.entryId)).Nodup)
    (fresh : (new.map (·.entryId)).Nodup) (named : ∀ y ∈ new, y.entryId = r.id) (u : String) :
    (((l.closing r new).spend u).map (·.entryId)).Nodup := by
  unfold Ledger.closing
  by_cases mine : u = r.userId
  · subst mine
    rw [Ledger.setSpend_self, List.map_append, List.nodup_append]
    refine ⟨(distinct r.userId).sublist (List.eraseP_sublist.map _), fresh, ?_⟩
    intro a left b right same
    obtain ⟨y, inNew, rfl⟩ := List.mem_map.mp right
    have there : r.id = a := (named y inNew).symm.trans same.symm
    exact notMem_dropEntry (distinct r.userId) r.id (there.symm ▸ left)
  · rw [Ledger.setSpend_ne _ mine]
    exact distinct u

end Close

theorem Kept.charged {l : Ledger} {r : Reservation} {c : Charge} {now : ℚ} (kept : Kept l log)
    (id : r.id = i) (opened : r.closed = false) (granted : .granted i r ∈ log)
    (once : tally .granted (history i log) = 1) (unclosed : Unclosed i log)
    (quiet : ∀ e ∈ evs, e.onLedger = false)
    (others : ∀ j, j ≠ i → history j (.billed i c :: .settled i r.userId c now :: evs) = []) :
    Kept (l.settle r c now).2 (log ++ .billed i c :: .settled i r.userId c now :: evs) := by
  subst id
  have only : ∀ u, ∀ y ∈ l.spend u, y.entryId = r.id → u = r.userId :=
    fun u y mem => kept.user_of_hold granted once unclosed mem
  have ledger : (l.settle r c now).2 =
      { l.closing r [c.entry r.id now] with records := l.records ++ [c.record r now] } := by
    simp only [Ledger.settle, opened, Bool.false_eq_true, if_false]
    rfl
  rw [ledger]
  refine kept.next rfl ?_ (nodup_closing kept.distinct (List.nodup_singleton _) ?_) ?_ ?_ ?_ ?_
  · intro u x mem
    rcases mem_closing kept.distinct only mem with ⟨old, other⟩ | ⟨rfl, new⟩
    · apply (kept.entries u x old).append
      rw [others _ other]
      exact fun k _ => rfl
    · rw [List.mem_singleton] at new
      subst new
      exact .inr ⟨c, now, by simp [Charge.entry], rfl⟩
  · intro y new
    rw [List.mem_singleton] at new
    exact new ▸ rfl
  · show l.records ++ [c.record r now] =
      l.records ++ c.record r now :: evs.filterMap Event.usageRecord
    rw [usageRecords_of_quiet quiet]
  · intro u x mem
    rcases closing_or_mine kept.distinct mem [c.entry r.id now] with still | same
    · exact .inl still
    · refine .inr (.inr ⟨same ▸ unclosed, ?_⟩)
      rw [same]
      exact not_unclosed_of_settled (List.mem_append_right _ (List.mem_cons_of_mem _ List.mem_cons_self))
  · intro j u c' now' mem
    rcases List.mem_cons.mp mem with bad | mem
    · cases bad
    rcases List.mem_cons.mp mem with here | later
    · cases here
      exact ⟨by simp [Ledger.closing], r, granted, rfl⟩
    · exact absurd later (notMem_of_quiet quiet rfl)
  · intro j r' mem
    rcases List.mem_cons.mp mem with bad | mem
    · cases bad
    rcases List.mem_cons.mp mem with bad | later
    · cases bad
    · exact absurd later (notMem_of_quiet quiet rfl)

theorem Kept.refunded {l : Ledger} {r : Reservation} (kept : Kept l log) (id : r.id = i)
    (opened : r.closed = false) (granted : .granted i r ∈ log)
    (once : tally .granted (history i log) = 1) (unclosed : Unclosed i log)
    (quiet : ∀ e ∈ evs, e.onLedger = false)
    (others : ∀ j, j ≠ i → history j (.released i :: evs) = []) :
    Kept (l.release r).2 (log ++ .released i :: evs) := by
  subst id
  have only : ∀ u, ∀ y ∈ l.spend u, y.entryId = r.id → u = r.userId :=
    fun u y mem => kept.user_of_hold granted once unclosed mem
  have ledger : (l.release r).2 = l.closing r [] := by
    simp only [Ledger.release, opened, Bool.false_eq_true, if_false, Ledger.closing,
      List.append_nil]
  rw [ledger]
  refine kept.next rfl ?_ (nodup_closing kept.distinct List.nodup_nil (by simp)) ?_ ?_ ?_ ?_
  · intro u x mem
    rcases mem_closing kept.distinct only mem with ⟨old, other⟩ | ⟨-, none⟩
    · apply (kept.entries u x old).append
      rw [others _ other]
      exact fun k _ => rfl
    · cases none
  · rw [List.filterMap_cons_none rfl, usageRecords_of_quiet quiet, List.append_nil]
    rfl
  · intro u x mem
    rcases closing_or_mine kept.distinct mem [] with still | same
    · exact .inl still
    · refine .inr (.inr ⟨same ▸ unclosed, ?_⟩)
      rw [same]
      exact not_unclosed_of_released (by simp)
  · intro j u c' now' mem
    rcases List.mem_cons.mp mem with bad | later
    · cases bad
    · exact absurd later (notMem_of_quiet quiet rfl)
  · intro j r' mem
    rcases List.mem_cons.mp mem with bad | later
    · cases bad
    · exact absurd later (notMem_of_quiet quiet rfl)

end Log

/-! ### Whole runs -/

section Runs

variable {ts : TextSupport} {s : Settings} {i : ℕ} {t : Task} {r : Reservation} {c : Charge}
  {h : List Event} {exact : Prop} {windowSeconds : ℚ} {w : World Ledger}
  {ok : World Ledger → WorldAct → Prop}

theorem Books.unreserved {d : RoutingDecision} (books : Books exact i t h)
    (reserving : t.phase = .reserving d) : Clean [.granted, .settled, .released] h := by
  obtain ⟨req, streaming, ph⟩ := t
  cases reserving
  exact Clean.mono books (by simp)

/-- A settle of an open reservation is of the request's own. -/
theorem Settling.held (settling : Settling t.phase r c) (books : Books exact i t h) :
    ∃ ks, Held i t r ks h := by
  obtain ⟨req, streaming, ph⟩ := t
  cases settling with
  | buffered => exact ⟨_, books⟩
  | streamed => exact ⟨_, books⟩

/-- So is a release. -/
theorem Releasing.held (releasing : Releasing t.phase r) (opened : r.closed = false)
    (books : Books exact i t h) : ∃ ks, Held i t r ks h := by
  obtain ⟨req, streaming, ph⟩ := t
  cases releasing with
  | shed => exact ⟨_, books⟩
  | failed =>
      rcases books with held | ⟨closed, -⟩
      · exact ⟨_, held⟩
      · cases opened.symm.trans closed

/-- The ledger stays the log's in every run, cancelled or not. -/
theorem kept_of_reaches (reached : Reaches (World.step Ledger.backend ts s) ok
    (World.start s { windowSeconds }) w) : Kept w.shared.ledger w.log := by
  refine reached.invariant_of (I := fun w => Kept w.shared.ledger w.log) ?_ ?_
  · exact
      { named := fun _ _ mem => by cases mem
        entries := fun _ _ mem => by cases mem
        distinct := fun _ => List.nodup_nil
        records := rfl
        payers := fun _ _ _ _ mem => by cases mem
        charges := fun _ _ _ _ mem => by cases mem
        holds := fun _ _ mem => by cases mem }
  · intro w a w' before kept allowed stepped
    cases worldTrans_of_step stepped with
    | submit => exact kept
    | clock => exact kept
    | scale _ => exact kept
    | task here step =>
        rename_i i a t sh ph evs
        have books : Books False i t (history i w.log) :=
          books_of_reaches before (fun none => none.elim) i t here
        have others : ∀ j, j ≠ i → history j evs = [] := fun _ => step.history_eq_nil
        generalize phase : t.phase = ph₀ at step
        show Kept sh.ledger (w.log ++ evs)
        cases step.ledger_cases with
        | same ledger quiet =>
            rw [ledger]
            exact kept.same quiet
        | refused ledger =>
            rw [ledger, Ledger.prune_eq_renewed]
            exact kept.refused
        | held reserving fits ledger =>
            rw [ledger]
            exact kept.held (books.unreserved (phase.trans reserving))
        | charged settling opened ledger quiet =>
            obtain ⟨ks, held⟩ := Settling.held (phase ▸ settling) books
            rw [ledger]
            exact kept.charged held.id opened (mem_history.mp held.event).1 held.granted held.unclosed
              quiet others
        | refunded releasing opened ledger quiet =>
            obtain ⟨ks, held⟩ := Releasing.held (phase ▸ releasing) opened books
            rw [ledger]
            exact kept.refunded held.id opened (mem_history.mp held.event).1 held.granted
              held.unclosed quiet others

/-- What is left of an exited request `i` with the reservation `r`. -/
structure ClosedOut (w : World Ledger) (i : ℕ) (r : Reservation) : Prop where
  /-- Exactly one settle or release took effect. -/
  once : tally .settled (history i w.log) + tally .released (history i w.log) = 1
  /-- The hold is gone: what the ledger has under the reservation's identifier is a charge, to
  its user, and at most once. -/
  charge : ∀ u, ∀ e ∈ w.shared.ledger.spend u, e.entryId = i →
    u = r.userId ∧ ∃ c now, .settled i u c now ∈ w.log ∧ e = c.entry i now
  atMostOne : (w.shared.ledger.spend r.userId).countP (fun e => decide (e.entryId = i)) ≤ 1
  /-- The usage records are those of the settles, at most one for this request. -/
  records : w.shared.ledger.records = w.log.filterMap Event.usageRecord
  atMostOneRecord : ((history i w.log).filterMap Event.usageRecord).length ≤ 1
  /-- A completion or a delivered chunk is charged once, with one record; the charge is in the
  ledger until a later reserve of the user finds it older than the window. -/
  served : (∃ served k, .generated i served k ∈ w.log) ∨ (∃ text, .emitted i (.delta text) ∈ w.log) →
    ∃ c now, .settled i r.userId c now ∈ w.log ∧
      (history i w.log).filterMap Event.usageRecord = [c.record r now] ∧
      (c.entry i now ∈ w.shared.ledger.spend r.userId ∨
        PrunedAfter w.shared.ledger.windowSeconds w.log (.settled i r.userId c now) r.userId now)
  /-- A shed or failed request is not charged. -/
  unserved : .shed i ∈ w.log ∨ (∃ e, .failed i e ∈ w.log) →
    (history i w.log).filterMap Event.usageRecord = [] ∧
      ∀ u, ∀ e ∈ w.shared.ledger.spend u, e.entryId ≠ i

/-- Once a request that obtained a reservation is over, and nobody was cancelled, exactly one
settle or release took effect on it, its hold is gone, and it is charged exactly once if it
was served, not at all if it was shed or failed, and never twice. -/
theorem one_refund_or_charge (ts : TextSupport) (s : Settings) (windowSeconds : ℚ)
    {w : World Ledger} (reached : Reaches (World.step Ledger.backend ts s) World.Uncancelled
      (World.start s { windowSeconds }) w)
    {i : ℕ} {t : Task} {r : Reservation} (here : w.tasks[i]? = some t)
    (gone : t.phase.gone = true) (granted : .granted i r ∈ w.log) : ClosedOut w i r := by
  have kept := kept_of_reaches reached
  have account : Accounted True (history i w.log) := by
    have books : Books True i t (history i w.log) :=
      books_of_reaches reached (fun _ => ⟨rfl, fun _ _ calm => calm⟩) i t here
    obtain ⟨req, streaming, ph⟩ := t
    obtain ⟨e, rfl⟩ := Phase.exit_of_gone gone
    exact books
  have grants : 0 < tally .granted (history i w.log) := tally_pos (mem_history.mpr ⟨granted, rfl⟩)
  have most := account.granted
  have once := account.exactly trivial
  have closed : ¬ Unclosed i w.log := by
    intro unclosed
    have unsettled := unclosed .settled (by simp)
    have unreleased := unclosed .released (by simp)
    omega
  have payer : ∀ u c now, .settled i u c now ∈ w.log → u = r.userId := by
    intro u c now settled
    obtain ⟨r', granted', user⟩ := kept.payers i u c now settled
    have same := eq_of_tally_le_one most (mem_history.mpr ⟨granted, rfl⟩)
      (mem_history.mpr ⟨granted', rfl⟩) rfl rfl
    cases same
    exact user.symm
  have charge : ∀ u, ∀ e ∈ w.shared.ledger.spend u, e.entryId = i →
      u = r.userId ∧ ∃ c now, .settled i u c now ∈ w.log ∧ e = c.entry i now := by
    rintro u e mem rfl
    rcases kept.entries u e mem with ⟨-, -, -, unclosed, -⟩ | ⟨c, now, settled, eq⟩
    · exact absurd unclosed closed
    · exact ⟨payer u c now settled, c, now, settled, eq⟩
  refine ⟨by omega, charge, ?_, kept.records, ?_, ?_, ?_⟩
  · exact countP_entryId_le_one (kept.distinct r.userId)
  · rw [length_usageRecords]
    omega
  · intro output
    have produced : 0 < tally .generated (history i w.log) + tally .delta (history i w.log) := by
      rcases output with ⟨served, k, mem⟩ | ⟨text, mem⟩
      · exact Nat.add_pos_left (tally_pos (mem_history.mpr ⟨mem, rfl⟩)) _
      · exact Nat.add_pos_right _ (tally_pos (mem_history.mpr ⟨mem, rfl⟩))
    have settled := account.served trivial grants produced
    obtain ⟨u, c, now, mem⟩ := exists_settled settled
    obtain rfl := payer u c now mem
    refine ⟨c, now, mem, ?_, kept.charges i _ c now mem⟩
    exact usageRecords_of_tally_one settled (mem_history.mpr ⟨mem, rfl⟩)
  · intro refused
    have unsettled : tally .settled (history i w.log) = 0 := by
      apply account.unserved
      rcases refused with mem | ⟨e, mem⟩
      · exact Nat.add_pos_left (tally_pos (mem_history.mpr ⟨mem, rfl⟩)) _
      · exact Nat.add_pos_right _ (tally_pos (mem_history.mpr ⟨mem, rfl⟩))
    constructor
    · rw [← List.length_eq_zero_iff, length_usageRecords, unsettled]
    · intro u e mem mine
      obtain ⟨-, c, now, settled, -⟩ := charge u e mem mine
      have some : 0 < tally .settled (history i w.log) := tally_pos (mem_history.mpr ⟨settled, rfl⟩)
      exact some.ne' unsettled

end Runs

/-! ### One request, and a later one of the same user -/

/-- A request is served and billed. -/
def servedActs : List WorldAct :=
  [.submit { prompt := "hi", userId := "u" } false,
    .task 0 (.run .none), .task 0 (.run .none), .task 0 (.run .none), .task 0 (.run .none),
    .task 0 (.answer (.completion { text := "yo", inputTokens := 1, outputTokens := 1 })),
    .task 0 (.run .none)]

/-- A day and an hour later the user asks again. -/
def nextDayActs : List WorldAct :=
  [.clock 90000 90000, .submit { prompt := "hi", userId := "u" } false,
    .task 1 (.run .none), .task 1 (.run .none)]

/-- The hold of a projected 384 tokens of the small model. -/
def smallHold : Reservation := { id := 0, userId := "u", amount := 1921 / 4000000, createdAt := 0 }

theorem one_refund_or_charge_when_served :
    ∃ w, Reaches (World.step Ledger.backend .ascii oneSlot) World.Uncancelled
      (World.start oneSlot {}) w ∧ ClosedOut w 0 smallHold := by
  have holds : execHolds (World.step Ledger.backend .ascii oneSlot) World.Uncancelled
      (World.start oneSlot {}) servedActs (fun w =>
        (w.tasks[0]?.any fun t => t.phase.gone) && decide (.granted 0 smallHold ∈ w.log)) = true := by
    decide +kernel
  obtain ⟨w, reached, good⟩ := exists_reaches_of_execHolds _ _ holds
  obtain ⟨gone, granted⟩ := Bool.and_eq_true_iff.mp good
  obtain ⟨t, here, gone⟩ := (Option.any_eq_true ..).mp gone
  exact ⟨w, reached, one_refund_or_charge .ascii oneSlot (24 * 3600) reached here gone
    (of_decide_eq_true granted)⟩

/-- The charge of a served request leaves the ledger when the user comes back after the
window: the request is over, its generation returned, and no charge for it is held. -/
theorem charge_leaves_with_the_window :
    ∃ w t, Reaches (World.step Ledger.backend .ascii oneSlot) World.Uncancelled
      (World.start oneSlot {}) w ∧ w.tasks[0]? = some t ∧ t.phase.gone = true ∧
      .granted 0 smallHold ∈ w.log ∧ 0 < tally .generated (history 0 w.log) ∧
      ∀ e ∈ w.shared.ledger.spend "u", e.entryId ≠ 0 := by
  have holds : execHolds (World.step Ledger.backend .ascii oneSlot) World.Uncancelled
      (World.start oneSlot {}) (servedActs ++ nextDayActs) (fun w =>
        (w.tasks[0]?.any fun t => t.phase.gone) &&
          decide (.granted 0 smallHold ∈ w.log ∧ 0 < tally .generated (history 0 w.log) ∧
            ∀ e ∈ w.shared.ledger.spend "u", e.entryId ≠ 0)) = true := by
    decide +kernel
  obtain ⟨w, reached, good⟩ := exists_reaches_of_execHolds _ _ holds
  obtain ⟨gone, rest⟩ := Bool.and_eq_true_iff.mp good
  obtain ⟨t, here, gone⟩ := (Option.any_eq_true ..).mp gone
  exact ⟨w, t, reached, here, gone, of_decide_eq_true rest⟩

end LLMInference
