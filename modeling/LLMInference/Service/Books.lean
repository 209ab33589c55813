import LLMInference.Service.History

/-!
What a request's history says of its money.

`tally` counts the events of one kind. `Books` says, for each phase, what a request's history
has counted when it gets there: which reservation is open, and that nothing was charged or
refunded twice. It holds for every backend and under any cancellation; `Exact` runs, those
without cancellation on a ledger whose calls never fail, lose nothing either.

* `Trans.books`: the steps of the request keep its books.
* `books_of_reaches`: they are right in every reached state.
-/

namespace LLMInference

open Runs

/-- What an event is to the books. -/
inductive Deed where
  | granted
  | settled
  | released
  | shed
  | generated
  | failed
  | delta
  | other
  deriving DecidableEq, Repr

def Event.deed : Event → Deed
  | .granted .. => .granted
  | .settled .. => .settled
  | .released _ => .released
  | .shed _ => .shed
  | .generated .. => .generated
  | .failed .. => .failed
  | .emitted _ (.delta _) => .delta
  | _ => .other

/-- How often a history has a deed. -/
def tally (k : Deed) (h : List Event) : ℕ := h.countP fun e => decide (e.deed = k)

section Tally

variable {k : Deed} {i : ℕ} {r : Reservation} {c : Charge} {now : ℚ} {f : LedgerFault}

@[simp] theorem tally_nil : tally k [] = 0 := rfl

@[simp] theorem tally_cons (e : Event) (h : List Event) :
    tally k (e :: h) = tally k h + if e.deed = k then 1 else 0 := by
  simp [tally, List.countP_cons]

@[simp] theorem tally_append (h h' : List Event) : tally k (h ++ h') = tally k h + tally k h' :=
  List.countP_append ..

@[simp] theorem tally_pruned (real : k ≠ .other) (b : Bool) (userId : String) :
    tally k (if b then [.pruned userId now] else []) = 0 := by
  cases b with
  | false => rfl
  | true =>
      rw [if_pos rfl, tally_cons, tally_nil, Nat.zero_add]
      exact if_neg real.symm

/-- A stream event is a delta, or nothing to the books. -/
@[simp] theorem deed_emitted_ne (real : k ≠ .other) (text : k ≠ .delta) (e : StreamEvent) :
    (Event.emitted i e).deed ≠ k := by
  cases e with
  | delta _ => exact text.symm
  | start _ _ _ _ _ _ => exact real.symm
  | «end» _ _ _ _ _ _ => exact real.symm
  | error _ _ => exact real.symm

theorem tally_pos {h : List Event} {e : Event} (mem : e ∈ h) : 0 < tally e.deed h :=
  List.countP_pos_iff.mpr ⟨e, mem, decide_eq_true rfl⟩

theorem tally_eq_zero {h : List Event} (none : ∀ e ∈ h, e.deed ≠ k) : tally k h = 0 :=
  List.countP_eq_zero.mpr fun e mem => by simpa using none e mem

/-- A deed that happened once was one event. -/
theorem eq_of_tally_le_one {h : List Event} {e e' : Event} (once : tally k h ≤ 1) (mem : e ∈ h)
    (mem' : e' ∈ h) (deed : e.deed = k) (deed' : e'.deed = k) : e = e' := by
  induction h with
  | nil => cases mem
  | cons a rest ih =>
      rw [tally_cons] at once
      rcases List.mem_cons.mp mem with rfl | tail <;> rcases List.mem_cons.mp mem' with rfl | tail'
      · rfl
      · have := tally_pos tail'
        simp only [deed, deed', if_true] at once this
        omega
      · have := tally_pos tail
        simp only [deed, deed', if_true] at once this
        omega
      · exact ih (by omega) tail tail'

@[simp] theorem tally_settleEvents :
    tally k (settleEvents i r c now f) =
      (if !r.closed && f.executed then if Deed.settled = k then 1 else 0 else 0) +
        if Deed.other = k then 1 else 0 := by
  unfold settleEvents
  split
  · rw [tally_cons, tally_cons, tally_nil, Nat.zero_add]
    rfl
  · rw [tally_cons, tally_nil]
    rfl

@[simp] theorem tally_releaseEvents :
    tally k (releaseEvents i r f) =
      if !r.closed && f.executed then if Deed.released = k then 1 else 0 else 0 := by
  unfold releaseEvents
  split
  · rw [tally_cons, tally_nil, Nat.zero_add]
    rfl
  · rfl

end Tally

/-- The action cancels the request's task. -/
def TaskAct.cancels : TaskAct → Bool
  | .cancel _ => true
  | _ => false

/-- None of these happened. -/
def Clean (ks : List Deed) (h : List Event) : Prop := ∀ k ∈ ks, tally k h = 0

instance (ks : List Deed) (h : List Event) : Decidable (Clean ks h) :=
  inferInstanceAs (Decidable (∀ k ∈ ks, tally k h = 0))

/-- `r` is the request's reservation, still open, and none of `ks` happened. -/
structure Held (i : ℕ) (t : Task) (r : Reservation) (ks : List Deed) (h : List Event) : Prop where
  id : r.id = i
  user : r.userId = t.request.userId
  opened : r.closed = false
  event : .granted i r ∈ h
  granted : tally .granted h = 1
  unclosed : Clean [.settled, .released] h
  clean : Clean ks h

/-- The settle is over; it took effect if the run is exact. -/
structure Charged (exact : Prop) (h : List Event) : Prop where
  granted : tally .granted h = 1
  settled : tally .settled h ≤ 1
  exactly : exact → tally .settled h = 1
  clean : Clean [.released, .shed, .failed] h

/-- The final account. -/
structure Accounted (exact : Prop) (h : List Event) : Prop where
  granted : tally .granted h ≤ 1
  once : tally .settled h + tally .released h ≤ tally .granted h
  exactly : exact → tally .settled h + tally .released h = tally .granted h
  served : exact → 0 < tally .granted h → 0 < tally .generated h + tally .delta h →
    tally .settled h = 1
  unserved : 0 < tally .shed h + tally .failed h → tally .settled h = 0

/-- The books of a request, phase by phase. -/
def Books (exact : Prop) (i : ℕ) (t : Task) (h : List Event) : Prop :=
  match t.phase with
  | .arrived | .lookup _ | .reserving _ =>
      Clean [.granted, .settled, .released, .shed, .generated, .failed, .delta] h
  | .replaying _ => Clean [.granted, .settled, .released, .shed, .generated, .failed] h
  | .granted _ r | .queued _ r | .attempting r _ | .generating r _ =>
      Held i t r [.shed, .generated, .failed, .delta] h
  | .shedding r => Held i t r [.generated, .delta] h
  | .refunding r _ => Held i t r [.generated, .delta] h ∨ (r.closed = true ∧ Charged exact h)
  | .settling r _ _ => Held i t r [.shed, .failed] h
  | .yielded st _ | .pulling st => Held i t st.reservation [.shed, .generated, .failed] h
  | .finalizing fin _ => Held i t fin.reservation [.shed, .generated, .failed] h
  | .caching .. | .storing .. => Charged exact h
  | .done _ => Accounted exact h

section Steps

variable {σ : Type} {B : LedgerBackend σ} {ts : TextSupport} {s : Settings} {i : ℕ}
  {sh sh' : Shared σ} {ph ph' : Phase} {a : TaskAct} {evs : List Event}

/-- The history a step adds has the deeds of the step. -/
theorem Trans.tally_history {req : Request} {streaming : Bool}
    (step : Trans B ts s i req streaming sh ph a sh' ph' evs) {k : Deed} (real : k ≠ .other) :
    tally k (history i evs) = tally k evs := by
  unfold tally history
  rw [List.countP_filter]
  apply List.countP_congr
  intro e mem
  simp only [Bool.and_eq_true, decide_eq_true_eq, and_iff_left_iff_imp]
  rintro rfl
  rcases step.names e mem with mine | nobody
  · exact mine
  · cases e <;> first | exact absurd rfl real | cases nobody

/-- A call on a ledger that never fails takes effect. -/
theorem executed_of_admits {f : LedgerFault} (reliable : B.networked = false)
    (admits : B.admits f = true) : f.executed = true := by
  simp only [LedgerBackend.admits, reliable, Bool.false_or, decide_eq_true_eq] at admits
  rw [admits]
  rfl

end Steps

section Accounts

variable {exact : Prop} {i : ℕ} {t : Task} {r : Reservation} {ks ks' : List Deed}
  {h h' : List Event}

theorem Clean.mono (clean : Clean ks h) (sub : ks' ⊆ ks) : Clean ks' h :=
  fun k mem => clean k (sub mem)

theorem Clean.grow (clean : Clean ks h) (sub : ks' ⊆ ks) (none : ∀ k ∈ ks', tally k h' = 0) :
    Clean ks' (h ++ h') := by
  intro k mem
  rw [tally_append, clean k (sub mem), none k mem]

/-- The reservation stays open over a stretch without `ks'`. -/
theorem Held.grow (held : Held i t r ks h) (ph : Phase) (sub : ks' ⊆ ks)
    (none : ∀ k ∈ .granted :: .settled :: .released :: ks', tally k h' = 0) :
    Held i { t with phase := ph } r ks' (h ++ h') := by
  obtain ⟨id, user, opened, event, once, unclosed, clean⟩ := held
  refine ⟨id, user, opened, List.mem_append_left _ event, ?_, ?_, ?_⟩
  · rw [tally_append, once, none .granted (by simp)]
  · refine unclosed.grow (List.Subset.refl _) fun k mem => none k ?_
    exact List.mem_cons_of_mem _ (List.mem_append_left ks' mem)
  · exact clean.grow sub fun k mem => none k (by simp [mem])

/-- A request that reserved nothing owes nothing. -/
theorem Clean.accounted (clean : Clean [.granted, .settled, .released] h) :
    Accounted exact h := by
  have granted := clean .granted (by simp)
  have settled := clean .settled (by simp)
  have released := clean .released (by simp)
  refine ⟨by omega, by omega, fun _ => by omega, fun _ some => ?_, fun _ => settled⟩
  exact absurd granted some.ne'

/-- The end of a request whose hold nobody closed. -/
theorem Held.abandoned (held : Held i t r ks h) (inexact : ¬ exact)
    (none : ∀ k ∈ [Deed.granted, .settled, .released], tally k h' = 0) :
    Accounted exact (h ++ h') := by
  have granted := none .granted (by simp)
  have settled := none .settled (by simp)
  have released := none .released (by simp)
  have unsettled := held.unclosed .settled (by simp)
  have unreleased := held.unclosed .released (by simp)
  have once := held.granted
  refine ⟨?_, ?_, fun all => absurd all inexact, fun all => absurd all inexact, fun _ => ?_⟩ <;>
    simp only [tally_append] <;> omega

/-- A settle of the open reservation. -/
theorem Held.charge {f : LedgerFault} (held : Held i t r ks h) (before : [.shed, .failed] ⊆ ks)
    (effect : exact → f.executed = true)
    (settled : tally .settled h' = if !r.closed && f.executed then 1 else 0)
    (none : ∀ k ∈ [Deed.granted, .released, .shed, .failed], tally k h' = 0) :
    Charged exact (h ++ h') := by
  have unsettled := held.unclosed .settled (by simp)
  rw [held.opened, Bool.not_false, Bool.true_and] at settled
  refine ⟨?_, ?_, fun all => ?_, ?_⟩
  · rw [tally_append, held.granted, none .granted (by simp)]
  · rw [tally_append, unsettled, settled]
    split <;> omega
  · rw [tally_append, unsettled, settled, effect all, if_pos rfl]
  · intro k mem
    rw [tally_append, none k (List.mem_cons_of_mem _ mem), Nat.add_zero]
    rcases List.mem_cons.mp mem with rfl | rest
    · exact held.unclosed .released (by simp)
    · exact held.clean k (before rest)

theorem Charged.grow (charged : Charged exact h)
    (none : ∀ k ∈ [Deed.granted, .settled, .released, .shed, .failed], tally k h' = 0) :
    Charged exact (h ++ h') := by
  have settled := none .settled (by simp)
  refine ⟨?_, ?_, fun all => ?_, ?_⟩
  · rw [tally_append, charged.granted, none .granted (by simp)]
  · rw [tally_append, settled]
    exact charged.settled
  · rw [tally_append, settled, charged.exactly all]
  · refine charged.clean.grow (List.Subset.refl _) fun k mem => none k ?_
    exact List.mem_cons_of_mem _ (List.mem_cons_of_mem _ mem)

theorem Charged.accounted (charged : Charged exact h) : Accounted exact h := by
  obtain ⟨granted, settled, exactly, clean⟩ := charged
  have released := clean .released (by simp)
  have shed := clean .shed (by simp)
  have failed := clean .failed (by simp)
  refine ⟨by omega, by omega, fun all => ?_, fun all _ _ => exactly all, fun _ => by omega⟩
  rw [exactly all, released, granted]

/-- The end of a request whose hold was to be refunded. -/
theorem accounted_of_refund {f : LedgerFault}
    (books : Held i t r [.generated, .delta] h ∨ (r.closed = true ∧ Charged exact h))
    (effect : exact → f.executed = true)
    (released : tally .released h' = if !r.closed && f.executed then 1 else 0)
    (none : ∀ k ∈ [Deed.granted, .settled, .shed, .generated, .failed, .delta], tally k h' = 0) :
    Accounted exact (h ++ h') := by
  rcases books with held | ⟨closed, charged⟩
  · have unsettled := held.unclosed .settled (by simp)
    have unreleased := held.unclosed .released (by simp)
    have granted := held.granted
    have generated := held.clean .generated (by simp)
    have delta := held.clean .delta (by simp)
    have noGrant := none .granted (by simp)
    have noSettle := none .settled (by simp)
    have noOutput := none .generated (by simp)
    have noDelta := none .delta (by simp)
    rw [held.opened, Bool.not_false, Bool.true_and] at released
    refine ⟨?_, ?_, fun all => ?_, fun _ _ some => ?_, fun _ => ?_⟩
    all_goals simp only [tally_append] at *
    · omega
    · split at released <;> omega
    · rw [effect all, if_pos rfl] at released
      omega
    · omega
    · omega
  · rw [closed] at released
    refine (charged.grow fun k mem => ?_).accounted
    simp only [List.mem_cons, List.not_mem_nil, or_false] at mem
    rcases mem with rfl | rfl | rfl | rfl | rfl
    · exact none _ (by simp)
    · exact none _ (by simp)
    · exact released
    · exact none _ (by simp)
    · exact none _ (by simp)

end Accounts

section Run

variable {σ : Type} {B : LedgerBackend σ} {ts : TextSupport} {s : Settings} {i : ℕ}
  {sh sh' : Shared σ} {ph' : Phase} {a : TaskAct} {evs : List Event}

/-- A step of the request keeps its books. -/
theorem Trans.books {exact : Prop} {t : Task} {h : List Event}
    (step : Trans B ts s i t.request t.streaming sh t.phase a sh' ph' evs)
    (calm : exact → B.networked = false ∧ a.cancels = false) (books : Books exact i t h) :
    Books exact i { t with phase := ph' } (h ++ history i evs) := by
  have added : ∀ k : Deed, k ≠ .other → tally k (history i evs) = tally k evs :=
    fun _ => step.tally_history
  have own : ∀ ks : List Deed, Deed.other ∉ ks → (∀ k ∈ ks, tally k evs = 0) →
      ∀ k ∈ ks, tally k (history i evs) = 0 := by
    intro ks real none k mem
    rw [added k (ne_of_mem_of_not_mem mem real), none k mem]
  have effect : ∀ f, B.admits f = true → exact → f.executed = true :=
    fun f admits all => executed_of_admits (calm all).1 admits
  obtain ⟨req, streaming, ph⟩ := t
  simp only at step
  cases step with
  | rejected _ | hit _ | refused _ _ | cancelReserve _ =>
      exact (Clean.grow books (by simp) (own _ (by simp) (by simp [Event.deed]))).accounted
  | quit quiet =>
      have clean : Clean [.granted, .settled, .released] h := by
        cases ph <;> first | exact Clean.mono books (by simp) | cases quiet
      exact (clean.grow (List.Subset.refl _) (own _ (by simp) (by simp))).accounted
  | toLookup _ | toReserve _ | miss _ | hitStream _ | replay =>
      exact Clean.grow books (by simp) (own _ (by simp) (by simp))
  | granted admits reserved =>
      have clean : Clean [.granted, .settled, .released, .shed, .generated, .failed, .delta] h :=
        books
      cases B.reserve_ok reserved
      refine ⟨rfl, rfl, rfl, ?_, ?_, ?_, ?_⟩
      · simp [Event.request]
      · rw [tally_append, clean .granted (by simp)]
        simp [-history_append, added, Event.deed]
      · exact clean.grow (by simp) (own _ (by simp) (by simp [Event.deed]))
      · exact clean.grow (by simp) (own _ (by simp) (by simp [Event.deed]))
  | enterBuffered entering _ =>
      cases entering <;> exact Held.grow books _ (by simp) (own _ (by simp) (by simp [Event.deed]))
  | enterStreamed entering _ =>
      cases entering <;>
        exact Held.grow books _ (by simp) (own _ (by simp) (by simp [Event.deed, startEvent]))
  | park _ | repark _ | allowed _ | deniedNext _ _ | begin | resume | chunkText _ | chunkEmpty _
  | exhausted | streamFault _ | streamOther _ | faultNext _ _ _ | completed =>
      exact Held.grow books _ (by simp) (own _ (by simp) (by simp [Event.deed, endEvent]))
  | timeout => exact Held.grow books _ (by simp) (own _ (by simp) (by simp [Event.deed]))
  | deniedRaise _ | faultRaise _ | otherRaise _ =>
      exact .inl (Held.grow books _ (by simp) (own _ (by simp) (by simp [Event.deed])))
  | exit exiting =>
      cases exiting <;> exact Held.grow books _ (by simp) (own _ (by simp) (by simp))
  | settleRaise admits bill =>
      cases B.closed_of_settle bill
      refine .inr ⟨rfl, Held.charge books (by simp) (effect _ admits) ?_
        (own _ (by simp) (by simp))⟩
      rw [added .settled (by simp)]
      simp
  | settleCache admits _ | finalizeStore admits _ =>
      refine Held.charge books (by simp) (effect _ admits) ?_
        (own _ (by simp) (by simp [Event.deed]))
      rw [added .settled (by simp)]
      simp [Event.deed]
  | settleReturn admits _ | finalizeClose admits _ =>
      refine (Held.charge books (by simp) (effect _ admits) ?_
        (own _ (by simp) (by simp [Event.deed]))).accounted
      rw [added .settled (by simp)]
      simp [Event.deed]
  | storeReturn | storeClose =>
      exact (Charged.grow books (own _ (by simp) (by simp [Event.deed]))).accounted
  | finishShed admits _ =>
      refine accounted_of_refund (.inl books) (effect _ admits) ?_ (own _ (by simp) (by simp))
      rw [added .released (by simp)]
      simp
  | refundRaise admits _ | refund admits _ =>
      refine accounted_of_refund books (effect _ admits) ?_ (own _ (by simp) (by simp [Event.deed]))
      rw [added .released (by simp)]
      simp [Event.deed]
  | cancelQueued | cancelGenerating =>
      exact Held.abandoned books (fun all => by cases (calm all).2)
        (own _ (by simp) (by simp [Event.deed]))
  | cancelShed networked =>
      rename_i executed
      refine accounted_of_refund (f := cancelFault executed) (.inl books)
        (fun all => by cases (calm all).2) ?_ (own _ (by simp) (by simp))
      rw [added .released (by simp)]
      simp
  | cancelRefund networked =>
      rename_i executed
      refine accounted_of_refund (f := cancelFault executed) books
        (fun all => by cases (calm all).2) ?_ (own _ (by simp) (by simp [Event.deed]))
      rw [added .released (by simp)]
      simp [Event.deed]
  | cancelSettle networked =>
      rename_i executed
      refine (Held.charge (f := cancelFault executed) books (by simp)
        (fun all => by cases (calm all).2) ?_ (own _ (by simp) (by simp [Event.deed]))).accounted
      rw [added .settled (by simp)]
      simp [Event.deed]
  | cancelCaching _ =>
      exact (Charged.grow books (own _ (by simp) (by simp [Event.deed]))).accounted

/-- The run cancels nothing. -/
def World.Uncancelled (_ : World σ) : WorldAct → Prop
  | .task _ a => a.cancels = false
  | _ => True

instance (w : World σ) : ∀ a, Decidable (w.Uncancelled a)
  | .task _ a => inferInstanceAs (Decidable (a.cancels = false))
  | .submit .. | .clock .. | .scale _ => inferInstanceAs (Decidable True)

/-- The books of every request are right in every reached state, and exact when the ledger
never fails and nobody is cancelled. -/
theorem books_of_reaches {ok : World σ → WorldAct → Prop} {exact : Prop} {ledger : σ} {w : World σ}
    (reached : Reaches (World.step B ts s) ok (World.start s ledger) w)
    (calm : exact → B.networked = false ∧ ∀ w a, ok w a → w.Uncancelled a) :
    ∀ i t, w.tasks[i]? = some t → Books exact i t (history i w.log) := by
  refine each_history ⟨rfl, rfl⟩ reached ?_ ?_
  · intro i req streaming k _
    rfl
  · intro w i t a sh ph evs _ allowed _ step books
    exact step.books (fun all => ⟨(calm all).1, (calm all).2 _ _ allowed⟩) books

end Run

end LLMInference
