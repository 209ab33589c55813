import LLMInference.Cost.Memory

/-!
What the in-memory ledger's operations do to the entries that count at a time `t`.

Pruning at `now` is invisible at every later `t`. A reserve adds its entry, a settle or release
takes the entry of its reservation, and a settle adds its charge.
-/

namespace LLMInference

namespace Ledger

/-- The entry counts at `t`. -/
def young (l : Ledger) (t : ℚ) (e : Entry) : Bool := decide (t - l.windowSeconds ≤ e.timestamp)

section Window

variable {l : Ledger} {u other : String} {es : List Entry} {now t t' : ℚ}

theorem inWindow_eq : l.inWindow u t = (l.spend u).filter (l.young t) := rfl

@[simp] theorem inWindow_setSpend_self : (l.setSpend u es).inWindow u t = es.filter (l.young t) := by
  rw [inWindow_eq, setSpend_self]
  rfl

@[simp] theorem inWindow_setSpend_ne (ne : other ≠ u) :
    (l.setSpend u es).inWindow other t = l.inWindow other t := by
  rw [inWindow_eq, setSpend_ne _ ne]
  rfl

/-- What counts later counts now. -/
theorem young_of_le {e : Entry} (le : t ≤ t') (young : l.young t' e = true) :
    l.young t e = true := by
  have later := of_decide_eq_true young
  exact decide_eq_true (by linarith)

theorem inWindow_sublist (u : String) (le : t ≤ t') :
    (l.inWindow u t').Sublist (l.inWindow u t) := by
  rw [inWindow_eq, inWindow_eq]
  exact List.monotone_filter_right _ fun _ => young_of_le le

theorem filter_young_inWindow (le : now ≤ t) :
    (l.inWindow u now).filter (l.young t) = l.inWindow u t := by
  rw [inWindow_eq, inWindow_eq, List.filter_filter]
  apply List.filter_congr
  intro e _
  cases young : l.young t e with
  | false => rfl
  | true => rw [young_of_le le young, Bool.and_true]

/-- Pruning is invisible from its time on. -/
theorem inWindow_prune (pruned u : String) (le : now ≤ t) :
    (l.prune pruned now).inWindow u t = l.inWindow u t := by
  unfold prune
  by_cases same : u = pruned
  · subst same
    rw [inWindow_setSpend_self, filter_young_inWindow le]
  · exact inWindow_setSpend_ne same

theorem spend_prune_sublist (l : Ledger) (pruned : String) (now : ℚ) :
    ((l.prune pruned now).spend u).Sublist (l.spend u) := by
  by_cases same : u = pruned
  · subst same
    simp only [prune, setSpend_self]
    exact List.filter_sublist
  · rw [prune, setSpend_ne _ same]

/-- A granted reserve adds its entry. -/
theorem inWindow_held (e : Entry) (le : now ≤ t) :
    (l.setSpend u (l.inWindow u now ++ [e])).inWindow u t =
      l.inWindow u t ++ [e].filter (l.young t) := by
  rw [inWindow_setSpend_self, List.filter_append, filter_young_inWindow le]

end Window

section Close

variable {l : Ledger} {r : Reservation} {c : Charge} {u : String} {now t : ℚ}

theorem filter_young_dropEntry (distinct : ((l.spend u).map (·.entryId)).Nodup) (id : ℕ) :
    (dropEntry (l.spend u) id).filter (l.young t) =
      (l.inWindow u t).filter fun e => decide (e.entryId ≠ id) := by
  rw [dropEntry_eq_filter distinct, inWindow_eq, List.filter_filter, List.filter_filter]
  apply List.filter_congr
  intro e _
  exact Bool.and_comm ..

/-- A settle takes what its reservation has and adds the charge. -/
theorem inWindow_settle (opened : r.closed = false)
    (distinct : ((l.spend r.userId).map (·.entryId)).Nodup) :
    (l.settle r c now).2.inWindow r.userId t =
      ((l.inWindow r.userId t).filter fun e => decide (e.entryId ≠ r.id)) ++
        [({ timestamp := now, amount := c.cost, entryId := r.id } : Entry)].filter (l.young t) := by
  rw [← filter_young_dropEntry distinct, ← List.filter_append]
  simp only [settle, opened, Bool.false_eq_true, if_false, inWindow_eq, setSpend_self]
  rfl

theorem inWindow_settle_ne (ne : u ≠ r.userId) :
    (l.settle r c now).2.inWindow u t = l.inWindow u t := by
  unfold settle
  split
  · rfl
  · simp only [inWindow_eq, setSpend_ne _ ne]
    rfl

theorem inWindow_release (opened : r.closed = false)
    (distinct : ((l.spend r.userId).map (·.entryId)).Nodup) :
    (l.release r).2.inWindow r.userId t =
      (l.inWindow r.userId t).filter fun e => decide (e.entryId ≠ r.id) := by
  rw [← filter_young_dropEntry distinct]
  simp only [release, opened, Bool.false_eq_true, if_false, inWindow_setSpend_self]

theorem inWindow_release_ne (ne : u ≠ r.userId) :
    (l.release r).2.inWindow u t = l.inWindow u t := by
  unfold release
  split
  · rfl
  · exact inWindow_setSpend_ne ne

end Close

end Ledger

section Amounts

variable {es : List Entry} {e : Entry}

/-- Under distinct identifiers an entry is what its identifier holds. -/
theorem heldUnder_of_mem (distinct : (es.map (·.entryId)).Nodup) (mem : e ∈ es) :
    heldUnder es e.entryId = e.amount := by
  unfold heldUnder
  induction es with
  | nil => cases mem
  | cons first rest ih =>
      rw [List.map_cons, List.nodup_cons] at distinct
      rcases List.mem_cons.mp mem with rfl | tail
      · simp
      · have other : first.entryId ≠ e.entryId := by
          intro same
          exact distinct.1 (same ▸ List.mem_map_of_mem tail)
        rw [List.find?_cons_of_neg (by simpa using other)]
        exact ih distinct.2 tail

/-- Without an entry, the sum is less by its amount. -/
theorem amounts_filter_ne (distinct : (es.map (·.entryId)).Nodup) (mem : e ∈ es) :
    amounts (es.filter fun x => decide (x.entryId ≠ e.entryId)) + e.amount = amounts es := by
  rw [← dropEntry_eq_filter distinct, ← heldUnder_of_mem distinct mem]
  exact amounts_dropEntry es e.entryId

end Amounts

end LLMInference
