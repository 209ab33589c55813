import Mathlib.Data.List.Sort
import Mathlib.Algebra.BigOperators.Group.List.Basic
import Mathlib.Algebra.Order.BigOperators.Group.List
import Mathlib.Data.Rat.Defs
import Mathlib.Algebra.Order.Field.Rat

/-!
Sorted sets: distinct members, each with a score.

The set carries the proof that no member occurs twice, so removing a member removes all
of it. Weights of members are summed with `sumBy`; the lemmas say what each
operation does to such a sum and to the entries that lie above a score.
-/

/-- A sorted set over `α`. The order of `entries` is not part of its meaning. -/
structure ZSet (α : Type*) where
  entries : List (α × ℚ)
  nodup : (entries.map Prod.fst).Nodup

namespace ZSet

variable {α : Type*}

/-- The empty set. -/
def empty : ZSet α := { entries := [], nodup := List.nodup_nil }

instance : Inhabited (ZSet α) := ⟨empty⟩

def members (z : ZSet α) : List α := z.entries.map Prod.fst

/-- Keep the entries that satisfy `p`. -/
def restrict (z : ZSet α) (p : α × ℚ → Bool) : ZSet α :=
  { entries := z.entries.filter p
    nodup := z.nodup.sublist (List.filter_sublist.map Prod.fst) }

/-- Remove the entries whose score is at most `max`. -/
def removeUpTo (z : ZSet α) (max : ℚ) : ZSet α := z.restrict fun e => decide (max < e.2)

section Members

variable [DecidableEq α]

def remove (z : ZSet α) (m : α) : ZSet α := z.restrict fun e => decide (e.1 ≠ m)

/-- Add `m`, or give it a new score. -/
def add (z : ZSet α) (m : α) (score : ℚ) : ZSet α :=
  { entries := (z.remove m).entries ++ [(m, score)]
    nodup := by
      rw [List.map_append, List.map_singleton, List.nodup_append]
      refine ⟨(z.remove m).nodup, List.nodup_singleton m, ?_⟩
      intro other mem last eq same
      rw [List.mem_singleton] at eq
      subst eq same
      obtain ⟨e, kept, name⟩ := List.mem_map.mp mem
      exact absurd name (of_decide_eq_true (List.mem_filter.mp kept).2) }

@[simp] theorem entries_add (z : ZSet α) (m : α) (score : ℚ) :
    (z.add m score).entries = (z.remove m).entries ++ [(m, score)] := rfl

end Members

/-- The members by score, and by name where scores agree. -/
def range [LinearOrder α] (z : ZSet α) : List α :=
  (z.entries.insertionSort fun a b => a.2 < b.2 ∨ a.2 = b.2 ∧ a.1 ≤ b.1).map Prod.fst

theorem range_perm [LinearOrder α] (z : ZSet α) : z.range.Perm z.members :=
  (List.perm_insertionSort _ _).map Prod.fst

/-! ### Sums of weights -/

/-- The sum of the members' weights. -/
def sumBy (z : ZSet α) (f : α → ℚ) : ℚ := (z.members.map f).sum

section Sums

variable {z : ZSet α} {f : α → ℚ}

theorem sum_range [LinearOrder α] : (z.range.map f).sum = z.sumBy f :=
  ((range_perm z).map f).sum_eq

/-- Dropping entries of non-negative weight never raises the sum. -/
theorem sumBy_restrict_le (nonneg : ∀ m ∈ z.members, 0 ≤ f m) (p : α × ℚ → Bool) :
    (z.restrict p).sumBy f ≤ z.sumBy f := by
  have kept : ((z.restrict p).members.map f).Sublist (z.members.map f) :=
    (List.filter_sublist.map Prod.fst).map f
  apply kept.sum_le_sum
  intro x mem
  obtain ⟨m, here, rfl⟩ := List.mem_map.mp mem
  exact nonneg m here

theorem mem_members_restrict {p : α × ℚ → Bool} {m : α} (mem : m ∈ (z.restrict p).members) :
    m ∈ z.members :=
  (List.filter_sublist.map Prod.fst).subset mem

variable [DecidableEq α]

theorem entries_remove_of_notMem {m : α} (absent : m ∉ z.members) :
    (z.remove m).entries = z.entries := by
  apply List.filter_eq_self.mpr
  intro e mem
  apply decide_eq_true
  rintro rfl
  exact absent (List.mem_map_of_mem mem)

/-- Removing a member takes its weight away. -/
theorem sumBy_remove {m : α} (mem : m ∈ z.members) : (z.remove m).sumBy f + f m = z.sumBy f := by
  obtain ⟨entries, nodup⟩ := z
  simp only [sumBy, members, remove, restrict] at mem ⊢
  induction entries with
  | nil => cases mem
  | cons e rest ih =>
      rw [List.map_cons, List.nodup_cons] at nodup
      by_cases here : e.1 = m
      · subst here
        have kept : rest.filter (fun a => decide (a.1 ≠ e.1)) = rest := by
          apply List.filter_eq_self.mpr
          intro a inRest
          apply decide_eq_true
          intro same
          exact nodup.1 (same ▸ List.mem_map_of_mem inRest)
        rw [List.filter_cons_of_neg (by simp), kept]
        simp only [List.map_cons, List.sum_cons]
        exact add_comm _ _
      · have inRest : m ∈ rest.map Prod.fst := by
          rcases List.mem_cons.mp mem with eq | inRest
          · exact absurd eq.symm here
          · exact inRest
        rw [List.filter_cons_of_pos (by simpa using here)]
        simp only [List.map_cons, List.sum_cons]
        rw [← ih nodup.2 inRest, add_assoc]

theorem sumBy_add (m : α) (score : ℚ) : (z.add m score).sumBy f = (z.remove m).sumBy f + f m := by
  simp [sumBy, members, add]

theorem mem_members_add {m m' : α} {score : ℚ} (mem : m' ∈ (z.add m score).members) :
    m' = m ∨ m' ∈ z.members := by
  simp only [members, add, List.map_append, List.mem_append, List.map_singleton,
    List.mem_singleton] at mem
  rcases mem with old | new
  · exact .inr (mem_members_restrict old)
  · exact .inl new

end Sums

end ZSet
