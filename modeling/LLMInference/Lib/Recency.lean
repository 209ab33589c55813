import Mathlib.Data.Finset.Card
import Mathlib.Data.Finset.Dedup
import Mathlib.Data.List.TakeWhile

/-!
Recency lists: pairs with distinct keys, the least recently used first.

A use of a key moves its pair to the end (`touch`); when there are more than `n` pairs the first
ones go (`evict`). `since touched k` is the set of keys used after the last use of `k`, read off
the list of all uses.

* `Ordered`: what stands after a pair was used after it.
* `Ordered.mem_evict`: a pair survives an eviction as long as fewer than `n` keys were used after
  it.
-/

namespace Recency

variable {κ ν : Type*} [DecidableEq κ]

/-- The pair of `k` is removed, if there is one. -/
def without (data : List (κ × ν)) (k : κ) : List (κ × ν) := data.filter fun e => decide (e.1 ≠ k)

/-- `k` is used: its pair, with the value `v`, moves to the end. -/
def touch (data : List (κ × ν)) (k : κ) (v : ν) : List (κ × ν) := without data k ++ [(k, v)]

/-- The first pairs go until there are no more than `n`. -/
def evict (n : ℕ) (data : List (κ × ν)) : List (κ × ν) := data.drop (data.length - n)

/-- The keys used after the last use of `k`; the latest use is first in `touched`. -/
def since (touched : List κ) (k : κ) : Finset κ :=
  (touched.takeWhile fun k' => decide (k' ≠ k)).toFinset

/-- What stands after a pair was used after it. -/
def Ordered (touched : List κ) (data : List (κ × ν)) : Prop :=
  data.Pairwise fun older newer => newer.1 ∈ since touched older.1

section Since

variable {touched : List κ} {k k' : κ}

@[simp] theorem since_cons_self : since (k :: touched) k = ∅ := by simp [since]

theorem since_cons_of_ne (other : k' ≠ k) :
    since (k' :: touched) k = insert k' (since touched k) := by
  simp [since, other]

theorem notMem_since_self : k ∉ since touched k := by
  intro mem
  have passes := List.mem_takeWhile_imp (List.mem_toFinset.mp mem)
  simp at passes

theorem since_subset_cons (other : k' ≠ k) : since touched k ⊆ since (k' :: touched) k := by
  rw [since_cons_of_ne other]
  exact Finset.subset_insert _ _

end Since

section Data

variable {touched : List κ} {data : List (κ × ν)} {k : κ} {v : ν} {e : κ × ν} {n : ℕ}

theorem mem_without : e ∈ without data k ↔ e ∈ data ∧ e.1 ≠ k := by
  simp [without]

theorem mem_touch : e ∈ touch data k v ↔ e ∈ data ∧ e.1 ≠ k ∨ e = (k, v) := by
  rw [touch, List.mem_append, mem_without, List.mem_singleton]

omit [DecidableEq κ] in
theorem length_evict : (evict n data).length ≤ n := by
  rw [evict, List.length_drop]
  omega

omit [DecidableEq κ] in
theorem mem_of_mem_evict (mem : e ∈ evict n data) : e ∈ data := List.mem_of_mem_drop mem

omit [DecidableEq κ] in
theorem evict_eq_self (fits : data.length ≤ n) : evict n data = data := by
  rw [evict, Nat.sub_eq_zero_of_le fits, List.drop_zero]

/-- A key that is there is moved, not added. -/
theorem length_touch_le (here : ∃ e ∈ data, e.1 = k) : (touch data k v).length ≤ data.length := by
  obtain ⟨e, mem, rfl⟩ := here
  have fewer : (without data e.1).length < data.length :=
    List.length_filter_lt_length_iff_exists.mpr ⟨e, mem, by simp⟩
  rw [touch, List.length_append, List.length_singleton]
  exact fewer

theorem Ordered.sublist {data' : List (κ × ν)} (ordered : Ordered touched data)
    (sub : data'.Sublist data) : Ordered touched data' :=
  List.Pairwise.sublist sub ordered

theorem Ordered.without (ordered : Ordered touched data) (k : κ) :
    Ordered touched (without data k) :=
  ordered.sublist List.filter_sublist

theorem Ordered.evict (ordered : Ordered touched data) (n : ℕ) : Ordered touched (evict n data) :=
  ordered.sublist (List.drop_sublist _ _)

theorem Ordered.touch (ordered : Ordered touched data) (k : κ) (v : ν) :
    Ordered (k :: touched) (touch data k v) := by
  rw [Ordered, Recency.touch, List.pairwise_append]
  refine ⟨?_, List.pairwise_singleton _ _, ?_⟩
  · refine (ordered.without k).imp_of_mem ?_
    intro older newer here _ after
    exact since_subset_cons (mem_without.mp here).2.symm after
  · intro older here newer last
    rw [List.mem_singleton.mp last, since_cons_of_ne (mem_without.mp here).2.symm]
    exact Finset.mem_insert_self _ _

theorem Ordered.nodup (ordered : Ordered touched data) : (data.map Prod.fst).Nodup := by
  rw [List.Nodup, List.pairwise_map]
  refine List.Pairwise.imp ?_ ordered
  intro older newer after same
  exact notMem_since_self (same ▸ after)

/-- No more pairs stand after a pair than keys were used after it. -/
theorem Ordered.length_le_card {before after : List (κ × ν)}
    (ordered : Ordered touched (before ++ e :: after)) :
    after.length ≤ (since touched e.1).card := by
  have tail : Ordered touched (e :: after) := ordered.sublist (List.sublist_append_right _ _)
  have distinct := (List.nodup_cons.mp tail.nodup).2
  have used : (after.map Prod.fst).toFinset ⊆ since touched e.1 := by
    intro k mem
    obtain ⟨newer, here, rfl⟩ := List.mem_map.mp (List.mem_toFinset.mp mem)
    exact List.rel_of_pairwise_cons tail here
  calc after.length = (after.map Prod.fst).toFinset.card := by
        rw [List.toFinset_card_of_nodup distinct, List.length_map]
    _ ≤ (since touched e.1).card := Finset.card_le_card used

/-- A pair survives an eviction when fewer than `n` keys were used after it. -/
theorem Ordered.mem_evict (ordered : Ordered touched data) (mem : e ∈ data)
    (few : (since touched e.1).card < n) : e ∈ Recency.evict n data := by
  obtain ⟨before, after, rfl⟩ := List.append_of_mem mem
  have short := ordered.length_le_card
  have early : (before ++ e :: after).length - n ≤ before.length := by
    rw [List.length_append, List.length_cons]
    omega
  rw [Recency.evict, List.drop_append_of_le_length early]
  exact List.mem_append_right _ List.mem_cons_self

end Data

end Recency
