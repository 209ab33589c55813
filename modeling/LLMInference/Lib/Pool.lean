import Mathlib.Algebra.BigOperators.Group.List.Basic
import Mathlib.Data.List.Basic
import Mathlib.Data.List.Induction
import Mathlib.Tactic.Abel

/-!
Pools of concurrent tasks, held in a list and named by their position.

A step of task `i` replaces the entry at `i` and leaves the others alone; a new task is
appended, so a name is never reused. The kinds of fact an interleaving argument needs about
a pool are how many tasks satisfy a predicate (`countP_step`, `countP_spawn`), what a
quantity sums up to (`sum_step`), and that every task satisfies a relation with its own
name (`Each`).
-/

namespace Pool

variable {τ : Type*}

/-- The count of tasks satisfying `p` changes by what the stepping task changes. -/
theorem countP_step {l : List τ} {i : ℕ} {t : τ} (here : l[i]? = some t) (t' : τ) (p : τ → Bool) :
    (l.set i t').countP p + (if p t then 1 else 0) = l.countP p + (if p t' then 1 else 0) := by
  induction l generalizing i with
  | nil => cases here
  | cons a rest ih =>
      cases i with
      | zero =>
          cases here
          simp only [List.set_cons_zero, List.countP_cons]
          omega
      | succ i =>
          have tail := ih (List.getElem?_cons_succ ▸ here)
          simp only [List.set_cons_succ, List.countP_cons]
          omega

theorem countP_spawn (l : List τ) (t : τ) (p : τ → Bool) :
    (l ++ [t]).countP p = l.countP p + (if p t then 1 else 0) := by
  simp [List.countP_append, List.countP_cons]

/-- A sum over the tasks changes by what the stepping task changes. -/
theorem sum_step {M : Type*} [AddCommMonoid M] {l : List τ} {i : ℕ} {t : τ} (here : l[i]? = some t)
    (t' : τ) (f : τ → M) : ((l.set i t').map f).sum + f t = (l.map f).sum + f t' := by
  induction l generalizing i with
  | nil => cases here
  | cons a rest ih =>
      cases i with
      | zero =>
          cases here
          simp only [List.set_cons_zero, List.map_cons, List.sum_cons]
          abel
      | succ i =>
          have tail := ih (List.getElem?_cons_succ ▸ here)
          simp only [List.set_cons_succ, List.map_cons, List.sum_cons, add_assoc, tail]

/-- A task that satisfies `p` is counted. -/
theorem countP_pos {l : List τ} {i : ℕ} {t : τ} (here : l[i]? = some t) {p : τ → Bool}
    (holds : p t = true) : 0 < l.countP p :=
  List.countP_pos_iff.mpr ⟨t, List.mem_of_getElem? here, holds⟩

/-- Counting tasks by their names and counting them in place agree. -/
theorem countP_range {l : List τ} {named : ℕ → Bool} {p : τ → Bool}
    (agree : ∀ i t, l[i]? = some t → named i = p t) :
    (List.range l.length).countP named = l.countP p := by
  induction l using List.reverseRecOn with
  | nil => rfl
  | append_singleton l t ih =>
      have old := ih fun i u here =>
        agree i u (List.getElem?_append_left (List.getElem?_eq_some_iff.mp here).1 ▸ here)
      have new := agree l.length t List.getElem?_concat_length
      rw [List.length_append, List.length_singleton, List.range_succ, List.countP_append,
        List.countP_append, old, List.countP_singleton, List.countP_singleton, new]

/-- Counting names when one of them changes. -/
theorem countP_range_change {n i : ℕ} {p q : ℕ → Bool} (inside : i < n)
    (same : ∀ j, j ≠ i → q j = p j) :
    (List.range n).countP q + (if p i then 1 else 0) =
      (List.range n).countP p + (if q i then 1 else 0) := by
  induction n with
  | zero => cases inside
  | succ n ih =>
      rw [List.range_succ, List.countP_append, List.countP_append, List.countP_singleton,
        List.countP_singleton]
      rcases Nat.lt_succ_iff_lt_or_eq.mp inside with before | rfl
      · rw [same n (Nat.ne_of_gt before)]
        have rest := ih before
        omega
      · have rest : (List.range i).countP q = (List.range i).countP p := by
          apply List.countP_congr
          intro j mem
          rw [same j (Nat.ne_of_lt (List.mem_range.mp mem))]
        omega

/-- Erasing the first entry with a key changes a count by that entry. -/
theorem countP_eraseP {l : List τ} {key : τ → Bool} {t : τ} (found : l.find? key = some t)
    (p : τ → Bool) :
    (l.eraseP key).countP p + (if p t then 1 else 0) = l.countP p := by
  induction l with
  | nil => cases found
  | cons a rest ih =>
      by_cases here : key a = true
      · rw [List.find?_cons_of_pos here] at found
        cases found
        rw [List.eraseP_cons_of_pos here, List.countP_cons]
      · rw [List.find?_cons_of_neg here] at found
        rw [List.eraseP_cons_of_neg here, List.countP_cons, List.countP_cons]
        have tail := ih found
        omega

/-- The task at `i` after the step is the new one. -/
theorem get_set_self {l : List τ} {i : ℕ} {t : τ} (here : l[i]? = some t) (t' : τ) :
    (l.set i t')[i]? = some t' :=
  List.getElem?_set_self (List.getElem?_eq_some_iff.mp here).1

/-- A step leaves alone what it does not change of a task. -/
theorem map_step {γ : Type*} {l : List τ} {i : ℕ} {t t' : τ} (here : l[i]? = some t) {f : τ → γ}
    (same : f t' = f t) : (l.set i t').map f = l.map f := by
  rw [List.map_set, same]
  obtain ⟨inside, rfl⟩ := List.getElem?_eq_some_iff.mp here
  rw [← List.getElem_map f (h := by simpa using inside), List.set_getElem_self]

/-- A task found after a step is the new one at the stepping position, or an old one
elsewhere. -/
theorem get_set {l : List τ} {i j : ℕ} {t' u : τ} (found : (l.set i t')[j]? = some u) :
    (j = i ∧ u = t') ∨ (j ≠ i ∧ l[j]? = some u) := by
  rcases eq_or_ne j i with rfl | ne
  · rw [List.getElem?_set_self'] at found
    obtain ⟨_, -, rfl⟩ := Option.map_eq_some_iff.mp found
    exact .inl ⟨rfl, rfl⟩
  · rw [List.getElem?_set_ne ne.symm] at found
    exact .inr ⟨ne, found⟩

/-- A spawn leaves the tasks where they are. -/
theorem get_old {l : List τ} {i : ℕ} {t : τ} (here : l[i]? = some t) (new : List τ) :
    (l ++ new)[i]? = some t :=
  (List.getElem?_append_left (List.getElem?_eq_some_iff.mp here).1).trans here

/-- A task found after a spawn is an old one, or the new one at the next position. -/
theorem get_spawn {l : List τ} {t u : τ} {j : ℕ} (found : (l ++ [t])[j]? = some u) :
    (l[j]? = some u) ∨ (j = l.length ∧ u = t) := by
  rcases Nat.lt_or_ge j l.length with old | new
  · exact .inl (List.getElem?_append_left old ▸ found)
  · rw [List.getElem?_append_right new, List.getElem?_singleton] at found
    split at found
    · rename_i zero
      exact .inr ⟨by omega, (Option.some.inj found).symm⟩
    · cases found

/-- Every task satisfies the relation with its own name. -/
def Each (P : ℕ → τ → Prop) (l : List τ) : Prop := ∀ i t, l[i]? = some t → P i t

theorem Each.nil (P : ℕ → τ → Prop) : Each P [] := by
  intro i t here
  cases here

/-- A step keeps the relation when the stepping task has it afterwards and the others
do not lose it. -/
theorem Each.step {P Q : ℕ → τ → Prop} {l : List τ} {i : ℕ} {t' : τ} (each : Each P l)
    (mine : Q i t') (others : ∀ j u, j ≠ i → l[j]? = some u → P j u → Q j u) :
    Each Q (l.set i t') := by
  intro j u found
  rcases get_set found with ⟨rfl, rfl⟩ | ⟨ne, old⟩
  · exact mine
  · exact others j u ne old (each j u old)

theorem Each.spawn {P Q : ℕ → τ → Prop} {l : List τ} {t' : τ} (each : Each P l)
    (mine : Q l.length t') (others : ∀ j u, l[j]? = some u → P j u → Q j u) :
    Each Q (l ++ [t']) := by
  intro j u found
  rcases get_spawn found with old | ⟨rfl, rfl⟩
  · exact others j u old (each j u old)
  · exact mine

theorem Each.mono {P Q : ℕ → τ → Prop} {l : List τ} (each : Each P l)
    (weaker : ∀ j u, l[j]? = some u → P j u → Q j u) : Each Q l :=
  fun j u here => weaker j u here (each j u here)

end Pool
