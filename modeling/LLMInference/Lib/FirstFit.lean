import Mathlib.Data.List.Sort
import Mathlib.Order.Basic

/-!
First fit in a ranked list: sort by a key, stably, and take the first element that
passes a test.

`Least` says what such a search is for: an element that passes, with the lowest key of all
that do. `least_of_firstFit` and `firstFit_eq_none` describe one search; `firstFit_relax`
compares two searches of one list of which the second is less strict.
-/

namespace FirstFit

variable {α κ : Type*} [LinearOrder κ] (key : α → κ)

/-- The list, lowest key first; equal keys keep their order. -/
def ranked (l : List α) : List α := l.insertionSort fun a b => key a ≤ key b

/-- The first element of the ranked list that passes the test. -/
def firstFit (p : α → Bool) (l : List α) : Option α := (ranked key l).find? p

/-- `a` passes `p`, and no element of `l` that passes has a lower key. -/
structure Least (l : List α) (p : α → Prop) (a : α) : Prop where
  mem : a ∈ l
  passes : p a
  least : ∀ b ∈ l, p b → key a ≤ key b

theorem mem_ranked {a : α} {l : List α} : a ∈ ranked key l ↔ a ∈ l :=
  List.mem_insertionSort _

theorem pairwise_ranked (l : List α) : (ranked key l).Pairwise fun a b => key a ≤ key b :=
  haveI : Std.Total fun a b : α => key a ≤ key b := ⟨fun a b => le_total (key a) (key b)⟩
  haveI : IsTrans α fun a b => key a ≤ key b := ⟨fun _ _ _ => le_trans⟩
  List.pairwise_insertionSort _ _

/-- The head of the ranked list has the lowest key. -/
theorem least_of_head? {l : List α} {a : α} (head : (ranked key l).head? = some a) :
    Least key l (fun _ => True) a := by
  obtain ⟨rest, split⟩ := List.head?_eq_some_iff.mp head
  have sorted := split ▸ pairwise_ranked key l
  refine ⟨(mem_ranked key).mp (split ▸ List.mem_cons_self), trivial, ?_⟩
  intro b mem _
  rcases List.mem_cons.mp (split ▸ (mem_ranked key).mpr mem) with rfl | later
  · exact le_rfl
  · exact (List.pairwise_cons.mp sorted).1 b later

section Search

variable {p q : α → Bool} {l : List α} {a : α}

/-- What is found passes, and nothing that passes ranks before it. -/
theorem least_of_firstFit (found : firstFit key p l = some a) :
    Least key l (fun b => p b = true) a := by
  obtain ⟨passes, before, after, split, skipped⟩ := List.find?_eq_some_iff_append.mp found
  have sorted := split ▸ pairwise_ranked key l
  have here : a ∈ ranked key l := split ▸ List.mem_append_cons_self
  refine ⟨(mem_ranked key).mp here, passes, ?_⟩
  intro b mem fits
  have place : b ∈ before ++ a :: after := split ▸ (mem_ranked key).mpr mem
  rcases List.mem_append.mp place with early | late
  · exact absurd fits (by simpa using skipped b early)
  · rcases List.mem_cons.mp late with rfl | later
    · exact le_rfl
    · exact (List.pairwise_cons.mp (List.pairwise_append.mp sorted).2.1).1 b later

/-- Nothing is found exactly when nothing passes. -/
theorem firstFit_eq_none : firstFit key p l = none ↔ ∀ b ∈ l, ¬ p b = true := by
  rw [firstFit, List.find?_eq_none]
  exact forall_congr' fun b => by rw [mem_ranked key]

/-- A less strict search finds something too: the same, or something that ranks no
later and fails the stricter test. -/
theorem firstFit_relax (weaker : ∀ b, p b = true → q b = true)
    (found : firstFit key p l = some a) :
    ∃ b, firstFit key q l = some b ∧ (b = a ∨ key b ≤ key a ∧ ¬ p b = true) := by
  obtain ⟨passes, before, after, split, skipped⟩ := List.find?_eq_some_iff_append.mp found
  have sorted := split ▸ pairwise_ranked key l
  cases early : before.find? q with
  | none =>
      refine ⟨a, ?_, .inl rfl⟩
      rw [firstFit, split, List.find?_append, early, Option.none_or,
        List.find?_cons_of_pos (weaker a passes)]
  | some b =>
      have mem := List.mem_of_find?_eq_some early
      refine ⟨b, ?_, .inr ⟨?_, by simpa using skipped b mem⟩⟩
      · rw [firstFit, split, List.find?_append, early, Option.some_or]
      · exact (List.pairwise_append.mp sorted).2.2 b mem a List.mem_cons_self

end Search

end FirstFit
