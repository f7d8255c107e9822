import Mathlib.Data.Finset.Sort
import Mathlib.Data.List.Perm.Basic
import Mathlib.Data.Prod.Lex
import Mathlib.Data.String.Basic
import Mathlib.Tactic.ByContra

/-!
# Sorting with a comparison of one's own

`sort.Sort` is given a function `less` and promises an order only if `less` is a
strict weak order of the elements. For elements that are compared by position
within a class and by a key otherwise, this may fail.
-/

namespace Moby.Framework

variable {α : Type}

/-- Among the elements of the list, `less` is a strict weak order. -/
structure StrictWeak (less : α → α → Bool) (l : List α) : Prop where
  asymm : ∀ x ∈ l, ∀ y ∈ l, less x y = true → less y x = false
  cotrans : ∀ x ∈ l, ∀ y ∈ l, ∀ z ∈ l, less x y = true → less x z = true ∨ less z y = true

theorem StrictWeak.subset {less : α → α → Bool} {l l' : List α} (h : StrictWeak less l) (hs : l' ⊆ l) :
    StrictWeak less l' where
  asymm x hx y hy := h.asymm x (hs hx) y (hs hy)
  cotrans x hx y hy z hz := h.cotrans x (hs hx) y (hs hy) z (hs hz)

/-- What `sort.Sort` promises: the elements in an order in which none is less than
one before it, if there is such an order to speak of. -/
structure Sorts (sort : (α → α → Bool) → List α → List α) : Prop where
  perm (less : α → α → Bool) (l : List α) : (sort less l).Perm l
  sorted {less : α → α → Bool} {l : List α} (h : StrictWeak less l) :
    (sort less l).Pairwise fun x y => less y x = false

/-! ## Insertion -/

/-- Moves an element down the sorted ones, which are in reverse order. -/
def insertDown (less : α → α → Bool) (x : α) : List α → List α
  | [] => [x]
  | y :: ys => if less x y then y :: insertDown less x ys else x :: y :: ys

/-- The insertion sort of package `sort`, which it uses for a few elements. -/
def insertionSort (less : α → α → Bool) (l : List α) : List α :=
  (l.foldl (fun done x => insertDown less x done) []).reverse

variable {less : α → α → Bool}

theorem perm_insertDown (x : α) (l : List α) : (insertDown less x l).Perm (x :: l) := by
  induction l with
  | nil => exact .refl _
  | cons y ys ih =>
    rw [insertDown]
    split
    · exact (ih.cons y).trans (.swap x y ys)
    · exact .refl _

theorem perm_foldl_insertDown (l done : List α) :
    (l.foldl (fun done x => insertDown less x done) done).Perm (done ++ l) := by
  induction l generalizing done with
  | nil => rw [List.append_nil]; exact .refl _
  | cons x l ih => exact (ih _).trans (((perm_insertDown x done).append_right l).trans List.perm_middle.symm)

theorem perm_insertionSort (l : List α) : (insertionSort less l).Perm l :=
  (List.reverse_perm _).trans (perm_foldl_insertDown l [])

/-- The sorted elements, from the last to the first. -/
theorem pairwise_insertDown {l : List α} {x : α} (h : StrictWeak less (x :: l))
    (hl : l.Pairwise fun y x => less y x = false) : (insertDown less x l).Pairwise fun y x => less y x = false := by
  induction l with
  | nil => exact List.pairwise_singleton _ x
  | cons y ys ih =>
    rw [List.pairwise_cons] at hl
    have hy : y ∈ x :: y :: ys := List.mem_cons_of_mem _ List.mem_cons_self
    rw [insertDown]
    split
    · rename_i hlt
      have hsub : x :: ys ⊆ x :: y :: ys := List.cons_subset_cons x (List.subset_cons_self y ys)
      refine List.pairwise_cons.mpr ⟨fun z hz => ?_, ih (h.subset hsub) hl.2⟩
      rcases List.mem_cons.mp ((perm_insertDown x ys).subset hz) with rfl | hz
      · exact h.asymm _ List.mem_cons_self y hy hlt
      · exact hl.1 z hz
    · rename_i hnlt
      refine List.pairwise_cons.mpr ⟨fun z hz => ?_, List.pairwise_cons.mpr hl⟩
      rcases List.mem_cons.mp hz with rfl | hz
      · exact Bool.eq_false_iff.mpr hnlt
      · -- `x` is not less than `y`, nor `y` than `z`
        refine Bool.eq_false_iff.mpr fun hxz => ?_
        have hz' : z ∈ x :: y :: ys := List.mem_cons_of_mem _ (List.mem_cons_of_mem _ hz)
        rcases h.cotrans x List.mem_cons_self z hz' y hy hxz with hxy | hyz
        · exact hnlt hxy
        · rw [hl.1 z hz] at hyz
          cases hyz

theorem pairwise_foldl_insertDown {l done : List α} (h : StrictWeak less (done ++ l))
    (hd : done.Pairwise fun y x => less y x = false) :
    (l.foldl (fun done x => insertDown less x done) done).Pairwise fun y x => less y x = false := by
  induction l generalizing done with
  | nil => exact hd
  | cons x l ih =>
    have hperm : (insertDown less x done ++ l).Perm (done ++ x :: l) :=
      ((perm_insertDown x done).append_right l).trans List.perm_middle.symm
    have hsub : x :: done ⊆ done ++ x :: l := by
      refine List.cons_subset.mpr ⟨?_, List.subset_append_left _ _⟩
      exact List.mem_append_right _ List.mem_cons_self
    exact ih (h.subset hperm.subset) (pairwise_insertDown (h.subset hsub) hd)

theorem sorts_insertionSort : Sorts (insertionSort (α := α)) where
  perm _ l := perm_insertionSort l
  sorted h := List.pairwise_reverse.mpr (pairwise_foldl_insertDown h .nil)

/-! ## Pairs of strings -/

section

variable {s : Finset (Lex (String × String))}

/-- The pairs, in the order of their first and then of their second components. -/
def sortPairs (s : Finset (Lex (String × String))) : List (Lex (String × String)) := s.sort (· ≤ ·)

end

end Moby.Framework
