import Mathlib.Data.Fintype.Card
import Mathlib.Logic.Function.Basic

/-!
# How many goroutines are where

A system of goroutines has a function from goroutines to points. `census P point` is
the number of those at a point with `P`; a step moves one goroutine, and `census_update`
says what that does to the number.
-/

namespace Moby.Framework

variable {ι α : Type} [Fintype ι] {P Q : α → Bool} {point : ι → α}

/-- How many are at a point with `P`. -/
def census (P : α → Bool) (point : ι → α) : ℕ := (Finset.univ.filter fun t => P (point t) = true).card

theorem census_pos : 0 < census P point ↔ ∃ t, P (point t) = true := by
  simp [census, Finset.card_pos, Finset.filter_nonempty_iff]

theorem census_eq_zero : census P point = 0 ↔ ∀ t, P (point t) = false := by
  simp [census, Finset.filter_eq_empty_iff]

variable [DecidableEq ι]

theorem census_update (P : α → Bool) (point : ι → α) (t : ι) (q : α) :
    census P (Function.update point t q) + (P (point t)).toNat = census P point + (P q).toNat := by
  have hrest (r : α) : census P (Function.update point t r) =
      ((Finset.univ.erase t).filter fun t' => P (point t') = true).card + (P r).toNat := by
    have hothers : ((Finset.univ.erase t).filter fun t' => P (Function.update point t r t') = true) =
        (Finset.univ.erase t).filter fun t' => P (point t') = true :=
      Finset.filter_congr fun t' ht => by rw [Function.update_of_ne (Finset.ne_of_mem_erase ht)]
    have hall : census P (Function.update point t r) =
        ((insert t (Finset.univ.erase t)).filter fun t' => P (Function.update point t r t') = true).card := by
      rw [Finset.insert_erase (Finset.mem_univ t), census]
    rw [hall, Finset.filter_insert, hothers, Function.update_self]
    cases P r with
    | false => rfl
    | true => exact Finset.card_insert_of_notMem fun ht => Finset.notMem_erase t _ (Finset.mem_of_mem_filter t ht)
  have hsame := hrest (point t)
  rw [Function.update_eq_self] at hsame
  rw [hrest q, hsame]
  omega

end Moby.Framework
