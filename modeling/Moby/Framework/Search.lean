import Mathlib.Data.List.Basic
import Mathlib.Order.Nat

/-!
# Binary search (sort)

`Search` of the package `sort`, a loop that halves an interval of indexes. If the condition holds of all elements
from some place in the list on, and of none before it, the loop finds this place (`search_split`).
-/

namespace Moby.Framework

section Loop

variable (f : ℕ → Bool)

/-- The loop of `sort.Search` over the indexes from `i` up to `j`. -/
def searchLoop (i j : ℕ) : ℕ :=
  if i < j then
    let h := i + (j - i) / 2
    if !f h then searchLoop (h + 1) j else searchLoop i h
  else i
termination_by j - i

/-- If `f` fails below `i` and holds from `j` on, it fails below the result and holds from there on. -/
theorem searchLoop_spec {n : ℕ} (hmono : ∀ k l, k ≤ l → l < n → f k = true → f l = true) (i j : ℕ) (hij : i ≤ j) (hj : j ≤ n)
    (hlow : ∀ k < i, f k = false) (hhigh : ∀ k < n, j ≤ k → f k = true) :
    searchLoop f i j ≤ n ∧ (∀ k < searchLoop f i j, f k = false) ∧ ∀ k < n, searchLoop f i j ≤ k → f k = true := by
  induction i, j using searchLoop.induct f with
  | case1 i j hlt h hf ih =>
    rw [searchLoop, if_pos hlt, if_pos hf]
    have hh : h < j := by omega
    refine ih (by omega) hj (fun k hk => ?_) hhigh
    rw [Bool.not_eq_true'] at hf
    by_contra hk'
    rw [Bool.not_eq_false] at hk'
    rw [hmono k h (by omega) (by omega) hk'] at hf
    cases hf
  | case2 i j hlt h hf ih =>
    rw [searchLoop, if_pos hlt, if_neg hf]
    have hh : h < j := by omega
    simp only [Bool.not_eq_true', Bool.not_eq_false] at hf
    exact ih (by omega) (by omega) hlow fun k hk hle => hmono h k hle hk hf
  | case3 i j hge =>
    rw [searchLoop, if_neg hge]
    exact ⟨hij.trans hj, hlow, fun k hk hle => hhigh k hk (by omega)⟩

end Loop

variable {α : Type} (p : α → Bool)

/-- `sort.Search` for the first element of a list that meets a condition. -/
def search (l : List α) : ℕ := searchLoop (fun i => l[i]?.any p) 0 l.length

variable {p} {l : List α}

theorem search_split (h : l.Pairwise fun a b => p a = true → p b = true) :
    ∃ l₁ l₂, l = l₁ ++ l₂ ∧ search p l = l₁.length ∧ (∀ a ∈ l₁, p a = false) ∧ ∀ a ∈ l₂, p a = true := by
  have hspec := searchLoop_spec (fun i => l[i]?.any p) (n := l.length) (fun k k' hle hk' hk => ?_) 0 l.length (by omega) le_rfl
    (by simp) (fun k hk hle => by omega)
  · obtain ⟨hlen, hlow, hhigh⟩ := hspec
    refine ⟨l.take (search p l), l.drop (search p l), (List.take_append_drop ..).symm, ?_, fun a ha => ?_, fun a ha => ?_⟩
    · exact (List.length_take.trans (min_eq_left hlen)).symm
    · obtain ⟨k, hk, rfl⟩ := List.mem_take_iff_getElem.mp ha
      have := hlow k (by unfold search at hk; omega)
      rwa [List.getElem?_eq_getElem (by omega)] at this
    · obtain ⟨k, hk, rfl⟩ := List.mem_drop_iff_getElem.mp ha
      have := hhigh (search p l + k) (by omega) (by unfold search; omega)
      rwa [List.getElem?_eq_getElem (by omega)] at this
  · rcases hle.eq_or_lt with rfl | hlt
    · exact hk
    · rw [List.getElem?_eq_getElem (hlt.trans hk')] at hk
      rw [List.getElem?_eq_getElem hk']
      exact List.pairwise_iff_getElem.mp h k k' _ hk' hlt hk

end Moby.Framework
