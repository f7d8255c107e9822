import Mathlib.Data.BitVec
import Mathlib.Logic.Function.Basic

/-!
# Bitmaps

A set of numbers, a bit for each, eight to a byte. `test_mark` and `test_clear` say what a
change of one bit does to the set, and the order in which bits are set does not matter
(`mark_comm`).
-/

namespace Moby.Framework

/-- The bytes of a bitmap. -/
abbrev Bitmap := ℕ → BitVec 8

namespace Bitmap

/-- No bit is set. -/
def zero : Bitmap := fun _ => 0#8

def test (m : Bitmap) (n : ℕ) : Bool := m (n / 8) &&& (1#8 <<< (n % 8)) != 0#8

def mark (m : Bitmap) (n : ℕ) : Bitmap := Function.update m (n / 8) (m (n / 8) ||| (1#8 <<< (n % 8)))

def clear (m : Bitmap) (n : ℕ) : Bitmap := Function.update m (n / 8) (m (n / 8) &&& ~~~(1#8 <<< (n % 8)))

/-- The bit with a number is the one of a byte. -/
theorem test_eq (m : Bitmap) (n : ℕ) : m.test n = (m (n / 8)).getLsbD (n % 8) := by
  have hlt : n % 8 < 8 := Nat.mod_lt n (by decide)
  have hne : BitVec.twoPow 8 (n % 8) ≠ 0#8 := by
    intro h
    have hbit := congrArg (fun b => BitVec.getLsbD b (n % 8)) h
    simp [hlt] at hbit
  rw [test, ← BitVec.twoPow_eq, BitVec.and_twoPow]
  split
  · rename_i h
    rw [h]
    simpa using hne
  · rename_i h
    simp [Bool.eq_false_iff.mpr h]

theorem eq_iff (n k : ℕ) : n = k ↔ n / 8 = k / 8 ∧ n % 8 = k % 8 := by
  constructor
  · rintro rfl
    exact ⟨rfl, rfl⟩
  · rintro ⟨hd, hm⟩
    omega

@[simp] theorem test_mark (m : Bitmap) (n k : ℕ) : (m.mark n).test k = (decide (k = n) || m.test k) := by
  have hlt : n % 8 < 8 := Nat.mod_lt n (by decide)
  rw [test_eq, test_eq, mark]
  by_cases hd : k / 8 = n / 8
  · rw [hd, Function.update_self, BitVec.getLsbD_or, ← BitVec.twoPow_eq, BitVec.getLsbD_twoPow]
    simp only [hlt, decide_true, Bool.true_and, eq_iff k n, hd, true_and]
    rw [Bool.or_comm]
    simp only [eq_comm]
  · have hne : k ≠ n := fun h => hd (by rw [h])
    rw [Function.update_of_ne hd]
    simp [hne]

@[simp] theorem test_clear (m : Bitmap) (n k : ℕ) : (m.clear n).test k = (decide (k ≠ n) && m.test k) := by
  have hlt : n % 8 < 8 := Nat.mod_lt n (by decide)
  have hlt' : k % 8 < 8 := Nat.mod_lt k (by decide)
  rw [test_eq, test_eq, clear]
  by_cases hd : k / 8 = n / 8
  · rw [hd, Function.update_self, BitVec.getLsbD_and, BitVec.getLsbD_not, ← BitVec.twoPow_eq, BitVec.getLsbD_twoPow]
    simp only [hlt, hlt', decide_true, Bool.true_and, ne_eq, eq_iff k n, hd, true_and, decide_not]
    rw [Bool.and_comm]
    simp only [eq_comm]
  · have hne : k ≠ n := fun h => hd (by rw [h])
    rw [Function.update_of_ne hd]
    simp [hne]

theorem mark_comm (m : Bitmap) (n k : ℕ) : (m.mark n).mark k = (m.mark k).mark n := by
  funext i
  by_cases h : n / 8 = k / 8
  · simp only [mark, h, Function.update_self, Function.update_idem]
    by_cases hi : i = k / 8
    · subst hi
      simp only [Function.update_self, BitVec.or_assoc, BitVec.or_comm (1#8 <<< (n % 8))]
    · simp only [Function.update_of_ne hi]
  · simp only [mark, Function.update_of_ne h, Function.update_of_ne (Ne.symm h)]
    exact congrFun (Function.update_comm h _ _ _) i

end Bitmap

end Moby.Framework
