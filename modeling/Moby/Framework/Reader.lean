import Mathlib.Data.List.Basic
import Mathlib.Order.Nat

/-!
# Readers of fixed data

An `io.Reader` may give less than it is asked for, give nothing at all for a
while, and tell the end of its data together with the last of it or by a read
of its own. A `Reader` holds its data and how the coming reads are answered.
-/

namespace Moby.Framework

variable {α : Type}

/-- How one read is answered: with `upTo` elements at most, and, if nothing is
left after them, with or without the end. -/
structure Turn where
  upTo : ℕ
  eof : Bool

/-- A reader. After its turns it gives all it is asked for, and tells the end
by a read of its own. -/
structure Reader (α : Type) where
  data : List α
  turns : List Turn

namespace Reader

/-- `r.Read(p)` for a `p` of length `len`: the elements read, whether the error
is `io.EOF`, and the reader after it. -/
def read (r : Reader α) (len : ℕ) : List α × Bool × Reader α :=
  match r.turns with
  | [] => (r.data.take len, r.data.isEmpty, ⟨r.data.drop len, []⟩)
  | t :: ts =>
    (r.data.take (min t.upTo len), t.eof && (r.data.drop (min t.upTo len)).isEmpty,
      ⟨r.data.drop (min t.upTo len), ts⟩)

variable (r : Reader α) (len : ℕ)

theorem read_append : (r.read len).1 ++ (r.read len).2.2.data = r.data := by
  obtain ⟨data, turns⟩ := r
  cases turns <;> exact List.take_append_drop _ _

theorem length_read_le : (r.read len).1.length ≤ len := by
  obtain ⟨data, turns⟩ := r
  cases turns with
  | nil => exact List.length_take_le _ _
  | cons t ts => exact (List.length_take_le _ _).trans (Nat.min_le_right _ _)

/-- The end is told at the end. -/
theorem data_of_eof (h : (r.read len).2.1 = true) : (r.read len).2.2.data = [] := by
  obtain ⟨data, turns⟩ := r
  cases turns with
  | nil =>
    have hd : data = [] := List.isEmpty_iff.mp h
    simp [read, hd]
  | cons t ts => exact List.isEmpty_iff.mp (Bool.and_eq_true_iff.mp h).2

/-- The reads that may still come without the end, at most. -/
def left : ℕ := r.turns.length + r.data.length

theorem left_read_le : (r.read len).2.2.left ≤ r.left := by
  obtain ⟨data, turns⟩ := r
  cases turns <;> simp only [read, left, List.length_drop, List.length_cons, List.length_nil] <;> omega

theorem left_read_lt (hlen : 0 < len) (h : (r.read len).2.1 = false) : (r.read len).2.2.left < r.left := by
  obtain ⟨data, turns⟩ := r
  cases turns with
  | nil =>
    have hd : 0 < data.length := List.length_pos_of_ne_nil (List.isEmpty_eq_false_iff.mp h)
    simp only [read, left, List.length_drop, List.length_nil]
    omega
  | cons t ts =>
    simp only [read, left, List.length_drop, List.length_cons]
    omega

end Reader

end Moby.Framework
