import Mathlib.Data.List.Basic
import Mathlib.Order.Nat
import Mathlib.Tactic.ByContra

/-!
# Go slices

A slice is a part of an array: the array, where the part starts, its length, and
how far it may grow in the array. `append` writes behind the slice if the
capacity allows it, and otherwise copies it to a new array; how much larger than
needed a new array is, is up to the runtime (`spare`). So slices of one array see
each other's elements.
-/

namespace Moby.Framework

/-- The arrays. -/
abbrev Heap (α : Type) := List (List α)

/-- A slice; it is nil if it has no array. -/
structure Slice where
  array : Option ℕ
  offset : ℕ
  len : ℕ
  cap : ℕ
  deriving DecidableEq

namespace Slice

variable {α : Type}

def nil : Slice := ⟨none, 0, 0, 0⟩

/-- The elements of a slice. -/
def read (h : Heap α) (s : Slice) : List α :=
  match s.array with
  | none => []
  | some a => ((h.getD a []).drop s.offset).take s.len

/-- Elements written over those at a place. -/
def overwrite (l : List α) (i : ℕ) (xs : List α) : List α := l.take i ++ xs ++ l.drop (i + xs.length)

/-- A new array with some elements, and a slice of them. -/
def alloc (zero : α) (h : Heap α) (xs : List α) (extra : ℕ) : Heap α × Slice :=
  (h ++ [xs ++ List.replicate extra zero], ⟨some h.length, 0, xs.length, xs.length + extra⟩)

/-- `append(s, xs...)`. -/
def append (spare : ℕ → ℕ → ℕ) (zero : α) (h : Heap α) (s : Slice) (xs : List α) : Heap α × Slice :=
  if s.len + xs.length ≤ s.cap then
    match s.array with
    | none => (h, s)
    | some a =>
      (h.set a (overwrite (h.getD a []) (s.offset + s.len) xs), { s with len := s.len + xs.length })
  else alloc zero h (s.read h ++ xs) (spare s.cap (s.len + xs.length))

/-- The slice lies in an array of the heap. -/
structure In (h : Heap α) (s : Slice) : Prop where
  len_le : s.len ≤ s.cap
  fits : ∀ a, s.array = some a → a < h.length ∧ s.offset + s.cap ≤ (h.getD a []).length
  nil : s.array = none → s.cap = 0

/-- `t` does not see what is written behind `s`. -/
def Before (t s : Slice) : Prop := t.array = s.array → t.array ≠ none → t.offset + t.len ≤ s.offset + s.len

theorem Before.of_ne {t s : Slice} (h : t.array ≠ s.array) : t.Before s := fun heq => absurd heq h

theorem In.length_read {h : Heap α} {s : Slice} (hs : s.In h) : (s.read h).length = s.len := by
  have hle := hs.len_le
  unfold read
  cases ha : s.array with
  | none =>
    have := hs.nil ha
    simp only [List.length_nil]
    omega
  | some a =>
    have := (hs.fits a ha).2
    simp only [List.length_take, List.length_drop]
    omega

theorem in_nil (h : Heap α) : nil.In h := ⟨Nat.le_refl _, (fun a ha => by cases ha), fun _ => rfl⟩

/-- `s[:i]`. -/
theorem In.take {h : Heap α} {s : Slice} (hs : s.In h) {i : ℕ} (hi : i ≤ s.len) : ({ s with len := i } : Slice).In h :=
  ⟨Nat.le_trans hi hs.len_le, hs.fits, hs.nil⟩

theorem read_take {h : Heap α} {s : Slice} {i : ℕ} (hi : i ≤ s.len) :
    ({ s with len := i } : Slice).read h = (s.read h).take i := by
  unfold read
  cases s.array with
  | none => exact List.take_nil.symm
  | some a =>
    dsimp only
    rw [List.take_take, Nat.min_eq_left hi]

/-! ## New arrays -/

section alloc

variable {zero : α} {h : Heap α} {xs : List α} {extra : ℕ}

@[simp] theorem read_alloc : (alloc zero h xs extra).2.read (alloc zero h xs extra).1 = xs := by
  simp [alloc, read]

theorem in_alloc : (alloc zero h xs extra).2.In (alloc zero h xs extra).1 := by
  refine ⟨by simp [alloc], fun a ha => ?_, fun hn => nomatch hn⟩
  cases ha
  simp [alloc]

/-- The slices of the other arrays stay. -/
theorem In.alloc {t : Slice} (ht : t.In h) (zero : α) (xs : List α) (extra : ℕ) :
    t.In (alloc zero h xs extra).1 ∧ t.read (Slice.alloc zero h xs extra).1 = t.read h ∧
      t.array ≠ (Slice.alloc zero h xs extra).2.array := by
  have hget (a : ℕ) (ha : a < h.length) : (Slice.alloc zero h xs extra).1.getD a [] = h.getD a [] := by
    simp [Slice.alloc, List.getElem?_append_left ha]
  refine ⟨⟨ht.len_le, fun a ha => ?_, ht.nil⟩, ?_, fun heq => ?_⟩
  · have hf := ht.fits a ha
    rw [hget a hf.1]
    refine ⟨?_, hf.2⟩
    simp only [Slice.alloc, List.length_append, List.length_singleton]
    omega
  · unfold read
    cases ha : t.array with
    | none => rfl
    | some a => simp only [hget a (ht.fits a ha).1]
  · have := (ht.fits h.length heq).1
    omega

end alloc

/-! ## Appending -/

theorem length_overwrite {l xs : List α} {i : ℕ} (h : i + xs.length ≤ l.length) :
    (overwrite l i xs).length = l.length := by
  simp only [overwrite, List.length_append, List.length_take, List.length_drop]
  omega

theorem overwrite_before {l xs : List α} {i o n : ℕ} (hi : i ≤ l.length) (h : o + n ≤ i) :
    ((overwrite l i xs).drop o).take n = (l.drop o).take n := by
  rw [List.take_drop, List.take_drop, overwrite, List.append_assoc, List.take_append_of_le_length (by simp; omega),
    List.take_take, Nat.min_eq_left h]

theorem overwrite_self {l xs : List α} {o n : ℕ} (h : o + n ≤ l.length) :
    ((overwrite l (o + n) xs).drop o).take (n + xs.length) = (l.drop o).take n ++ xs := by
  rw [overwrite, List.append_assoc, List.drop_append_of_le_length (by simp; omega), ← List.append_assoc]
  have htake : (l.take (o + n)).drop o = (l.drop o).take n := by rw [List.take_drop]
  have hlen : ((l.drop o).take n ++ xs).length = n + xs.length := by
    rw [List.length_append, List.length_take, List.length_drop]
    omega
  rw [htake, ← hlen, List.take_left]

/-- `s` may be appended to while the slices of `T` are in use. -/
structure Safe (h : Heap α) (T : Slice → Prop) (s : Slice) : Prop where
  mem : s.In h
  before : ∀ t, T t → t.In h ∧ t.Before s

/-- A later heap: the slices of `T` have the elements they had. -/
structure Frame (T : Slice → Prop) (h h' : Heap α) : Prop where
  read : ∀ t, T t → t.read h' = t.read h
  others : ∀ r : Slice, r.In h → r.In h'
  grows : h.length ≤ h'.length

theorem Frame.refl (T : Slice → Prop) (h : Heap α) : Frame T h h := ⟨fun _ _ => rfl, fun _ hr => hr, Nat.le_refl _⟩

/-- The slice is in no array of the heap. -/
def New (h : Heap α) (s : Slice) : Prop := ∀ a, s.array = some a → h.length ≤ a

variable {h h' h'' : Heap α} {T : Slice → Prop} {s s' s'' : Slice}

theorem In.ne_of_new {t : Slice} (ht : t.In h) (hs : s.New h) (heq : t.array = s.array) : t.array = none := by
  cases ha : t.array with
  | none => rfl
  | some a =>
    have h₁ := (ht.fits a ha).1
    have h₂ := hs a (heq ▸ ha)
    omega

/-- A new array changes nothing for the slices that are there. -/
theorem frame_alloc (hT : ∀ t, T t → t.In h) (zero : α) (xs : List α) (extra : ℕ) :
    Frame T h (alloc zero h xs extra).1 :=
  ⟨fun t ht => ((hT t ht).alloc _ _ _).2.1, fun _ hr => (hr.alloc _ _ _).1, by simp [alloc]⟩

theorem new_alloc (zero : α) (h : Heap α) (xs : List α) (extra : ℕ) : (alloc zero h xs extra).2.New h := by
  intro a ha
  cases ha
  exact Nat.le_refl _

theorem safe_alloc (hT : ∀ t, T t → t.In h) (zero : α) (xs : List α) (extra : ℕ) :
    Safe (alloc zero h xs extra).1 T (alloc zero h xs extra).2 :=
  ⟨in_alloc, fun t ht => ⟨((hT t ht).alloc _ _ _).1, .of_ne ((hT t ht).alloc _ _ _).2.2⟩⟩

/-- A slice after an `append` to it. -/
structure Appended (h h' : Heap α) (T : Slice → Prop) (s s' : Slice) (xs : List α) : Prop where
  frame : Frame T h h'
  safe : Safe h' T s'
  read : s'.read h' = s.read h ++ xs
  place : s'.array = s.array ∧ s'.offset = s.offset ∧ s.len ≤ s'.len ∨ s'.New h

theorem Appended.refl (hs : Safe h T s) : Appended h h T s s [] :=
  ⟨.refl T h, hs, (List.append_nil _).symm, .inl ⟨rfl, rfl, Nat.le_refl _⟩⟩

/-- One array of a heap is replaced. -/
theorem getD_set {a : ℕ} (hlt : a < h.length) (l : List α) (b : ℕ) :
    (h.set a l).getD b [] = if b = a then l else h.getD b [] := by
  simp only [List.getD_eq_getElem?_getD, List.getElem?_set]
  by_cases hb : b = a
  · subst hb; simp [hlt]
  · rw [if_neg (fun h => hb h.symm), if_neg hb]

/-- Writing behind a slice, within its capacity. -/
theorem Safe.write {a offset len cap : ℕ} (hs : Safe h T ⟨some a, offset, len, cap⟩) {xs : List α}
    (hcap : len + xs.length ≤ cap) :
    Appended h (h.set a (overwrite (h.getD a []) (offset + len) xs)) T ⟨some a, offset, len, cap⟩
      ⟨some a, offset, len + xs.length, cap⟩ xs := by
  obtain ⟨hlt, hfit⟩ := hs.mem.fits a rfl
  simp only at hfit
  have hover : offset + len + xs.length ≤ (h.getD a []).length := by omega
  have hget := getD_set hlt (overwrite (h.getD a []) (offset + len) xs)
  have hin (r : Slice) (hr : r.In h) : r.In (h.set a (overwrite (h.getD a []) (offset + len) xs)) := by
    refine ⟨hr.len_le, fun b hb => ?_, hr.nil⟩
    rw [List.length_set, hget]
    refine ⟨(hr.fits b hb).1, ?_⟩
    split_ifs with hba
    · rw [length_overwrite hover, ← hba]
      exact (hr.fits b hb).2
    · exact (hr.fits b hb).2
  have hself := hin _ hs.mem
  refine ⟨⟨fun t ht => ?_, hin, by simp⟩,
    ⟨⟨hcap, hself.fits, hself.nil⟩, fun t ht => ⟨hin t (hs.before t ht).1, fun heq hne => ?_⟩⟩, ?_,
    .inl ⟨rfl, rfl, Nat.le_add_right _ _⟩⟩
  · unfold Slice.read
    cases hta : t.array with
    | none => rfl
    | some b =>
      simp only [hget]
      split_ifs with hba
      · subst hba
        exact overwrite_before (by omega) ((hs.before t ht).2 hta (by simp [hta]))
      · rfl
  · have := (hs.before t ht).2 heq hne
    simp only at this ⊢
    omega
  · simp only [Slice.read, hget, if_true]
    exact overwrite_self (by omega)

theorem Safe.append (hs : Safe h T s) (spare : ℕ → ℕ → ℕ) (zero : α) (xs : List α) :
    Appended h (append spare zero h s xs).1 T s (append spare zero h s xs).2 xs := by
  obtain ⟨array, offset, len, cap⟩ := s
  unfold Slice.append
  split_ifs with hcap
  · cases array with
    | none =>
      have hnil : xs = [] := List.length_eq_zero_iff.mp (by have := hs.mem.nil rfl; simp only at this hcap; omega)
      rw [hnil]
      exact .refl hs
    | some a => exact hs.write hcap
  · have hT : ∀ t, T t → t.In h := fun t ht => (hs.before t ht).1
    exact ⟨frame_alloc hT _ _ _, safe_alloc hT _ _ _, read_alloc, .inr (new_alloc _ _ _ _)⟩

end Slice

end Moby.Framework
