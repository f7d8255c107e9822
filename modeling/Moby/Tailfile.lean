import Moby.Framework.GoString

/-!
# The last lines of a file (pkg/tailfile/tailfile.go)

`TailFile` reads blocks from the end of a file until they have more newlines than lines are asked
for, and splits what it has read. The newline of the line before the first one returned is then among
those read, so that this line is whole; or the whole file has been read (`tailLoop_spec`).
-/

namespace Moby.Tailfile

open Moby.Framework

def eol : UInt8 := 0x0A

def blockSize : ℕ := 1024

inductive Err
  | nonPositiveLinesNumber
  deriving DecidableEq

/-- What is read at an offset into a buffer. -/
def read (f : List UInt8) (offset len : ℕ) : List UInt8 := (f.drop offset).take len

/-- The loop of `TailFile`: what has been read when it ends. The blocks have numbers from the end of
the file on, the last has 1. -/
def tailLoop (f : List UInt8) (n block : ℕ) (data : List UInt8) (cnt : ℕ) : List UInt8 :=
  if f.length < block * blockSize then read f 0 (blockSize + f.length - block * blockSize) ++ data
  else
    let b := read f (f.length - block * blockSize) blockSize
    if n < cnt + b.count eol then b ++ data
    else tailLoop f n (block + 1) (b ++ data) (cnt + b.count eol)
  termination_by f.length + 1 - block * blockSize
  decreasing_by
    unfold blockSize at *
    omega

/-- `TailFile`. -/
def tailFile (f : List UInt8) (n : ℤ) : Except Err (List (List UInt8)) :=
  if n ≤ 0 then .error .nonPositiveLinesNumber
  else
    let lines := (tailLoop f n.toNat 1 [] 0).splitOn eol
    if n < lines.length then .ok ((lines.take (lines.length - 1)).drop (lines.length - n.toNat - 1))
    else .ok (lines.take (lines.length - 1))

/-! ## The loop -/

theorem read_append_drop (f : List UInt8) (offset len : ℕ) :
    read f offset len ++ f.drop (offset + len) = f.drop offset := by
  rw [read, ← List.drop_drop, List.take_append_drop]

/-- The block before the one at `offset`. -/
theorem next_offset {size block : ℕ} (hblock : 0 < block) (h : block * blockSize ≤ size) :
    size - block * blockSize + blockSize = size - (block - 1) * blockSize := by
  rw [Nat.sub_mul, Nat.one_mul]
  have := Nat.mul_le_mul_right blockSize hblock
  omega

/-- What the loop has read is the end of the file, and all of it unless it has enough newlines. -/
theorem tailLoop_spec (f : List UInt8) (n block : ℕ) (data : List UInt8) (cnt : ℕ) (hblock : 0 < block)
    (hsize : (block - 1) * blockSize ≤ f.length) (hdata : data = f.drop (f.length - (block - 1) * blockSize))
    (hcnt : cnt = data.count eol) :
    ∃ pre, f = pre ++ tailLoop f n block data cnt ∧ (pre = [] ∨ n < (tailLoop f n block data cnt).count eol) := by
  fun_induction tailLoop f n block data cnt with
  | case1 block data cnt hlt =>
    refine ⟨[], ?_, .inl rfl⟩
    have hlen : blockSize + f.length - block * blockSize = f.length - (block - 1) * blockSize := by
      rw [Nat.sub_mul, Nat.one_mul]
      have := Nat.mul_le_mul_right blockSize hblock
      omega
    rw [List.nil_append, read, List.drop_zero, hlen, hdata, List.take_append_drop]
  | case2 block data cnt hle b hmany =>
    refine ⟨f.take (f.length - block * blockSize), ?_, .inr ?_⟩
    · have hnext : b ++ data = f.drop (f.length - block * blockSize) := by
        rw [hdata, ← next_offset hblock (Nat.not_lt.mp hle)]
        exact read_append_drop f _ blockSize
      rw [hnext, List.take_append_drop]
    · rw [List.count_append, ← hcnt, Nat.add_comm]
      exact hmany
  | case3 block data cnt hle b hfew ih =>
    apply ih (Nat.succ_pos block)
    · exact Nat.not_lt.mp hle
    · rw [hdata, ← next_offset hblock (Nat.not_lt.mp hle)]
      exact read_append_drop f _ blockSize
    · rw [List.count_append, ← hcnt, Nat.add_comm]

/-! ## Lines -/

/-- The lines of a text that end with a newline, and what follows the last. -/
structure IsLines (f : List UInt8) (lines : List (List UInt8)) (rest : List UInt8) : Prop where
  eq : f = lines.flatMap (· ++ [eol]) ++ rest
  noEol : ∀ l ∈ lines, eol ∉ l
  rest_noEol : eol ∉ rest

variable {f rest : List UInt8} {lines : List (List UInt8)}

theorem IsLines.cons (h : IsLines f lines rest) {l : List UInt8} (hl : eol ∉ l) :
    IsLines (l ++ eol :: f) (l :: lines) rest where
  eq := by simp [h.eq]
  noEol := List.forall_mem_cons.mpr ⟨hl, h.noEol⟩
  rest_noEol := h.rest_noEol

theorem IsLines.of_notMem (h : eol ∉ f) : IsLines f [] f := ⟨rfl, by simp, h⟩

theorem exists_isLines (f : List UInt8) : ∃ lines rest, IsLines f lines rest := by
  induction f with
  | nil => exact ⟨[], [], .of_notMem List.not_mem_nil⟩
  | cons b f ih =>
    obtain ⟨lines, rest, h⟩ := ih
    by_cases hb : b = eol
    · rw [hb]
      exact ⟨[] :: lines, rest, h.cons List.not_mem_nil⟩
    · cases lines with
      | nil =>
        have hf : f = rest := h.eq
        refine ⟨[], b :: f, .of_notMem (List.not_mem_cons_of_ne_of_not_mem (Ne.symm hb) ?_)⟩
        rw [hf]
        exact h.rest_noEol
      | cons l lines =>
        obtain ⟨hl, hlines⟩ := List.forall_mem_cons.mp h.noEol
        refine ⟨(b :: l) :: lines, rest, ?_, ?_, h.rest_noEol⟩
        · rw [h.eq]
          rfl
        · exact List.forall_mem_cons.mpr ⟨List.not_mem_cons_of_ne_of_not_mem (Ne.symm hb) hl, hlines⟩

theorem IsLines.splitOn (h : IsLines f lines rest) : f.splitOn eol = lines ++ [rest] := by
  obtain ⟨rfl, hlines, hrest⟩ := h
  induction lines with
  | nil => exact List.splitOn_eq_singleton hrest
  | cons l lines ih =>
    obtain ⟨hl, hlines⟩ := List.forall_mem_cons.mp hlines
    have hne : ∀ x ∈ l, (x == eol) = false := by
      intro x hx
      exact beq_false_of_ne fun he => hl (he ▸ hx)
    rw [List.flatMap_cons, List.append_assoc, List.append_assoc, List.singleton_append, List.splitOn,
      List.splitOnP_append_cons_of_forall_mem hne _ (beq_self_eq_true eol)]
    exact congrArg (l :: ·) (ih hlines)

theorem IsLines.count (h : IsLines f lines rest) : f.count eol = lines.length := by
  obtain ⟨rfl, hlines, hrest⟩ := h
  rw [List.count_append, List.count_eq_zero_of_not_mem hrest, Nat.add_zero]
  induction lines with
  | nil => rfl
  | cons l lines ih =>
    obtain ⟨hl, hlines⟩ := List.forall_mem_cons.mp hlines
    rw [List.flatMap_cons, List.count_append, ih hlines, List.count_append, List.count_eq_zero_of_not_mem hl,
      List.count_singleton_self, List.length_cons]
    omega

/-- The last lines of a text are those of its end, if the end has one more. -/
theorem IsLines.append (h : IsLines f lines rest) (pre : List UInt8) {n : ℕ} (hn : n < lines.length) :
    ∃ all, IsLines (pre ++ f) all rest ∧ all.drop (all.length - n) = lines.drop (lines.length - n) := by
  obtain ⟨before, start, hpre⟩ := exists_isLines pre
  cases lines with
  | nil => exact absurd hn (Nat.not_lt_zero n)
  | cons l lines =>
    obtain ⟨hl, hlines⟩ := List.forall_mem_cons.mp h.noEol
    refine ⟨before ++ (start ++ l) :: lines, ⟨?_, ?_, h.rest_noEol⟩, ?_⟩
    · rw [hpre.eq, h.eq]
      simp
    · intro x hx
      obtain hx | hx := List.mem_append.mp hx
      · exact hpre.noEol x hx
      · obtain rfl | hx := List.mem_cons.mp hx
        · exact fun hmem => (List.mem_append.mp hmem).elim hpre.rest_noEol hl
        · exact hlines x hx
    · have hle : n ≤ lines.length := Nat.lt_succ_iff.mp hn
      have hlen : (before ++ (start ++ l) :: lines).length - n = (before ++ [start ++ l]).length + (lines.length - n) := by
        simp only [List.length_append, List.length_cons, List.length_nil]
        omega
      have hcons : (l :: lines).length - n = 1 + (lines.length - n) := by
        rw [List.length_cons]
        omega
      rw [hlen, hcons, ← List.drop_drop, ← List.drop_drop, List.drop_one, List.tail_cons,
        List.append_cons before (start ++ l) lines, List.drop_left]

/-! ## `TailFile` -/

/-- What is returned for a text of the given lines. -/
theorem IsLines.tail (h : IsLines f lines rest) (n : ℕ) :
    (if (n : ℤ) < (f.splitOn eol).length then
        ((f.splitOn eol).take ((f.splitOn eol).length - 1)).drop ((f.splitOn eol).length - n - 1)
      else (f.splitOn eol).take ((f.splitOn eol).length - 1)) = lines.drop (lines.length - n) := by
  have hlen : (lines ++ [rest]).length = lines.length + 1 := by simp
  rw [h.splitOn, hlen, Nat.add_sub_cancel, List.take_left]
  split
  · rw [show lines.length + 1 - n - 1 = lines.length - n by omega]
  · rw [show lines.length - n = 0 by omega, List.drop_zero]

/-- `TailFile` returns the last lines that end with a newline, as many as are asked for or as there
are. -/
theorem tailFile_lines (f : List UInt8) (n : ℤ) (hn : 0 < n) :
    ∃ lines rest, IsLines f lines rest ∧ tailFile f n = .ok (lines.drop (lines.length - n.toNat)) := by
  obtain ⟨pre, hf, hpre⟩ := tailLoop_spec f n.toNat 1 [] 0 Nat.one_pos (by simp) (by simp) rfl
  obtain ⟨last, rest, hlast⟩ := exists_isLines (tailLoop f n.toNat 1 [] 0)
  have htail : tailFile f n = .ok (last.drop (last.length - n.toNat)) := by
    rw [← hlast.tail, Int.toNat_of_nonneg (Int.le_of_lt hn), tailFile, if_neg (Int.not_le.mpr hn)]
    exact (apply_ite Except.ok _ _ _).symm
  obtain rfl | hmany := hpre
  · rw [List.nil_append] at hf
    refine ⟨last, rest, ?_, htail⟩
    rw [hf]
    exact hlast
  · rw [hlast.count] at hmany
    obtain ⟨all, hall, hdrop⟩ := hlast.append pre hmany
    rw [← hf] at hall
    exact ⟨all, rest, hall, htail.trans (congrArg Except.ok hdrop.symm)⟩

theorem tailFile_lines_one :
    ∃ lines rest, IsLines [0x61, 0x0A, 0x62] lines rest ∧
      tailFile [0x61, 0x0A, 0x62] 1 = .ok (lines.drop (lines.length - 1)) :=
  tailFile_lines [0x61, 0x0A, 0x62] 1 Int.one_pos

end Moby.Tailfile
