import Mathlib.Data.Int.Notation
import Mathlib.Data.List.Induction
import Mathlib.Logic.Function.Basic

/-!
# Log files that are rotated (daemon/logger/loggerutils)

A `RotateFileWriter` writes its messages to one file until the file has reached a
capacity. Then it renames `log.(i-1)` to `log.i`, from the oldest file on, and `log` to
`log.1`, and goes on with an empty file. With one file it only empties it.
-/

namespace Moby.Logger

/-- A message, as it is written. -/
abbrev Message := List UInt8

/-- The contents of the files. -/
abbrev Files := ℕ → Option (List UInt8)

/-- `os.Rename`, where a file that does not exist is not an error. -/
def rename (files : Files) (source target : ℕ) : Files :=
  match files source with
  | none => files
  | some content => Function.update (Function.update files target (some content)) source none

/-- The loop of `rotate`, from `i` down to 2. -/
def shift : ℕ → Files → Files
  | 0, files => files
  | 1, files => files
  | i + 2, files => shift (i + 1) (rename files (i + 1) (i + 2))

def rotate (maxFiles : ℕ) (files : Files) : Files :=
  if maxFiles < 2 then files else rename (shift (maxFiles - 1) files) 0 1

/-- `size` is the `currentSize`. -/
structure RotateFileWriter where
  capacity : ℤ
  size : ℤ
  maxFiles : ℕ
  files : Files

namespace RotateFileWriter

/-- A writer whose log does not exist yet. -/
def new (capacity : ℤ) (maxFiles : ℕ) : RotateFileWriter :=
  { capacity := capacity, size := 0, maxFiles := maxFiles, files := Function.update (fun _ => none) 0 (some []) }

def checkCapacityAndRotate (w : RotateFileWriter) : RotateFileWriter :=
  if w.capacity = -1 then w
  else if w.capacity ≤ w.size then
    { w with size := 0, files := Function.update (rotate w.maxFiles w.files) 0 (some []) }
  else w

/-- `w.f.Write`, which appends to the open file. -/
def append (w : RotateFileWriter) (message : Message) : RotateFileWriter :=
  { w with
    size := w.size + message.length
    files := Function.update w.files 0 ((w.files 0).map (· ++ message)) }

def write (w : RotateFileWriter) (message : Message) : RotateFileWriter := w.checkCapacityAndRotate.append message

/-- `log.(maxFiles-1)`, ..., `log.1`, `log`, those that exist. -/
def contents (w : RotateFileWriter) : List UInt8 :=
  ((List.range w.maxFiles).reverse.map fun i => (w.files i).getD []).flatten

end RotateFileWriter

/-! ## The chain of renames -/

section

variable {files : Files} {i j : ℕ}

theorem rename_apply (hgap : files i = none → files j = none) (k : ℕ) :
    rename files i j k = if k = i then none else if k = j then files i else files k := by
  rw [rename]
  cases hi : files i with
  | none =>
    show files k = _
    split_ifs with hk hk'
    · rw [hk, hi]
    · rw [hk', hgap hi]
    · rfl
  | some content =>
    show Function.update (Function.update files j (some content)) i none k = _
    split_ifs with hk hk'
    · rw [hk, Function.update_self]
    · rw [Function.update_of_ne hk, hk', Function.update_self]
    · rw [Function.update_of_ne hk, Function.update_of_ne hk']

/-- The files from 1 on move up by one. -/
theorem shift_apply (hgap : ∀ k < j, files k = none → files (k + 1) = none) (k : ℕ) :
    shift j files k = if k = 1 ∧ 1 < j then none else if 1 < k ∧ k ≤ j then files (k - 1) else files k := by
  induction j generalizing files with
  | zero =>
    rw [shift, if_neg (by omega), if_neg (by omega)]
  | succ j ih =>
    cases j with
    | zero =>
      rw [shift, if_neg (by omega), if_neg (by omega)]
    | succ j =>
      have hrename : ∀ k, rename files (j + 1) (j + 2) k = _ := rename_apply (hgap (j + 1) (by omega))
      have hgap' (k : ℕ) (hk : k < j + 1) (hnone : rename files (j + 1) (j + 2) k = none) :
          rename files (j + 1) (j + 2) (k + 1) = none := by
        rw [hrename, if_neg (by omega), if_neg (by omega)] at hnone
        rw [hrename]
        split_ifs with hlast
        · rfl
        · omega
        · exact hgap k (by omega) hnone
      rw [shift, ih hgap', hrename, hrename]
      split_ifs <;> first | rfl | omega | exact congrArg files (by omega)

/-- A rotation, where the log exists and there is no gap before the last file. -/
theorem rotate_apply {maxFiles : ℕ} (hmax : 1 ≤ maxFiles) (hlog : files 0 ≠ none)
    (hgap : ∀ k, files k = none → files (k + 1) = none) (k : ℕ) :
    Function.update (rotate maxFiles files) 0 (some []) k =
      if k = 0 then some [] else if k < maxFiles then files (k - 1) else files k := by
  by_cases hk : k = 0
  · rw [hk, Function.update_self, if_pos rfl]
  rw [Function.update_of_ne hk, if_neg hk, rotate]
  split_ifs with hone hlt hlt
  · omega
  · rfl
  all_goals
    have hshift : ∀ k, shift (maxFiles - 1) files k = _ := shift_apply fun k _ => hgap k
    have hzero : shift (maxFiles - 1) files 0 = files 0 := by
      rw [hshift, if_neg (by omega), if_neg (by omega)]
    rw [rename_apply (fun hx => absurd (hzero.symm.trans hx) hlog), if_neg hk]
  · by_cases hfirst : k = 1
    · rw [if_pos hfirst, hzero, hfirst]
    · rw [if_neg hfirst, hshift, if_neg (by omega), if_pos (by omega)]
  · rw [if_neg (by omega), hshift, if_neg (by omega), if_neg (by omega)]

end

/-! ## What is kept -/

/-- The messages that a file holds: it was below the capacity before the last one. -/
def Fits (capacity : ℤ) (block : List Message) : Prop :=
  ∃ last, block.getLast? = some last ∧ (block.flatten.length : ℤ) < capacity + last.length

/-- What has been written but for the first `k` messages is in the files, from the oldest
to the newest, and each file holds whole messages. -/
structure Kept (w : RotateFileWriter) (written : List Message) (k : ℕ) (blocks : List (List Message)) : Prop where
  suffix : blocks.flatten = written.drop k
  files : ∀ i, w.files i = (blocks.reverse[i]?).map List.flatten
  few : blocks.length ≤ w.maxFiles
  fits : ∀ b ∈ blocks, Fits w.capacity b

/-- The same, while a file may have been opened and not written to. -/
structure Inv (w : RotateFileWriter) (written : List Message) (old : List (List Message)) (recent : List Message) : Prop where
  capacity : 0 < w.capacity
  maxFiles : old.length < w.maxFiles
  suffix : ∃ k ≤ written.length, (old ++ [recent]).flatten = written.drop k
  files : ∀ i, w.files i = ((old ++ [recent]).reverse[i]?).map List.flatten
  size : w.size = recent.flatten.length
  old : ∀ b ∈ old, Fits w.capacity b
  recent : recent ≠ [] → Fits w.capacity recent

namespace Inv

variable {w : RotateFileWriter} {written : List Message} {old : List (List Message)} {recent : List Message}
  (h : Inv w written old recent)

include h

theorem append (hsize : w.size < w.capacity) (message : Message) :
    Inv (w.append message) (written ++ [message]) old (recent ++ [message]) := by
  have hfits : Fits w.capacity (recent ++ [message]) := by
    refine ⟨message, List.getLast?_concat, ?_⟩
    have hs := h.size
    simp only [List.flatten_append, List.flatten_singleton, List.length_append]
    omega
  constructor
  case capacity => exact h.capacity
  case maxFiles => exact h.maxFiles
  case suffix =>
    obtain ⟨k, hk, hsuffix⟩ := h.suffix
    refine ⟨k, by simp; omega, ?_⟩
    rw [List.drop_append_of_le_length hk, ← hsuffix]
    simp
  case files =>
    intro i
    show Function.update w.files 0 _ i = _
    have hf := h.files
    cases i with
    | zero => simp [hf]
    | succ i =>
      rw [Function.update_of_ne (Nat.succ_ne_zero i), hf]
      simp
  case size =>
    show w.size + message.length = _
    rw [h.size]
    simp
  case old => exact h.old
  case recent => exact fun _ => hfits

/-- The newest files are kept, one less than there may be. -/
theorem rotate (hsize : w.capacity ≤ w.size) :
    Inv w.checkCapacityAndRotate written ((old ++ [recent]).drop (old.length + 2 - w.maxFiles)) [] := by
  have hmax := h.maxFiles
  have hcapacity := h.capacity
  have hrotate : w.checkCapacityAndRotate =
      { w with size := 0, files := Function.update (Logger.rotate w.maxFiles w.files) 0 (some []) } := by
    rw [RotateFileWriter.checkCapacityAndRotate, if_neg (by omega), if_pos hsize]
  have hrecent : recent ≠ [] := by
    rintro rfl
    have hs := h.size
    simp at hs
    omega
  have hlength : (old ++ [recent]).reverse.length = old.length + 1 := by simp
  rw [hrotate]
  constructor
  case capacity => exact h.capacity
  case maxFiles =>
    show _ < w.maxFiles
    simp
    omega
  case suffix =>
    obtain ⟨k, hk, hsuffix⟩ := h.suffix
    have hsplit := congrArg List.flatten (List.take_append_drop (old.length + 2 - w.maxFiles) (old ++ [recent]))
    rw [List.flatten_append, hsuffix] at hsplit
    refine ⟨k + ((old ++ [recent]).take (old.length + 2 - w.maxFiles)).flatten.length, ?_, ?_⟩
    · have hlen := congrArg List.length hsplit
      rw [List.length_append, List.length_drop] at hlen
      omega
    · rw [← List.drop_drop, ← hsplit, List.drop_left, List.flatten_append, List.flatten_singleton, List.append_nil]
  case files =>
    have hfiles (i : ℕ) : w.files i = none ↔ old.length + 1 ≤ i := by
      rw [h.files i, Option.map_eq_none_iff, List.getElem?_eq_none_iff, hlength]
    have hlog : w.files 0 ≠ none := fun hx => by
      have hle := (hfiles 0).mp hx
      omega
    have hgap (k : ℕ) (hk : w.files k = none) : w.files (k + 1) = none := by
      rw [hfiles] at hk ⊢
      omega
    intro i
    show Function.update (Logger.rotate w.maxFiles w.files) 0 (some []) i = _
    rw [rotate_apply (by omega) hlog hgap, List.reverse_append, List.reverse_drop, List.reverse_singleton]
    cases i with
    | zero => rfl
    | succ i =>
      rw [if_neg (Nat.succ_ne_zero i), List.singleton_append, List.getElem?_cons_succ, List.getElem?_take]
      show (if i + 1 < w.maxFiles then w.files i else w.files (i + 1)) = _
      simp only [List.length_append, List.length_singleton]
      split_ifs with hlt hkeep hkeep
      · exact h.files i
      · exact (hfiles i).mpr (by omega)
      · omega
      · exact (hfiles (i + 1)).mpr (by omega)
  case size => rfl
  case old =>
    intro b hb
    rcases List.mem_append.mp (List.mem_of_mem_drop hb) with hb | hb
    · exact h.old b hb
    · rw [List.mem_singleton.mp hb]
      exact h.recent hrecent
  case recent => exact fun hx => absurd rfl hx

end Inv

namespace RotateFileWriter

theorem write_limits (w : RotateFileWriter) (message : Message) :
    (w.write message).capacity = w.capacity ∧ (w.write message).maxFiles = w.maxFiles := by
  rw [write, append, checkCapacityAndRotate]
  split_ifs <;> exact ⟨rfl, rfl⟩

theorem foldl_write_limits (w : RotateFileWriter) (messages : List Message) :
    (messages.foldl write w).capacity = w.capacity ∧ (messages.foldl write w).maxFiles = w.maxFiles := by
  induction messages generalizing w with
  | nil => exact ⟨rfl, rfl⟩
  | cons message messages ih =>
    obtain ⟨hcapacity, hmax⟩ := write_limits w message
    rw [List.foldl_cons, (ih _).1, (ih _).2]
    exact ⟨hcapacity, hmax⟩

variable {w : RotateFileWriter} {written : List Message} {old : List (List Message)} {recent : List Message}

theorem write_inv (h : Inv w written old recent) (message : Message) :
    ∃ old' recent', Inv (w.write message) (written ++ [message]) old' (recent' ++ [message]) := by
  by_cases hsize : w.capacity ≤ w.size
  · have hr := h.rotate hsize
    exact ⟨_, _, hr.append (hr.size ▸ hr.capacity) message⟩
  · have hcheck : w.checkCapacityAndRotate = w := by
      rw [checkCapacityAndRotate, if_neg hsize, ite_self]
    rw [write, hcheck]
    exact ⟨_, _, h.append (Int.not_le.mp hsize) message⟩

theorem inv_new {capacity : ℤ} {maxFiles : ℕ} (hcapacity : 0 < capacity) (hmax : 1 ≤ maxFiles) :
    Inv (new capacity maxFiles) [] [] [] := by
  constructor
  case capacity => exact hcapacity
  case maxFiles => exact hmax
  case suffix => exact ⟨0, Nat.le_refl _, rfl⟩
  case files =>
    intro i
    cases i with
    | zero => rfl
    | succ i => rfl
  case size => rfl
  case old => exact fun b hb => nomatch hb
  case recent => exact fun hx => absurd rfl hx

/-- After any number of messages. -/
theorem foldl_write_inv {capacity : ℤ} {maxFiles : ℕ} (hcapacity : 0 < capacity) (hmax : 1 ≤ maxFiles)
    (messages : List Message) : ∃ old recent, Inv (messages.foldl write (new capacity maxFiles)) messages old recent := by
  induction messages using List.reverseRecOn with
  | nil => exact ⟨[], [], inv_new hcapacity hmax⟩
  | append_singleton messages message ih =>
    obtain ⟨old, recent, h⟩ := ih
    rw [List.foldl_append]
    obtain ⟨old', recent', h'⟩ := write_inv h message
    exact ⟨old', recent' ++ [message], h'⟩

end RotateFileWriter

/-- The entries up to `n`, and nothing behind the last. -/
theorem map_range_getD {α : Type} {l : List (List α)} {n : ℕ} (h : l.length ≤ n) :
    ((List.range n).map fun i => l[i]?.getD []) = l ++ List.replicate (n - l.length) [] := by
  refine List.ext_getElem (by simp; omega) fun i hi hi' => ?_
  rw [List.getElem_map, List.getElem_range, List.getElem_append]
  split_ifs with hlt
  · rw [List.getElem?_eq_getElem hlt, Option.getD_some]
  · rw [List.getElem?_eq_none (Nat.not_lt.mp hlt), Option.getD_none, List.getElem_replicate]

/-- The files that exist, in the order of the messages. -/
theorem Kept.contents {w : RotateFileWriter} {written : List Message} {blocks : List (List Message)} {k : ℕ}
    (h : Kept w written k blocks) : w.contents = (written.drop k).flatten := by
  have hfiles : (fun i => (w.files i).getD []) = fun i => (blocks.reverse.map List.flatten)[i]?.getD [] := by
    funext i
    rw [h.files i, List.getElem?_map]
  have hfew : (blocks.reverse.map List.flatten).length ≤ w.maxFiles := by
    rw [List.length_map, List.length_reverse]
    exact h.few
  calc w.contents
      = ((List.range w.maxFiles).map fun i => (w.files i).getD []).reverse.flatten := by
        rw [RotateFileWriter.contents, List.map_reverse]
    _ = (blocks.reverse.map List.flatten).reverse.flatten := by
        rw [hfiles, map_range_getD hfew, List.reverse_append, List.reverse_replicate, List.flatten_append,
          List.flatten_replicate_nil, List.nil_append]
    _ = blocks.flatten.flatten := by
        rw [← List.map_reverse, List.reverse_reverse, List.flatten_flatten]
    _ = (written.drop k).flatten := by rw [h.suffix]

/-- After each `Write`: the files hold the messages from one of them on to the last, no
message is in two files, there are no more than `maxFiles`, and each was below the
capacity before its last message. -/
theorem write_kept {capacity : ℤ} {maxFiles : ℕ} (hcapacity : 0 < capacity) (hmax : 1 ≤ maxFiles)
    (messages : List Message) (message : Message) {w : RotateFileWriter}
    (hw : (messages ++ [message]).foldl .write (.new capacity maxFiles) = w) :
    (w.capacity = capacity ∧ w.maxFiles = maxFiles) ∧
    ∃ k ≤ messages.length, w.contents = ((messages ++ [message]).drop k).flatten ∧
      ∃ blocks, Kept w (messages ++ [message]) k blocks := by
  refine ⟨hw ▸ RotateFileWriter.foldl_write_limits _ _, ?_⟩
  obtain ⟨old, recent, h⟩ := RotateFileWriter.foldl_write_inv hcapacity hmax messages
  obtain ⟨old', recent', h'⟩ := RotateFileWriter.write_inv h message
  rw [List.foldl_append] at hw
  rw [show RotateFileWriter.write _ message = w from hw] at h'
  obtain ⟨k, hk, hsuffix⟩ := h'.suffix
  have hkept : Kept w (messages ++ [message]) k (old' ++ [recent' ++ [message]]) := by
    constructor
    case suffix => exact hsuffix
    case files => exact h'.files
    case few =>
      rw [List.length_append]
      exact h'.maxFiles
    case fits =>
      intro b hb
      rcases List.mem_append.mp hb with hb | hb
      · exact h'.old b hb
      · rw [List.mem_singleton.mp hb]
        exact h'.recent (List.append_ne_nil_of_right_ne_nil _ (List.cons_ne_nil _ _))
  refine ⟨k, ?_, hkept.contents, _, hkept⟩
  -- the last message is in the last file
  by_contra hlt
  have hempty := hsuffix.trans (List.drop_eq_nil_of_le (by simp; omega))
  simp at hempty

/-- Three messages, two files, and the first message is gone. -/
theorem write_kept_three : ∃ w : RotateFileWriter, [[1, 2], [3, 4], [5]].foldl .write (.new 2 2) = w ∧
    (w.files 0 = some [5] ∧ w.files 1 = some [3, 4] ∧ w.files 2 = none) ∧
    ∃ k ≤ 2, w.contents = ([[1, 2], [3, 4], [5]].drop k).flatten ∧ ∃ blocks, Kept w [[1, 2], [3, 4], [5]] k blocks :=
  ⟨_, rfl, by decide, (write_kept (by decide) (by decide) [[1, 2], [3, 4]] [5] rfl).2⟩

end Moby.Logger
