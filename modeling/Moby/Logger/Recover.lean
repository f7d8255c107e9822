import Moby.Logger.Rotate

/-!
# Rotations that fail (daemon/logger/loggerutils)

A rotation closes the log, renames the files and opens a new log. If one of these steps fails, `Write`
returns its error and the writer keeps the file that it has closed, and the size that makes a rotation
due. Every later `Write` then wants to close the file once more, which is an error
(`Handle.run_broken`). So a writer goes on after a fault if and only if the fault was in none of the
steps that it has taken (`write_recovers_iff`).
-/

namespace Moby.Logger

/-- A step of a rotation; a rename is told by the number of its target. -/
inductive Fault
  | close
  | rename (target : ℕ)
  | reopen
  deriving DecidableEq

/-- The step is one of a rotation. -/
def Fault.Hits (maxFiles : ℕ) : Fault → Prop
  | .rename target => 1 ≤ target ∧ target < maxFiles
  | _ => True

/-- The loop of `rotate` up to the rename that fails, and whether none does. -/
def shiftUntil (fault : Option Fault) : ℕ → Files → Files × Bool
  | 0, files => (files, true)
  | 1, files => (files, true)
  | i + 2, files =>
    if fault = some (.rename (i + 2)) then (files, false) else shiftUntil fault (i + 1) (rename files (i + 1) (i + 2))

def rotateUntil (fault : Option Fault) (maxFiles : ℕ) (files : Files) : Files × Bool :=
  if maxFiles < 2 then (files, true)
  else
    let r := shiftUntil fault (maxFiles - 1) files
    if r.2 = false then r else if fault = some (.rename 1) then (r.1, false) else (rename r.1 0 1, true)

/-- A rotation is due. -/
def RotateFileWriter.Due (w : RotateFileWriter) : Prop := w.capacity ≠ -1 ∧ w.capacity ≤ w.size

instance (w : RotateFileWriter) : Decidable w.Due := inferInstanceAs (Decidable (_ ∧ _))

/-- A writer, and whether its file is open. `Close` marks the file as closed even if it fails. -/
structure Handle where
  writer : RotateFileWriter
  isOpen : Bool

namespace Handle

/-- `checkCapacityAndRotate`, where at most one step fails. -/
def checkCapacityAndRotate (h : Handle) (fault : Option Fault) : Handle × Bool :=
  if h.writer.Due then
    if h.isOpen = false ∨ fault = some .close then ({ h with isOpen := false }, false)
    else
      let r := rotateUntil fault h.writer.maxFiles h.writer.files
      if r.2 = false ∨ fault = some .reopen then ({ writer := { h.writer with files := r.1 }, isOpen := false }, false)
      else ({ h with writer := { h.writer with size := 0, files := Function.update r.1 0 (some []) } }, true)
  else (h, true)

/-- A file that is not open cannot be written to. -/
def write (h : Handle) (fault : Option Fault) (message : Message) : Handle × Bool :=
  let r := h.checkCapacityAndRotate fault
  if r.2 = false ∨ r.1.isOpen = false then (r.1, false)
  else ({ r.1 with writer := r.1.writer.append message }, true)

/-- Writes without faults. -/
def run (h : Handle) (messages : List Message) : Handle := messages.foldl (fun h message => (h.write none message).1) h

end Handle

/-! ## Which rotations fail -/

theorem shiftUntil_ok (fault : Option Fault) (i : ℕ) (files : Files) :
    (shiftUntil fault i files).2 = true ↔ ¬ ∃ target, fault = some (.rename target) ∧ 1 < target ∧ target ≤ i := by
  induction i generalizing files with
  | zero =>
    refine ⟨fun _ => ?_, fun _ => rfl⟩
    rintro ⟨target, -, hlt, hle⟩
    omega
  | succ i ih =>
    cases i with
    | zero =>
      refine ⟨fun _ => ?_, fun _ => rfl⟩
      rintro ⟨target, -, hlt, hle⟩
      omega
    | succ i =>
      rw [shiftUntil]
      by_cases hfault : fault = some (.rename (i + 2))
      · rw [if_pos hfault]
        exact ⟨fun h => absurd h Bool.false_ne_true, fun h => absurd ⟨i + 2, hfault, by omega, by omega⟩ h⟩
      · rw [if_neg hfault, ih]
        refine not_congr ⟨?_, ?_⟩
        · rintro ⟨target, ht, hlt, hle⟩
          exact ⟨target, ht, hlt, by omega⟩
        · rintro ⟨target, ht, hlt, hle⟩
          have hne : target ≠ i + 2 := fun he => hfault (he ▸ ht)
          exact ⟨target, ht, hlt, by omega⟩

theorem rotateUntil_ok (fault : Option Fault) (maxFiles : ℕ) (files : Files) :
    (rotateUntil fault maxFiles files).2 = true ↔
      ¬ ∃ target, fault = some (.rename target) ∧ 1 ≤ target ∧ target < maxFiles := by
  have hshift := shiftUntil_ok fault (maxFiles - 1) files
  rw [rotateUntil]
  by_cases hmax : maxFiles < 2
  · rw [if_pos hmax]
    refine ⟨fun _ => ?_, fun _ => rfl⟩
    rintro ⟨target, -, hle, hlt⟩
    omega
  · rw [if_neg hmax]
    by_cases hok : (shiftUntil fault (maxFiles - 1) files).2 = true
    · dsimp only
      rw [if_neg (by simp [hok])]
      have hnone := hshift.mp hok
      by_cases hone : fault = some (.rename 1)
      · rw [if_pos hone]
        exact ⟨fun h => absurd h Bool.false_ne_true, fun h => absurd ⟨1, hone, by omega, by omega⟩ h⟩
      · rw [if_neg hone]
        refine ⟨fun _ => ?_, fun _ => rfl⟩
        rintro ⟨target, ht, hle, hlt⟩
        have hne : target ≠ 1 := fun he => hone (he ▸ ht)
        exact hnone ⟨target, ht, by omega, by omega⟩
    · dsimp only
      rw [if_pos (Bool.eq_false_iff.mpr hok)]
      refine ⟨fun h => absurd h hok, fun h => absurd ?_ hok⟩
      refine hshift.mpr fun hex => h ?_
      obtain ⟨target, ht, hlt, hle⟩ := hex
      exact ⟨target, ht, by omega, by omega⟩

theorem shiftUntil_none (i : ℕ) (files : Files) : shiftUntil none i files = (shift i files, true) := by
  induction i generalizing files with
  | zero => rfl
  | succ i ih =>
    cases i with
    | zero => rfl
    | succ i => exact ih _

theorem rotateUntil_none (maxFiles : ℕ) (files : Files) : rotateUntil none maxFiles files = (rotate maxFiles files, true) := by
  rw [rotateUntil, rotate, shiftUntil_none]
  split <;> rfl

namespace Handle

variable {h : Handle} {fault : Option Fault} {message : Message}

/-- A rotation of a file that is open fails exactly if one of its steps does. -/
theorem checkCapacityAndRotate_ok (hopen : h.isOpen = true) :
    (h.checkCapacityAndRotate fault).2 = true ↔ ¬ (h.writer.Due ∧ ∃ f ∈ fault, f.Hits h.writer.maxFiles) := by
  rw [checkCapacityAndRotate]
  by_cases hdue : h.writer.Due
  · rw [if_pos hdue, hopen]
    have hrotate := rotateUntil_ok fault h.writer.maxFiles h.writer.files
    cases hf : fault with
    | none =>
      rw [hf] at hrotate
      have hok : (rotateUntil none h.writer.maxFiles h.writer.files).2 = true := hrotate.mpr (by simp)
      simp [hok]
    | some f =>
      rw [hf] at hrotate
      cases f with
      | close => simp [Fault.Hits, hdue]
      | reopen => simp [Fault.Hits, hdue]
      | rename target =>
        have hhits : (∃ t, some (Fault.rename target) = some (.rename t) ∧ 1 ≤ t ∧ t < h.writer.maxFiles) ↔
            1 ≤ target ∧ target < h.writer.maxFiles := by
          constructor
          · rintro ⟨t, ⟨⟩, ht⟩
            exact ht
          · exact fun ht => ⟨target, rfl, ht⟩
        rw [hhits] at hrotate
        by_cases hok : (rotateUntil (some (.rename target)) h.writer.maxFiles h.writer.files).2 = true
        · simpa [hok, hdue, Fault.Hits] using hrotate.mp hok
        · have hnot := not_not.mp (fun hn => hok (hrotate.mpr hn))
          simp [hok, hdue, Fault.Hits, hnot]
  · rw [if_neg hdue]
    exact ⟨fun _ hd => hdue hd.1, fun _ => rfl⟩

/-- The file is open, and it is the log. -/
structure Working (h : Handle) : Prop where
  isOpen : h.isOpen = true
  log : (h.writer.files 0).isSome

/-- The file is closed, and a rotation is due. -/
structure Broken (h : Handle) : Prop where
  isOpen : h.isOpen = false
  due : h.writer.Due

/-- The file is open afterwards, or the writer is broken. -/
theorem checkCapacityAndRotate_cases (hopen : h.isOpen = true) :
    ((h.checkCapacityAndRotate fault).2 = true ∧ (h.checkCapacityAndRotate fault).1.isOpen = true ∧
      ((h.writer.files 0).isSome → ((h.checkCapacityAndRotate fault).1.writer.files 0).isSome)) ∨
    ((h.checkCapacityAndRotate fault).2 = false ∧ (h.checkCapacityAndRotate fault).1.Broken) := by
  rw [checkCapacityAndRotate]
  by_cases hdue : h.writer.Due
  · rw [if_pos hdue]
    by_cases hclose : h.isOpen = false ∨ fault = some .close
    · rw [if_pos hclose]
      exact .inr ⟨rfl, rfl, hdue⟩
    · rw [if_neg hclose]
      dsimp only
      by_cases hfail : (rotateUntil fault h.writer.maxFiles h.writer.files).2 = false ∨ fault = some .reopen
      · rw [if_pos hfail]
        exact .inr ⟨rfl, rfl, hdue⟩
      · rw [if_neg hfail]
        exact .inl ⟨rfl, hopen, fun _ => rfl⟩
  · rw [if_neg hdue]
    exact .inl ⟨rfl, hopen, id⟩

theorem write_ok (hopen : h.isOpen = true) :
    (h.write fault message).2 = true ↔ ¬ (h.writer.Due ∧ ∃ f ∈ fault, f.Hits h.writer.maxFiles) := by
  rw [← checkCapacityAndRotate_ok hopen, write]
  rcases @checkCapacityAndRotate_cases h fault hopen with ⟨hok, hopen', -⟩ | ⟨hok, -⟩ <;> simp [*]

/-! ## Later writes -/

theorem Working.check (hw : h.Working) (hok : (h.checkCapacityAndRotate fault).2 = true) :
    (h.checkCapacityAndRotate fault).1.Working := by
  rcases @checkCapacityAndRotate_cases h fault hw.isOpen with ⟨-, hopen, hlog⟩ | ⟨hfail, -⟩
  · exact ⟨hopen, hlog hw.log⟩
  · exact absurd (hok.symm.trans hfail) (by decide)

/-- A write that succeeds leaves the message at the end of the log. -/
theorem Working.write (hw : h.Working) (hok : (h.write fault message).2 = true) :
    (h.write fault message).1.Working ∧ ∃ log, (h.write fault message).1.writer.files 0 = some (log ++ message) := by
  have hcheck : (h.checkCapacityAndRotate fault).2 = true :=
    (checkCapacityAndRotate_ok hw.isOpen).mpr ((write_ok hw.isOpen).mp hok)
  have hw' := hw.check hcheck
  obtain ⟨log, hlog⟩ := Option.isSome_iff_exists.mp hw'.log
  have hwrite : h.write fault message =
      ({ (h.checkCapacityAndRotate fault).1 with writer := (h.checkCapacityAndRotate fault).1.writer.append message }, true) := by
    rw [Handle.write]
    exact if_neg (by simp [hcheck, hw'.isOpen])
  have hfiles : (h.write fault message).1.writer.files 0 = some (log ++ message) := by
    rw [hwrite]
    simp [RotateFileWriter.append, hlog]
  refine ⟨⟨?_, by rw [hfiles]; rfl⟩, log, hfiles⟩
  rw [hwrite]
  exact hw'.isOpen

/-- Without a fault the writer does what it is for. -/
theorem write_eq (hopen : h.isOpen = true) (message : Message) :
    h.write none message = ({ h with writer := h.writer.write message }, true) := by
  have hcheck : h.checkCapacityAndRotate none = ({ h with writer := h.writer.checkCapacityAndRotate }, true) := by
    rw [checkCapacityAndRotate, rotateUntil_none, hopen, RotateFileWriter.checkCapacityAndRotate]
    by_cases hcap : h.writer.capacity = -1
    · rw [if_neg (fun hdue => hdue.1 hcap), if_pos hcap, ← hopen]
    · rw [if_neg hcap]
      by_cases hsize : h.writer.capacity ≤ h.writer.size
      · rw [if_pos ⟨hcap, hsize⟩, if_pos hsize]
        rfl
      · rw [if_neg (fun hdue => hsize hdue.2), if_neg hsize, ← hopen]
  rw [Handle.write, hcheck]
  dsimp only
  rw [if_neg (by simp [hopen])]
  rfl

theorem Working.write_none (hw : h.Working) : (h.write none message).2 = true :=
  (write_ok hw.isOpen).mpr (by simp)

theorem Working.run (hw : h.Working) (messages : List Message) : (h.run messages).Working := by
  induction messages generalizing h with
  | nil => exact hw
  | cons message messages ih => exact ih (hw.write hw.write_none).1

/-- A rotation that fails leaves a closed file. -/
theorem broken_of_write (hopen : h.isOpen = true) (hok : (h.write fault message).2 = false) :
    (h.write fault message).1.Broken := by
  rcases @checkCapacityAndRotate_cases h fault hopen with ⟨hcheck, -⟩ | ⟨hcheck, hb⟩
  · rw [checkCapacityAndRotate_ok hopen, ← @write_ok h fault message hopen, hok] at hcheck
    cases hcheck
  · have hwrite : h.write fault message = ((h.checkCapacityAndRotate fault).1, false) := if_pos (.inl hcheck)
    rw [hwrite]
    exact hb

theorem Broken.write (hb : h.Broken) : h.write none message = (h, false) := by
  have hcheck : h.checkCapacityAndRotate none = (h, false) := by
    rw [checkCapacityAndRotate, if_pos hb.due, if_pos (.inl hb.isOpen), ← hb.isOpen]
  rw [Handle.write, hcheck]
  rfl

theorem run_broken (hb : h.Broken) (messages : List Message) : h.run messages = h := by
  induction messages with
  | nil => rfl
  | cons message messages ih =>
    rw [run, List.foldl_cons, hb.write]
    exact ih

end Handle

open Handle in
/-- After a fault every later write succeeds and is found in the log if and only if the fault was in
no step that was taken: no rotation was due, or the rotation has no such step. -/
theorem write_recovers_iff {h : Handle} (hw : h.Working) (fault : Option Fault) (message : Message) :
    (∀ earlier next, (((h.write fault message).1.run earlier).write none next).2 = true ∧
      ∃ log, (((h.write fault message).1.run earlier).write none next).1.writer.files 0 = some (log ++ next)) ↔
      ¬ (h.writer.Due ∧ ∃ f ∈ fault, f.Hits h.writer.maxFiles) := by
  rw [← @write_ok h fault message hw.isOpen]
  constructor
  · intro hlater
    by_contra hnot
    have hb := broken_of_write hw.isOpen (Bool.eq_false_iff.mpr hnot)
    have hnext := (hlater [] []).1
    rw [run_broken hb, hb.write] at hnext
    cases hnext
  · intro hok earlier next
    have hrun := (hw.write hok).1.run earlier
    exact ⟨hrun.write_none, (hrun.write hrun.write_none).2⟩

/-- A fault where no rotation is due. -/
theorem write_recovers_new : (Handle.mk (.new 100 3) true).Working ∧ ∀ earlier next,
    ((((Handle.mk (.new 100 3) true).write (some (.rename 2)) [1]).1.run earlier).write none next).2 = true ∧
      ∃ log, ((((Handle.mk (.new 100 3) true).write (some (.rename 2)) [1]).1.run earlier).write none next).1.writer.files 0 =
        some (log ++ next) :=
  ⟨⟨rfl, rfl⟩, (write_recovers_iff ⟨rfl, rfl⟩ _ _).mpr fun hdue => absurd hdue.1 (by decide)⟩

/-- The log has reached its capacity and cannot be renamed once: nothing is written any more. -/
theorem write_disabled :
    ((Handle.mk (.new 2 2) true).write none [1, 2]).2 = true ∧
    (((Handle.mk (.new 2 2) true).write none [1, 2]).1.write (some (.rename 1)) [3]).2 = false ∧
    ((((Handle.mk (.new 2 2) true).write none [1, 2]).1.write (some (.rename 1)) [3]).1.write none [4]).2 = false := by
  decide

end Moby.Logger
