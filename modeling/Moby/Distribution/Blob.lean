import Moby.Framework.Machine
import Mathlib.Data.Nat.Init

/-!
# The download of a blob

`v2LayerDescriptor.Download` of `distribution/pull_v2.go`: a blob is copied
into a temporary file and hashed on the way; if the connection breaks, the
next attempt goes on at the end of the file, with the hash as it was. An
`Attempt` is what the registry and the file system do in one call of
`Download`; a `Descriptor` is what is kept from one call to the next.
-/

namespace Moby.Distribution

open Framework

abbrev Bytes := List UInt8

/-! ## The temporary file -/

/-- A file that is open at the place `pos`. -/
structure File where
  content : Bytes
  pos : ℕ
  pos_le : pos ≤ content.length

namespace File

/-- An empty file. -/
def new : File := ⟨[], 0, Nat.zero_le 0⟩

/-- Bytes are written at the place where the file is open. -/
def write (f : File) (bs : Bytes) : File where
  content := f.content.take f.pos ++ bs ++ f.content.drop (f.pos + bs.length)
  pos := f.pos + bs.length
  pos_le := by
    have := f.pos_le
    simp only [List.length_append, List.length_take, List.length_drop]
    omega

def seekStart (f : File) : File := { f with pos := 0, pos_le := Nat.zero_le _ }

def seekEnd (f : File) : File := { f with pos := f.content.length, pos_le := le_refl _ }

/-- `Truncate(0)`, of a file that is open at its start. -/
def truncate (_ : File) : File := new

theorem write_content {f : File} (h : f.pos = f.content.length) (bs : Bytes) :
    (f.write bs).content = f.content ++ bs := by
  simp [write, h]

theorem write_pos {f : File} (h : f.pos = f.content.length) (bs : Bytes) :
    (f.write bs).pos = (f.write bs).content.length := by
  simp [write, h]

end File

/-! ## What happens in an attempt -/

/-- What the registry sends and what becomes of it. A chunk is read, hashed
and then written to the file; a write that fails has written its first bytes.
`doNotRetry` is what `retryOnError` says of an error. -/
inductive Stream
  | eof
  /-- `ErrWrongCodeForByteRange` -/
  | wrongRange
  | readFails (doNotRetry : Bool)
  | chunk (bs : Bytes) (rest : Stream)
  | writeFails (bs : Bytes) (written : ℕ) (doNotRetry : Bool)

/-- The result of `ld.open`. -/
inductive Opened
  | ok
  | blobUnknown
  | fails (doNotRetry : Bool)
  deriving DecidableEq

structure Attempt where
  /-- `ld.tmpFile.Seek(0, os.SEEK_END)` succeeds. -/
  seekEnd : Bool := true
  /-- `createDownloadFile` succeeds. -/
  create : Bool := true
  opened : Opened := .ok
  /-- `layerDownload.Seek(offset, os.SEEK_SET)`, before and after the size is asked for. -/
  seekOffset : Bool := true
  seekBack : Bool := true
  /-- The result of `layerDownload.Seek(0, os.SEEK_END)`, if it has one. -/
  size : Option ℤ := none
  stream : Stream
  /-- The two steps of `truncateDownloadFile` succeed. -/
  seekStart : Bool := true
  truncate : Bool := true
  /-- `tmpFile.Seek(0, os.SEEK_SET)` succeeds, at the end. -/
  rewind : Bool := true

inductive Cause
  | create
  | opens
  | seeks
  | truncates
  | digest
  | copies
  | verification
  | rewinds
  deriving DecidableEq

structure DownloadErr where
  cause : Cause
  doNotRetry : Bool
  deriving DecidableEq

/-- The fields of `v2LayerDescriptor` that `Download` changes: the temporary
file, and the bytes that the verifier has hashed. -/
structure Descriptor where
  tmpFile : Option File := none
  verifier : Option Bytes := none

/-- How `io.Copy` ends. -/
inductive CopyEnd
  | eof
  | wrongRange
  | fails (doNotRetry : Bool)
  deriving DecidableEq

/-- `io.Copy(tmpFile, io.TeeReader(reader, ld.verifier))` -/
def copy : Stream → File → Bytes → CopyEnd × File × Bytes
  | .eof, f, h => (.eof, f, h)
  | .wrongRange, f, h => (.wrongRange, f, h)
  | .readFails dnr, f, h => (.fails dnr, f, h)
  | .chunk bs rest, f, h => copy rest (f.write bs) (h ++ bs)
  | .writeFails bs n dnr, f, h => (.fails dnr, f.write (bs.take n), h ++ bs)

/-- The digest that is asked for, and that of some bytes in the same
algorithm; `valid` if the digest passes `Validate`. -/
structure Target (D : Type) where
  digest : D
  hash : Bytes → D
  valid : Bool := true

namespace Descriptor

/-- `truncateDownloadFile`, and whether it succeeds. -/
def truncateDownloadFile (s : Descriptor) (a : Attempt) (f : File) : Bool × Descriptor :=
  let s := { s with verifier := none }
  if !a.seekStart then (false, s)
  else if !a.truncate then (false, { s with tmpFile := some f.seekStart })
  else (true, { s with tmpFile := some f.truncate })

/-- The attempt fails with `e`, and the next one starts over. -/
def startOver (s : Descriptor) (a : Attempt) (f : File) (e : DownloadErr) : DownloadErr × Descriptor :=
  match s.truncateDownloadFile a f with
  | (true, s) => (e, s)
  | (false, s) => (⟨.truncates, true⟩, s)

/-- The temporary file, open at its end. -/
def openFile (s : Descriptor) (a : Attempt) : Except DownloadErr File × Descriptor :=
  let new : Except DownloadErr File × Descriptor :=
    if a.create then (.ok .new, { s with tmpFile := some .new })
    else (.error ⟨.create, true⟩, { s with tmpFile := none })
  match s.tmpFile with
  | none => new
  | some f => if a.seekEnd then (.ok f.seekEnd, { s with tmpFile := some f.seekEnd }) else new

/-- The blob, open where the file ends. -/
def openBlob (s : Descriptor) (a : Attempt) (f : File) : Except DownloadErr File × Descriptor :=
  match a.opened with
  | .blobUnknown => (.error ⟨.opens, true⟩, s)
  | .fails dnr => (.error ⟨.opens, dnr⟩, s)
  | .ok =>
    if f.content ≠ [] ∧ a.seekOffset = false then (s.startOver a f ⟨.seeks, false⟩).map .error id
    else
      match a.size with
      | none => (.ok f, s)
      | some size =>
        if size ≠ 0 ∧ size < f.content.length then
          -- the file is larger than the blob
          match s.truncateDownloadFile a f with
          | (false, s) => (.error ⟨.truncates, true⟩, s)
          | (true, s) => (if a.seekBack then .ok f.truncate else .error ⟨.seeks, false⟩, s)
        else (if a.seekBack then .ok f else .error ⟨.seeks, false⟩, s)

variable {D : Type} [DecidableEq D] (t : Target D)

/-- The blob is copied to the end of the file and verified. -/
def fetch (s : Descriptor) (a : Attempt) (f : File) : Except DownloadErr File × Descriptor :=
  if s.verifier = none ∧ t.valid = false then (.error ⟨.digest, true⟩, s)
  else
    match copy a.stream f (s.verifier.getD []) with
    | (.wrongRange, f', h) =>
      (startOver { tmpFile := some f', verifier := some h } a f' ⟨.seeks, false⟩).map .error id
    | (.fails dnr, f', h) => (.error ⟨.copies, dnr⟩, { tmpFile := some f', verifier := some h })
    | (.eof, f', h) =>
      if t.hash h ≠ t.digest then
        -- only after a resumed download is there another attempt
        if f.content ≠ [] then
          (startOver { tmpFile := some f', verifier := some h } a f' ⟨.verification, false⟩).map .error id
        else (.error ⟨.verification, true⟩, { tmpFile := some f', verifier := some h })
      else if a.rewind then (.ok f'.seekStart, { tmpFile := none, verifier := some h })
      else (.error ⟨.rewinds, true⟩, { tmpFile := none, verifier := none })

/-- `Download`: the temporary file that is handed out, or an error. -/
def download (s : Descriptor) (a : Attempt) : Except DownloadErr File × Descriptor :=
  match s.openFile a with
  | (.error e, s) => (.error e, s)
  | (.ok f, s) =>
    match s.openBlob a f with
    | (.error e, s) => (.error e, s)
    | (.ok f, s) => s.fetch t a f

end Descriptor

/-! ## Attempts -/

/-- A descriptor, and whether the loop makes another attempt on it: the last
one, if there was one, failed with an error that may be retried. -/
structure Attempts where
  descriptor : Descriptor := {}
  again : Bool := true

/-- Attempt after attempt. -/
def Attempts.exec {D : Type} [DecidableEq D] (t : Target D) (s : Attempts) (a : Attempt) : Option Attempts :=
  match s.descriptor.download t a with
  | (.ok _, ld) => some ⟨ld, false⟩
  | (.error e, ld) => some ⟨ld, !e.doNotRetry⟩

/-! ## The hash and the file -/

namespace Stream

/-- No write to the file fails with an error that is retried. -/
def writesOk : Stream → Bool
  | .writeFails _ _ dnr => dnr
  | .chunk _ rest => rest.writesOk
  | _ => true

/-- The bytes that come before the end of the stream, if it comes to its end. -/
def received : Stream → Option Bytes
  | .eof => some []
  | .chunk bs rest => rest.received.map (bs ++ ·)
  | _ => none

end Stream

/-- As long as no write fails, the file gets the bytes that are hashed. -/
theorem copy_content {st : Stream} {f : File} {h : Bytes} (hw : st.writesOk = true)
    (hpos : f.pos = f.content.length) (hf : f.content = h) (he : (copy st f h).1 ≠ .fails true) :
    (copy st f h).2.1.content = (copy st f h).2.2 := by
  induction st generalizing f h with
  | chunk bs rest ih => exact ih hw (File.write_pos hpos bs) (by rw [File.write_content hpos, hf]) he
  | writeFails bs n dnr => exact absurd (congrArg CopyEnd.fails hw) he
  | _ => exact hf

theorem copy_received {st : Stream} {f : File} {h bs : Bytes} (hr : st.received = some bs) :
    (copy st f h).1 = .eof ∧ (copy st f h).2.2 = h ++ bs := by
  induction st generalizing f h bs with
  | eof => cases hr; exact ⟨rfl, (List.append_nil h).symm⟩
  | chunk cs rest ih =>
    obtain ⟨ds, hd, rfl⟩ := Option.map_eq_some_iff.mp hr
    rw [← List.append_assoc]
    exact ih hd
  | _ => cases hr

namespace Descriptor

/-- The verifier has hashed what is in the file. -/
structure InStep (s : Descriptor) : Prop where
  content : ∀ f, s.tmpFile = some f → f.content = s.verifier.getD []
  none : s.tmpFile = none → s.verifier = none

/-- The attempt is made with the file `f`, open at its end. -/
structure Ready (s : Descriptor) (f : File) : Prop where
  tmpFile : s.tmpFile = some f
  pos : f.pos = f.content.length
  content : f.content = s.verifier.getD []

variable {s : Descriptor} {a : Attempt} {f : File}

theorem Ready.inStep (h : s.Ready f) : s.InStep where
  content g hg := by cases h.tmpFile.symm.trans hg; exact h.content
  none hn := by cases h.tmpFile.symm.trans hn

/-- What a phase of an attempt leaves behind: a file that is ready, or an
error that, if it may be retried, finds the hash and the file in step. -/
structure Phase (r : Except DownloadErr File × Descriptor) : Prop where
  ok : ∀ f, r.1 = .ok f → r.2.Ready f
  error : ∀ e, r.1 = .error e → e.doNotRetry = false → r.2.InStep

theorem phase_ok (h : s.Ready f) : Phase (.ok f, s) := ⟨by rintro _ ⟨⟩; exact h, by rintro _ ⟨⟩⟩

theorem phase_error {e : DownloadErr} (h : e.doNotRetry = false → s.InStep) : Phase (.error e, s) :=
  ⟨by rintro _ ⟨⟩, by rintro _ ⟨⟩; exact h⟩

theorem ready_truncate (f : File) : Ready { tmpFile := some f.truncate, verifier := none } f.truncate :=
  ⟨rfl, rfl, rfl⟩

theorem truncateDownloadFile_eq (s : Descriptor) (a : Attempt) (f : File) :
    (s.truncateDownloadFile a f).1 = true →
      (s.truncateDownloadFile a f).2 = { tmpFile := some f.truncate, verifier := none } := by
  unfold truncateDownloadFile
  split_ifs <;> simp

theorem startOver_phase (s : Descriptor) (a : Attempt) (f : File) (e : DownloadErr) :
    Phase ((s.startOver a f e).map .error id) := by
  have ht := s.truncateDownloadFile_eq a f
  unfold startOver
  split
  · rename_i s₁ h₁
    rw [h₁] at ht
    obtain rfl : s₁ = { tmpFile := some f.truncate, verifier := none } := ht rfl
    exact phase_error fun _ => (ready_truncate f).inStep
  · exact phase_error fun h => by cases h

theorem openFile_phase (hs : s.InStep) (hseek : a.seekEnd = true ∨ s.verifier = none) : Phase (s.openFile a) := by
  have hnew : s.verifier = none → Phase (if a.create then (.ok .new, { s with tmpFile := some .new })
      else (.error ⟨.create, true⟩, { s with tmpFile := none })) := by
    intro hv
    split_ifs
    · exact phase_ok ⟨rfl, rfl, by simp [hv, File.new]⟩
    · exact phase_error fun h => by cases h
  unfold openFile
  cases hf : s.tmpFile with
  | none => exact hnew (hs.none hf)
  | some g =>
    by_cases he : a.seekEnd = true
    · simp only [he, if_true]
      exact phase_ok ⟨rfl, rfl, hs.content g hf⟩
    · simp only [he]
      exact hnew (hseek.resolve_left he)

theorem openBlob_phase (hr : s.Ready f) : Phase (s.openBlob a f) := by
  have hend : ∀ {s : Descriptor} {f : File}, s.Ready f →
      Phase (if a.seekBack then .ok f else .error ⟨.seeks, false⟩, s) := by
    intro s f hr
    split_ifs
    · exact phase_ok hr
    · exact phase_error fun _ => hr.inStep
  have ht := s.truncateDownloadFile_eq a f
  unfold openBlob
  split
  · exact phase_error fun _ => hr.inStep
  · exact phase_error fun _ => hr.inStep
  · split
    · exact s.startOver_phase a f _
    · split
      · exact phase_ok hr
      · split
        · split
          · exact phase_error fun h => by cases h
          · rename_i s₁ h₁
            rw [h₁] at ht
            obtain rfl : s₁ = { tmpFile := some f.truncate, verifier := none } := ht rfl
            exact hend (ready_truncate f)
        · exact hend hr

variable {D : Type} {t : Target D}

/-- The result of an attempt. -/
structure Verified (t : Target D) (r : Except DownloadErr File × Descriptor) : Prop where
  ok : ∀ f, r.1 = .ok f → t.hash f.content = t.digest
  error : ∀ e, r.1 = .error e → e.doNotRetry = false → r.2.InStep

theorem verified_error {e : DownloadErr} (h : e.doNotRetry = false → s.InStep) : Verified t (.error e, s) :=
  ⟨by rintro _ ⟨⟩, by rintro _ ⟨⟩; exact h⟩

theorem verified_startOver (s : Descriptor) (a : Attempt) (f : File) (e : DownloadErr) :
    Verified t ((s.startOver a f e).map .error id) :=
  ⟨by rintro _ ⟨⟩, (s.startOver_phase a f e).error⟩

variable [DecidableEq D]

theorem fetch_verified (hw : a.stream.writesOk = true) (hr : s.Ready f) : Verified t (s.fetch t a f) := by
  have hcopy := copy_content hw hr.pos hr.content
  unfold fetch
  split
  · exact verified_error fun h => by cases h
  · split <;> rename_i hc <;> rw [hc] at hcopy
    · exact verified_startOver _ _ _ _
    · rename_i dnr f' h
      refine verified_error fun hd => ⟨?_, by rintro ⟨⟩⟩
      rintro _ ⟨⟩
      exact hcopy fun he => by cases he; cases hd
    · have hcopy := hcopy (by rintro ⟨⟩)
      split
      · split
        · exact verified_startOver _ _ _ _
        · exact verified_error fun h => by cases h
      · rename_i hv
        split
        · refine ⟨?_, by rintro _ ⟨⟩⟩
          rintro _ ⟨⟩
          exact (congrArg t.hash hcopy).trans (not_not.mp hv)
        · exact verified_error fun h => by cases h

theorem download_verified (hs : s.InStep) (hseek : a.seekEnd = true ∨ s.verifier = none)
    (hw : a.stream.writesOk = true) : Verified t (s.download t a) := by
  have hfile := openFile_phase hs hseek
  unfold download
  split
  · rename_i e s₁ h₁
    rw [h₁] at hfile
    exact verified_error (hfile.error e rfl)
  · rename_i f s₁ h₁
    rw [h₁] at hfile
    have hblob := openBlob_phase (a := a) (hfile.ok f rfl)
    split
    · rename_i e s₂ h₂
      rw [h₂] at hblob
      exact verified_error (hblob.error e rfl)
    · rename_i g s₂ h₂
      rw [h₂] at hblob
      exact fetch_verified hw (hblob.ok g rfl)

/-! ## An attempt that gets the whole blob -/

/-- Nothing that is done to the file fails. -/
structure NoLocalFailure (a : Attempt) : Prop where
  create : a.create = true
  seekEnd : a.seekEnd = true
  seekStart : a.seekStart = true
  truncate : a.truncate = true
  rewind : a.rewind = true

theorem openFile_empty (hl : NoLocalFailure a) (hempty : ∀ f, s.tmpFile = some f → f.content = []) :
    ∃ f s', s.openFile a = (.ok f, s') ∧ f.content = [] := by
  unfold openFile
  cases hf : s.tmpFile with
  | none =>
    refine ⟨.new, { s with tmpFile := some .new }, ?_, rfl⟩
    simp only [hl.create, if_true]
  | some g =>
    refine ⟨g.seekEnd, { s with tmpFile := some g.seekEnd }, ?_, hempty g hf⟩
    simp only [hl.seekEnd, if_true]

theorem openBlob_empty (hl : NoLocalFailure a) (hf : f.content = []) (hopened : a.opened = .ok)
    (hsize : a.size = none ∨ a.seekBack = true) : ∃ g s', s.openBlob a f = (.ok g, s') ∧ g.content = [] := by
  unfold openBlob
  simp only [hopened, hf, ne_eq, not_true_eq_false, false_and, if_false]
  cases hs : a.size with
  | none => exact ⟨f, s, rfl, hf⟩
  | some size =>
    have hback := hsize.resolve_left (by rw [hs]; rintro ⟨⟩)
    have ht : s.truncateDownloadFile a f = (true, { tmpFile := some f.truncate, verifier := none }) := by
      simp [truncateDownloadFile, hl.seekStart, hl.truncate]
    simp only [ht, hback, if_true]
    split_ifs
    · exact ⟨f.truncate, _, rfl, rfl⟩
    · exact ⟨f, s, rfl, hf⟩

/-- An attempt from an empty file that gets the blob. -/
theorem download_exact (hs : s.InStep) (hl : NoLocalFailure a)
    (hempty : ∀ f, s.tmpFile = some f → f.content = []) (hvalid : t.valid = true) (hopened : a.opened = .ok)
    (hsize : a.size = none ∨ a.seekBack = true) {blob : Bytes} (hreceived : a.stream.received = some blob)
    (hw : a.stream.writesOk = true) (hblob : t.hash blob = t.digest) :
    ∃ f, (s.download t a).1 = .ok f ∧ f.content = blob := by
  obtain ⟨f, s₁, h₁, hf⟩ := openFile_empty hl hempty
  have hr₁ : s₁.Ready f := by have := openFile_phase hs (.inl hl.seekEnd); rw [h₁] at this; exact this.ok f rfl
  obtain ⟨g, s₂, h₂, hg⟩ := openBlob_empty (s := s₁) hl hf hopened hsize
  have hr₂ : s₂.Ready g := by have := openBlob_phase (a := a) hr₁; rw [h₂] at this; exact this.ok g rfl
  obtain ⟨hend, hhash⟩ := copy_received (f := g) (h := s₂.verifier.getD []) hreceived
  have hcopy := copy_content hw hr₂.pos hr₂.content (by rw [hend]; rintro ⟨⟩)
  have hnil : s₂.verifier.getD [] = [] := hr₂.content.symm.trans hg
  rcases hc : copy a.stream g (s₂.verifier.getD []) with ⟨e, g', h⟩
  rw [hc] at hend hhash hcopy
  obtain rfl : e = .eof := hend
  obtain rfl : h = blob := hhash.trans (by rw [hnil, List.nil_append])
  refine ⟨g'.seekStart, ?_, hcopy⟩
  simp only [download, h₁, h₂, fetch, hc, hvalid, hblob, hl.rewind]
  simp

end Descriptor

/-! ## Runs of attempts -/

namespace Attempts

variable {D : Type} [DecidableEq D] {t : Target D} {s : Attempts} {a : Attempt}

open Descriptor

/-- What keeps the hash and the file in step: the attempt is one that the loop
makes, the end of the file is found unless nothing was hashed, and no write to
the file fails with an error that is retried. -/
def Keeps (s : Attempts) (a : Attempt) : Prop :=
  s.again = true ∧ (a.seekEnd = true ∨ s.descriptor.verifier = none) ∧ a.stream.writesOk = true

instance (s : Attempts) (a : Attempt) : Decidable (s.Keeps a) := inferInstanceAs (Decidable (_ ∧ (_ ∨ _) ∧ _))

theorem inStep_of_reaches (h : ReachesIf (exec t) Keeps {} s) : s.again = true → s.descriptor.InStep := by
  refine h.inv (I := fun s : Attempts => s.again = true → s.descriptor.InStep)
    (fun _ => ⟨by rintro _ ⟨⟩, fun _ => rfl⟩) fun s a s' _ ih hk he ha => ?_
  have hv := download_verified (t := t) (ih hk.1) hk.2.1 hk.2.2
  unfold exec at he
  split at he <;> cases he
  · cases ha
  · rename_i e ld hd
    rw [hd] at hv
    exact hv.error e rfl (by simpa using ha)

/-- In the runs whose attempts keep the hash and the file in step, the file
that an attempt hands out has the digest that was asked for; and an attempt
that starts from an empty file, meets no local failure and gets the blob hands
it out. -/
theorem blob_verified (h : ReachesIf (exec t) Keeps {} s) (hk : s.Keeps a) :
    (∀ f, (s.descriptor.download t a).1 = .ok f → t.hash f.content = t.digest) ∧
      (NoLocalFailure a → (∀ f, s.descriptor.tmpFile = some f → f.content = []) → t.valid = true →
        a.opened = .ok → (a.size = none ∨ a.seekBack = true) → ∀ blob, a.stream.received = some blob →
        t.hash blob = t.digest → ∃ f, (s.descriptor.download t a).1 = .ok f ∧ f.content = blob) := by
  have hs := inStep_of_reaches h hk.1
  exact ⟨(download_verified hs hk.2.1 hk.2.2).ok, fun hl hempty hvalid hopened hsize _ hreceived hblob =>
    download_exact hs hl hempty hvalid hopened hsize hreceived hk.2.2 hblob⟩

/-- Bytes as their own digest: no two contents have the same. -/
def sampleTarget : Target Bytes := { digest := [1, 2], hash := id }

/-- The connection breaks after the first byte. -/
def broken : Attempt := { stream := .chunk [1] (.readFails false) }

/-- The rest of the blob. -/
def resumed : Attempt := { stream := .chunk [2] .eof }

/-- The whole blob. -/
def whole : Attempt := { stream := .chunk [1] (.chunk [2] .eof) }

theorem exists_ok_of_content {r : Except DownloadErr File} {bs : Bytes}
    (h : r.toOption.map File.content = some bs) : ∃ f, r = .ok f ∧ f.content = bs := by
  cases r with
  | error e => cases h
  | ok f => exact ⟨f, rfl, Option.some.inj h⟩

theorem blob_verified_resumed :
    ∃ s : Attempts, ∃ f, ReachesIf (exec sampleTarget) Keeps {} s ∧ s.Keeps resumed ∧
      (s.descriptor.download sampleTarget resumed).1 = .ok f ∧ sampleTarget.hash f.content = [1, 2] := by
  obtain ⟨s, hr, hs⟩ := ReachesIf.of_view (exec sampleTarget) Keeps {} [broken]
    (fun s => (decide (s.Keeps resumed), (s.descriptor.download sampleTarget resumed).1.toOption.map File.content))
    (b := (true, some [1, 2])) (by decide +kernel)
  simp only [Prod.mk.injEq, decide_eq_true_eq] at hs
  obtain ⟨f, hf, -⟩ := exists_ok_of_content hs.2
  exact ⟨s, f, hr, hs.1, hf, (blob_verified hr hs.1).1 f hf⟩

/-- If the end of the file is not found, the new file lacks what was hashed
before, and the registry can send only the rest of the blob; and after a write
that failed, bytes have been hashed that are not in the file, so that the
whole blob is refused. -/
theorem blob_not_verified :
    (∃ s a f, ReachesIf (exec sampleTarget) (fun s _ => s.again = true) {} s ∧ s.again = true ∧
      (s.descriptor.download sampleTarget a).1 = .ok f ∧ sampleTarget.hash f.content ≠ sampleTarget.digest) ∧
    ∃ s f, ReachesIf (exec sampleTarget) (fun s _ => s.again = true) {} s ∧ s.again = true ∧
      s.descriptor.tmpFile = some f ∧ f.content = [] ∧ whole.stream.received = some [1, 2] ∧
      sampleTarget.hash [1, 2] = sampleTarget.digest ∧
      ∃ e, (s.descriptor.download sampleTarget whole).1 = .error e := by
  constructor
  · obtain ⟨s, hr, hs⟩ := ReachesIf.of_view (exec sampleTarget) (fun s _ => s.again = true) {} [broken]
      (fun s => (s.again, (s.descriptor.download sampleTarget
        { resumed with seekEnd := false }).1.toOption.map File.content)) (b := (true, some [2])) (by decide +kernel)
    simp only [Prod.mk.injEq] at hs
    obtain ⟨f, hf, hc⟩ := exists_ok_of_content hs.2
    exact ⟨s, _, f, hr, hs.1, hf, by rw [hc]; decide⟩
  · obtain ⟨s, hr, hs⟩ := ReachesIf.of_view (exec sampleTarget) (fun s _ => s.again = true) {}
      [{ stream := .writeFails [1] 0 false }]
      (fun s => (s.again, s.descriptor.tmpFile.map File.content,
        (s.descriptor.download sampleTarget whole).1.toOption.map File.content)) (b := (true, some [], none))
      (by decide +kernel)
    simp only [Prod.mk.injEq] at hs
    obtain ⟨f, hf, hc⟩ := Option.map_eq_some_iff.mp hs.2.1
    refine ⟨s, f, hr, hs.1, hf, hc, rfl, rfl, ?_⟩
    cases hd : (s.descriptor.download sampleTarget whole).1 with
    | error e => exact ⟨e, rfl⟩
    | ok g => rw [hd] at hs; cases hs.2.2

end Attempts

end Moby.Distribution
