import Mathlib.Algebra.GroupWithZero.Nat
import Moby.Framework.Reader
import Moby.Framework.Slice

/-!
# Two streams in one: `stdWriter.Write` and `StdCopy` (pkg/stdcopy/stdcopy.go)

Each write is sent as a frame: a header of eight bytes, with the stream's number
in its first byte and the length of the payload in its last four, and the
payload. `StdCopy` reads the frames into one buffer, which it makes larger for a
large frame; what it has read behind a frame is moved to the front.
-/

namespace Moby.Stdcopy

open Moby.Framework

inductive StdType
  | stdin | stdout | stderr
  deriving DecidableEq

def StdType.byte : StdType → UInt8
  | stdin => 0
  | stdout => 1
  | stderr => 2

def stdWriterPrefixLen : ℕ := 8

def startingBufLen : ℕ := 32 * 1024 + stdWriterPrefixLen + 1

/-- `binary.BigEndian.PutUint32`. -/
def putUint32 (n : ℕ) : List UInt8 :=
  [UInt8.ofNat (n / 16777216), UInt8.ofNat (n / 65536), UInt8.ofNat (n / 256), UInt8.ofNat n]

/-- `binary.BigEndian.Uint32`. -/
def uint32 (b : List UInt8) : ℕ :=
  16777216 * (b.getD 0 0).toNat + 65536 * (b.getD 1 0).toNat + 256 * (b.getD 2 0).toNat + (b.getD 3 0).toNat

theorem uint32_putUint32 {n : ℕ} (h : n < 4294967296) : uint32 (putUint32 n) = n := by
  simp only [uint32, putUint32, List.getD_cons_zero, List.getD_cons_succ, UInt8.toNat_ofNat']
  omega

/-! ## Writing -/

def header (t : StdType) (size : ℕ) : List UInt8 := [t.byte, 0, 0, 0] ++ putUint32 size

/-- What one `Write(p)` of a `stdWriter` adds to the stream; `none` is a nil
slice. -/
def frame (t : StdType) : Option (List UInt8) → List UInt8
  | none => []
  | some p => header t p.length ++ p

/-- The stream after some writes. -/
def stream (ws : List (StdType × Option (List UInt8))) : List UInt8 := ws.flatMap fun w => frame w.1 w.2

/-! ## Copying -/

/-- `buf`, `nr` and `src`. -/
structure Buffer where
  buf : List UInt8
  nr : ℕ
  src : Reader UInt8

/-- `nr2, er = src.Read(buf[nr:])`, `nr += nr2`, and whether `er == io.EOF`. -/
def Buffer.read (b : Buffer) : Bool × Buffer :=
  let (p, eof, src) := b.src.read (b.buf.length - b.nr)
  (eof, ⟨Slice.overwrite b.buf b.nr p, b.nr + p.length, src⟩)

/-- `for nr < want { … }`: whether there is as much, and not the end before it. -/
def fill (want : ℕ) : ℕ → Buffer → Option (Bool × Buffer)
  | 0, _ => none
  | k + 1, b =>
    if b.nr < want then
      if b.read.1 then some (decide (¬ b.read.2.nr < want), b.read.2) else fill want k b.read.2
    else some (true, b)

inductive CopyError
  | unrecognizedHeader (b : UInt8)
  deriving DecidableEq

inductive Output
  | dstout | dsterr
  deriving DecidableEq

/-- The switch on the first byte. -/
def outputOf (b : UInt8) : Except CopyError Output :=
  if b = 0 ∨ b = 1 then .ok .dstout
  else if b = 2 then .ok .dsterr
  else .error (.unrecognizedHeader b)

/-- The buffer, extended if the frame does not fit. -/
def Buffer.extend (b : Buffer) (frameSize : ℕ) : Buffer :=
  if frameSize + stdWriterPrefixLen > b.buf.length then
    { b with buf := b.buf ++ List.replicate (frameSize + stdWriterPrefixLen - b.buf.length + 1) 0 }
  else b

/-- `copy(buf, buf[n:])` and `nr -= n`. -/
def Buffer.shift (b : Buffer) (n : ℕ) : Buffer :=
  { b with buf := b.buf.drop n ++ b.buf.drop (b.buf.length - n), nr := b.nr - n }

/-- What has been written to the two outputs, and `written`. -/
structure Copied where
  dstout : List UInt8
  dsterr : List UInt8
  written : ℕ

def Copied.write (c : Copied) (o : Output) (p : List UInt8) : Copied :=
  match o with
  | .dstout => { c with dstout := c.dstout ++ p, written := c.written + p.length }
  | .dsterr => { c with dsterr := c.dsterr ++ p, written := c.written + p.length }

/-- The outputs, and the values returned. -/
structure Result where
  dstout : List UInt8
  dsterr : List UInt8
  written : ℕ
  err : Option CopyError

/-- The loop of `StdCopy`. -/
def copyLoop : ℕ → Buffer → Copied → Option Result
  | 0, _, _ => none
  | k + 1, b, c =>
    match fill stdWriterPrefixLen (k + 1) b with
    | none => none
    | some (false, _) => some ⟨c.dstout, c.dsterr, c.written, none⟩
    | some (true, b) =>
      match outputOf (b.buf.getD 0 0) with
      | .error e => some ⟨c.dstout, c.dsterr, 0, some e⟩
      | .ok out =>
        let frameSize := uint32 ((b.buf.drop 4).take 4)
        match fill (frameSize + stdWriterPrefixLen) (k + 1) (b.extend frameSize) with
        | none => none
        | some (false, _) => some ⟨c.dstout, c.dsterr, c.written, none⟩
        | some (true, b) =>
          copyLoop k (b.shift (frameSize + stdWriterPrefixLen))
            (c.write out ((b.buf.drop stdWriterPrefixLen).take frameSize))

/-- `StdCopy(dstout, dsterr, src)`, with outputs that take all they are given;
`none` if it has not returned yet. -/
def stdCopy (fuel : ℕ) (src : Reader UInt8) : Option Result :=
  copyLoop fuel ⟨List.replicate startingBufLen 0, 0, src⟩ ⟨[], [], 0⟩

/-! ## The read loops -/

/-- What has been read and what is still to come. -/
def Buffer.pending (b : Buffer) : List UInt8 := b.buf.take b.nr ++ b.src.data

theorem Buffer.length_read {b : Buffer} (hb : b.nr ≤ b.buf.length) : b.read.2.buf.length = b.buf.length := by
  have h := b.src.length_read_le (b.buf.length - b.nr)
  simp only [Buffer.read, Slice.overwrite, List.length_append, List.length_take, List.length_drop]
  omega

theorem Buffer.nr_read_le {b : Buffer} (hb : b.nr ≤ b.buf.length) : b.read.2.nr ≤ b.read.2.buf.length := by
  rw [length_read hb]
  have h := b.src.length_read_le (b.buf.length - b.nr)
  simp only [Buffer.read]
  omega

theorem Buffer.pending_read {b : Buffer} (hb : b.nr ≤ b.buf.length) : b.read.2.pending = b.pending := by
  have hl : (b.buf.take b.nr ++ (b.src.read (b.buf.length - b.nr)).1).length =
      b.nr + (b.src.read (b.buf.length - b.nr)).1.length := by
    rw [List.length_append, List.length_take_of_le hb]
  simp only [pending, Buffer.read, Slice.overwrite]
  rw [← hl, List.take_left, List.append_assoc, Reader.read_append]

theorem Buffer.length_pending {b : Buffer} (hb : b.nr ≤ b.buf.length) :
    b.pending.length = b.nr + b.src.data.length := by
  rw [pending, List.length_append, List.length_take_of_le hb]

/-- Only the first of what is pending has been read. -/
theorem Buffer.take_buf {b : Buffer} {n : ℕ} (hb : b.nr ≤ b.buf.length) (hn : n ≤ b.nr) :
    b.buf.take n = b.pending.take n := by
  rw [pending, List.take_append_of_le_length (by rwa [List.length_take_of_le hb]), List.take_take,
    Nat.min_eq_left hn]

/-- A read loop ends, with as much as it wants if there is as much. -/
theorem fill_spec {want k : ℕ} {b : Buffer} (hb : b.nr ≤ b.buf.length) (hw : want ≤ b.buf.length)
    (hk : b.src.left < k) :
    ∃ b', fill want k b = some (decide (want ≤ b.pending.length), b') ∧ b'.nr ≤ b'.buf.length ∧
      b'.buf.length = b.buf.length ∧ b'.pending = b.pending ∧ b'.src.left ≤ b.src.left ∧
      (want ≤ b.pending.length → want ≤ b'.nr) := by
  induction k generalizing b with
  | zero => omega
  | succ k ih =>
    have hlen := Buffer.length_pending hb
    by_cases hnr : b.nr < want
    · have hb' := Buffer.nr_read_le hb
      have hl' := Buffer.length_read hb
      have hp' := Buffer.pending_read hb
      have hleft : b.read.2.src.left ≤ b.src.left := b.src.left_read_le _
      cases he : b.read.1 with
      | true =>
        -- the end: what is pending has been read
        have hd : b.read.2.src.data = [] := b.src.data_of_eof _ he
        have hall : b.pending.length = b.read.2.nr := by
          rw [← hp', Buffer.length_pending hb', hd, List.length_nil, Nat.add_zero]
        refine ⟨b.read.2, ?_, hb', hl', hp', hleft, fun h => by omega⟩
        simp only [fill, if_pos hnr, he, if_true, hall, Nat.not_lt]
      | false =>
        have hlt : b.read.2.src.left < b.src.left := b.src.left_read_lt _ (by omega) he
        obtain ⟨b', hf, h₁, h₂, h₃, h₄, h₅⟩ := ih hb' (by omega) (by omega)
        rw [hp'] at hf h₃ h₅
        refine ⟨b', ?_, h₁, by omega, h₃, by omega, h₅⟩
        rw [fill, if_pos hnr, he, if_neg Bool.false_ne_true, hf]
    · refine ⟨b, ?_, hb, rfl, rfl, le_refl _, fun _ => by omega⟩
      rw [fill, if_neg hnr, decide_eq_true (by omega)]

/-! ## The loop over the frames -/

/-- The output that a stream is copied to. -/
def StdType.output : StdType → Output
  | stdin => .dstout
  | stdout => .dstout
  | stderr => .dsterr

theorem outputOf_byte (t : StdType) : outputOf t.byte = .ok t.output := by cases t <;> rfl

@[simp] theorem length_header (t : StdType) (n : ℕ) : (header t n).length = stdWriterPrefixLen := rfl

/-- A header is read back from the front of the buffer. -/
theorem of_take_header {buf : List UInt8} {t : StdType} {n : ℕ} (hn : n < 4294967296)
    (h : buf.take stdWriterPrefixLen = header t n) :
    outputOf (buf.getD 0 0) = .ok t.output ∧ uint32 ((buf.drop 4).take 4) = n := by
  have h₀ : buf.getD 0 0 = t.byte := by
    cases buf with
    | nil => cases h
    | cons a buf => exact (List.cons.inj h).1
  have h₄ : (buf.drop 4).take 4 = putUint32 n := by
    rw [List.take_drop, show 4 + 4 = stdWriterPrefixLen from rfl, h]
    rfl
  exact ⟨by rw [h₀, outputOf_byte], by rw [h₄, uint32_putUint32 hn]⟩

theorem Buffer.extend_spec {b : Buffer} (hb : b.nr ≤ b.buf.length) (n : ℕ) :
    (b.extend n).nr ≤ (b.extend n).buf.length ∧ n + stdWriterPrefixLen ≤ (b.extend n).buf.length ∧
      b.buf.length ≤ (b.extend n).buf.length ∧ (b.extend n).pending = b.pending ∧ (b.extend n).src = b.src := by
  rw [Buffer.extend]
  split
  · refine ⟨?_, ?_, ?_, ?_, rfl⟩
    · simp only [List.length_append]; omega
    · simp only [List.length_append, List.length_replicate]; omega
    · simp only [List.length_append]; omega
    · simp only [pending, List.take_append_of_le_length hb]
  · exact ⟨hb, by omega, le_refl _, rfl, rfl⟩

theorem Buffer.shift_spec {b : Buffer} {n : ℕ} (hb : b.nr ≤ b.buf.length) (hn : n ≤ b.nr) :
    (b.shift n).nr ≤ (b.shift n).buf.length ∧ (b.shift n).buf.length = b.buf.length ∧
      (b.shift n).pending = b.pending.drop n := by
  have hl : (b.shift n).buf.length = b.buf.length := by
    simp only [Buffer.shift, List.length_append, List.length_drop]
    omega
  refine ⟨?_, hl, ?_⟩
  · rw [hl]; simp only [Buffer.shift]; omega
  · have hd : b.nr - n ≤ (b.buf.drop n).length := by rw [List.length_drop]; omega
    have hd' : n ≤ (b.buf.take b.nr).length := by rw [List.length_take_of_le hb]; exact hn
    simp only [pending, Buffer.shift]
    rw [List.take_append_of_le_length hd, List.drop_append_of_le_length hd', List.drop_take]

/-- The loop, with a header at the front: the frame is written, or the stream
ends in it. -/
theorem copyLoop_header {k n : ℕ} {b : Buffer} {c : Copied} {t : StdType} {l : List UInt8} (hn : n < 4294967296)
    (hb : b.nr ≤ b.buf.length) (h₈ : stdWriterPrefixLen ≤ b.buf.length) (hp : b.pending = header t n ++ l)
    (hk : b.src.left ≤ k) :
    if n ≤ l.length then
      ∃ b', copyLoop (k + 1) b c = copyLoop k b' (c.write t.output (l.take n)) ∧ b'.nr ≤ b'.buf.length ∧
        stdWriterPrefixLen ≤ b'.buf.length ∧ b'.pending = l.drop n ∧ b'.src.left ≤ b.src.left
    else copyLoop (k + 1) b c = some ⟨c.dstout, c.dsterr, c.written, none⟩ := by
  have hlen : b.pending.length = stdWriterPrefixLen + l.length := by rw [hp, List.length_append, length_header]
  obtain ⟨b₁, hf₁, hb₁, hl₁, hp₁, hs₁, hnr₁⟩ := fill_spec hb h₈ (by omega : _ < k + 1)
  have hhead : b₁.buf.take stdWriterPrefixLen = header t n := by
    rw [Buffer.take_buf hb₁ (hnr₁ (by omega)), hp₁, hp]
    exact List.take_left' rfl
  obtain ⟨hout, hsize⟩ := of_take_header hn hhead
  obtain ⟨hb₂, hl₂, hl₂', hp₂, hs₂⟩ := Buffer.extend_spec hb₁ n
  obtain ⟨b₃, hf₃, hb₃, hl₃, hp₃, hs₃, hnr₃⟩ := fill_spec hb₂ hl₂ (by rw [hs₂]; omega : _ < k + 1)
  rw [hp₂, hp₁] at hf₃ hp₃ hnr₃
  rw [hs₂] at hs₃
  rw [decide_eq_true (by omega)] at hf₁
  split
  · rename_i hle
    have hfull : n + stdWriterPrefixLen ≤ b₃.nr := hnr₃ (by omega)
    obtain ⟨hb₄, hl₄, hp₄⟩ := Buffer.shift_spec hb₃ hfull
    -- the bytes behind the header, as far as the frame goes
    have hpay : (b₃.buf.drop stdWriterPrefixLen).take n = l.take n := by
      rw [List.take_drop, Nat.add_comm, Buffer.take_buf hb₃ hfull, hp₃, hp, Nat.add_comm, ← List.take_drop,
        List.drop_left' (length_header t n)]
    refine ⟨b₃.shift (n + stdWriterPrefixLen), ?_, hb₄, by omega, ?_, ?_⟩
    · rw [decide_eq_true (by omega)] at hf₃
      simp only [copyLoop, hf₁, hout, hsize, hf₃, hpay]
    · rw [hp₄, hp₃, hp, Nat.add_comm, ← List.drop_drop, List.drop_left' (length_header t n)]
    · simp only [Buffer.shift]; omega
  · rename_i hlt
    rw [decide_eq_false (by omega)] at hf₃
    simp only [copyLoop, hf₁, hout, hsize, hf₃]

/-- The loop, without a whole header. -/
theorem copyLoop_short {k : ℕ} {b : Buffer} {c : Copied} (hb : b.nr ≤ b.buf.length)
    (h₈ : stdWriterPrefixLen ≤ b.buf.length) (hp : b.pending.length < stdWriterPrefixLen) (hk : b.src.left ≤ k) :
    copyLoop (k + 1) b c = some ⟨c.dstout, c.dsterr, c.written, none⟩ := by
  obtain ⟨b', hf, -⟩ := fill_spec hb h₈ (by omega : _ < k + 1)
  rw [decide_eq_false (by omega)] at hf
  simp only [copyLoop, hf]

/-! ## The writes and what is delivered -/

/-- The payloads that are for an output, in the order of the writes. -/
def payload (o : Output) (ws : List (StdType × Option (List UInt8))) : List UInt8 :=
  ws.flatMap fun w => if w.1.output = o then w.2.getD [] else []

def total (ws : List (StdType × Option (List UInt8))) : ℕ := (ws.map fun w => (w.2.getD []).length).sum

/-- The writes whose frames are within the first `n` bytes of the stream. -/
def complete : ℕ → List (StdType × Option (List UInt8)) → List (StdType × Option (List UInt8))
  | _, [] => []
  | n, w :: ws =>
    if (frame w.1 w.2).length ≤ n then w :: complete (n - (frame w.1 w.2).length) ws else []

theorem complete_of_length_le {n : ℕ} {ws : List (StdType × Option (List UInt8))} (h : (stream ws).length ≤ n) :
    complete n ws = ws := by
  induction ws generalizing n with
  | nil => rfl
  | cons w ws ih =>
    rw [stream, List.flatMap_cons, List.length_append] at h
    rw [complete, if_pos (by omega), ih (by rw [stream]; omega)]

/-- What is returned after the writes of `ws` have been delivered. -/
def Copied.after (c : Copied) (ws : List (StdType × Option (List UInt8))) : Result :=
  ⟨c.dstout ++ payload .dstout ws, c.dsterr ++ payload .dsterr ws, c.written + total ws, none⟩

theorem Copied.after_nil (c : Copied) : c.after [] = ⟨c.dstout, c.dsterr, c.written, none⟩ := by
  simp [after, payload, total]

theorem Copied.after_cons (c : Copied) (t : StdType) (p : List UInt8) (ws : List (StdType × Option (List UInt8))) :
    c.after ((t, some p) :: ws) = (c.write t.output p).after ws := by
  cases t <;> simp [after, payload, total, Copied.write, StdType.output, Nat.add_assoc]

theorem Copied.after_cons_none (c : Copied) (t : StdType) (ws : List (StdType × Option (List UInt8))) :
    c.after ((t, none) :: ws) = c.after ws := by
  simp [after, payload, total]

/-- The loop delivers the frames that are complete. -/
theorem copy_frames {ws : List (StdType × Option (List UInt8))} (hws : ∀ w ∈ ws, ∀ p ∈ w.2, p.length < 4294967296)
    {k n : ℕ} {b : Buffer} {c : Copied} (hb : b.nr ≤ b.buf.length) (h₈ : stdWriterPrefixLen ≤ b.buf.length)
    (hp : b.pending = (stream ws).take n) (hk : b.src.left + ws.length < k) :
    copyLoop k b c = some (c.after (complete n ws)) := by
  induction ws generalizing k n b c with
  | nil =>
    obtain ⟨k, rfl⟩ : ∃ m, k = m + 1 := ⟨k - 1, by omega⟩
    rw [complete, Copied.after_nil]
    refine copyLoop_short hb h₈ ?_ (by omega)
    rw [hp, stream, List.flatMap_nil, List.take_nil]
    exact Nat.zero_lt_succ _
  | cons w ws ih =>
    rw [List.length_cons] at hk
    have ih := @ih fun w' hw' => hws w' (List.mem_cons_of_mem _ hw')
    obtain ⟨t, _ | p⟩ := w
    · -- a nil slice adds nothing to the stream
      rw [complete, if_pos (show (frame t none).length ≤ n from Nat.zero_le n), Copied.after_cons_none]
      exact ih hb h₈ hp (by omega)
    · obtain ⟨k, rfl⟩ : ∃ m, k = m + 1 := ⟨k - 1, by omega⟩
      have hsize : p.length < 4294967296 := hws _ List.mem_cons_self p rfl
      have hfl : (frame t (some p)).length = stdWriterPrefixLen + p.length := by
        rw [frame, List.length_append, length_header]
      rw [stream, List.flatMap_cons, ← stream] at hp
      rw [complete]
      split
      · rename_i hle
        rw [hfl] at hle ⊢
        have hp' : b.pending = header t p.length ++ (p ++ (stream ws).take (n - (stdWriterPrefixLen + p.length))) := by
          rw [hp, List.take_append, hfl, List.take_of_length_le (by rw [hfl]; exact hle), frame, List.append_assoc]
        have hstep := copyLoop_header (c := c) hsize hb h₈ hp' (by omega : _ ≤ k)
        rw [if_pos (by rw [List.length_append]; omega)] at hstep
        obtain ⟨b', hloop, hb', h₈', hpend, hleft⟩ := hstep
        rw [List.drop_left] at hpend
        rw [hloop, List.take_left, Copied.after_cons]
        exact ih hb' h₈' hpend (by omega)
      · rename_i hlt
        rw [hfl] at hlt
        have hp' : b.pending = (header t p.length ++ p).take n := by
          rw [hp, List.take_append_of_le_length (by rw [hfl]; omega), frame]
        rw [Copied.after_nil]
        by_cases hn : n < stdWriterPrefixLen
        · refine copyLoop_short hb h₈ ?_ (by omega)
          rw [hp', List.length_take]
          omega
        · rw [List.take_append, length_header, List.take_of_length_le (by rw [length_header]; omega)] at hp'
          have hstep := copyLoop_header (c := c) hsize hb h₈ hp' (by omega : _ ≤ k)
          rwa [if_neg (by rw [List.length_take]; omega)] at hstep

/-- `StdCopy` gives each output the payloads of its stream, and returns how
much that was; of a stream that is cut, it gives the frames that are complete. -/
theorem stdCopy_delivers (ws : List (StdType × Option (List UInt8)))
    (hws : ∀ w ∈ ws, ∀ p ∈ w.2, p.length < 4294967296) (turns : List Turn) :
    (∃ m, ∀ k ≥ m, stdCopy k ⟨stream ws, turns⟩ =
      some ⟨payload .dstout ws, payload .dsterr ws, total ws, none⟩) ∧
    ∀ n, ∃ m, ∀ k ≥ m, stdCopy k ⟨(stream ws).take n, turns⟩ =
      some ⟨payload .dstout (complete n ws), payload .dsterr (complete n ws), total (complete n ws), none⟩ := by
  have hcut : ∀ n, ∃ m, ∀ k ≥ m, stdCopy k ⟨(stream ws).take n, turns⟩ =
      some ⟨payload .dstout (complete n ws), payload .dsterr (complete n ws), total (complete n ws), none⟩ := by
    intro n
    refine ⟨(⟨(stream ws).take n, turns⟩ : Reader UInt8).left + ws.length + 1, fun k hk => ?_⟩
    rw [stdCopy, copy_frames hws (Nat.zero_le _) _ (by rw [Buffer.pending, List.take_zero, List.nil_append]) hk,
      Copied.after, List.nil_append, List.nil_append, Nat.zero_add]
    rw [List.length_replicate]
    exact Nat.le_add_left _ _
  refine ⟨?_, hcut⟩
  have hall := hcut (stream ws).length
  rwa [List.take_length, complete_of_length_le (le_refl _)] at hall

/-- Two writes to `Stdout` with one to `Stderr` between them, and a nil one; the
reads are short, empty, and one of them tells the end with the last byte. -/
theorem stdCopy_delivers_writes :
    let ws := [(StdType.stdout, some [104, 105]), (.stderr, some [33]), (.stdout, none), (.stdout, some [10])]
    let turns := [Turn.mk 3 false, ⟨0, false⟩, ⟨9, false⟩, ⟨100, true⟩]
    (∃ m, ∀ k ≥ m, stdCopy k ⟨stream ws, turns⟩ = some ⟨[104, 105, 10], [33], 4, none⟩) ∧
      ∃ m, ∀ k ≥ m, stdCopy k ⟨(stream ws).take 20, turns⟩ = some ⟨[104, 105], [33], 3, none⟩ := by
  have h := stdCopy_delivers
    [(StdType.stdout, some [104, 105]), (.stderr, some [33]), (.stdout, none), (.stdout, some [10])] (by decide)
    [Turn.mk 3 false, ⟨0, false⟩, ⟨9, false⟩, ⟨100, true⟩]
  exact ⟨h.1, h.2 20⟩

end Moby.Stdcopy
