import Mathlib.Algebra.GroupWithZero.Nat
import Mathlib.Data.List.Basic
import Mathlib.Data.List.Nodup
import Mathlib.Logic.Function.Basic
import Mathlib.Tactic.SplitIfs
import Moby.Framework.Machine

/-!
# Many readers as one: `multiReadSeeker` (pkg/ioutils/multireader.go)

The readers are kept by their numbers, since one reader may stand in the list
more than once; each has its own contents, which do not change, and its own
place. `pos` is the reader that is read next and the offset in it. Offsets are
integers here; `Seekable` says which of them the code can compute as an `int64`.
-/

namespace Moby.Ioutils

open Moby.Framework

inductive Whence
  | seekSet | seekCur | seekEnd
  deriving DecidableEq

/-! ## One reader -/

/-- The place that a seek asks for. -/
def target (whence : Whence) (place size : ℕ) (offset : Int) : Int :=
  match whence with
  | .seekSet => offset
  | .seekCur => place + offset
  | .seekEnd => size + offset

/-- `Seek` of a reader at `place` with `size` bytes: the place it is at after it,
and the place returned, if there is no error. -/
def seekOne (whence : Whence) (place size : ℕ) (offset : Int) : ℕ × Option Int :=
  if target whence place size offset < 0 then (place, none)
  else ((target whence place size offset).toNat, some (target whence place size offset))

/-- What a call returns. -/
inductive Reply
  | seek (offset : Int) (failed : Bool)
  | read (data : List UInt8) (eof : Bool)
  | panic
  deriving DecidableEq

inductive Call
  | seek (offset : Int) (whence : Whence)
  /-- `Read` with a buffer of that length and capacity. -/
  | read (len cap : ℕ)

/-- A call on one reader of `content`. -/
def callOne (content : List UInt8) (place : ℕ) : Call → ℕ × Reply
  | .seek offset whence =>
    match seekOne whence place content.length offset with
    | (place, none) => (place, .seek (-1) true)
    | (place, some n) => (place, .seek n false)
  | .read len _ =>
    let data := (content.drop place).take len
    (place + data.length, .read data (decide (len ≠ 0) && (content.drop place).isEmpty))

/-! ## Many readers -/

/-- The places of the readers, and `r.pos`. -/
structure State where
  place : ℕ → ℕ
  pos : Option (ℕ × Int)

section

variable (content : ℕ → List UInt8) (readers : List ℕ)

/-- `r.posIdx[rdr]`, where a later entry has replaced an earlier one; 0 for
nil. -/
def posIdx (rdr : Option ℕ) : ℕ :=
  match rdr with
  | none => 0
  | some id => readers.length - 1 - readers.reverse.idxOf id

/-- `rdr.Seek(offset, whence)`. -/
def State.seekReader (s : State) (id : ℕ) (offset : Int) (whence : Whence) : State × Option Int :=
  let (place, n) := seekOne whence (s.place id) (content id).length offset
  ({ s with place := Function.update s.place id place }, n)

/-- `getReadSeekerSize`, with the reader at its place again. -/
def getReadSeekerSize (s : State) (id : ℕ) : State × Int :=
  let place := s.place id
  let (s, _) := s.seekReader content id 0 .seekEnd
  ((s.seekReader content id place .seekSet).1, (content id).length)

/-- `Seek(offset, os.SEEK_SET)`: the loop, at reader `i`, with `tmpOffset` bytes
before it. -/
def seekSetLoop (offset : Int) : List ℕ → ℕ → Int → State → State × Reply
  | [], _, _, s => (s, .seek (-1) true)
  | id :: rest, i, tmpOffset, s =>
    let (s, _) := s.seekReader content id 0 .seekEnd
    let size : Int := (content id).length
    if offset > tmpOffset + size then
      match rest with
      | [] =>
        let rdrOffset := size + (offset - tmpOffset)
        match s.seekReader content id rdrOffset .seekSet with
        | (s, none) => (s, .seek (-1) true)
        | (s, some _) => ({ s with pos := some (i, rdrOffset) }, .seek offset false)
      | _ :: _ => seekSetLoop offset rest (i + 1) (tmpOffset + size) s
    else
      let rdrOffset := offset - tmpOffset
      let (s, _) := s.seekReader content id rdrOffset .seekSet
      -- make sure all following readers are at 0
      let s := rest.foldl (fun s id => (s.seekReader content id 0 .seekSet).1) s
      if rdrOffset = size ∧ rest ≠ [] then ({ s with pos := some (i + 1, 0) }, .seek offset false)
      else ({ s with pos := some (i, rdrOffset) }, .seek offset false)

def seekSet (s : State) (offset : Int) : State × Reply := seekSetLoop content offset readers 0 0 s

/-- The sizes of all readers together, and the state after asking for them. -/
def seekEnds : List ℕ → Int → State → State × Int
  | [], total, s => (s, total)
  | id :: rest, total, s =>
    seekEnds rest (total + (content id).length) (s.seekReader content id 0 .seekEnd).1

/-- `getCurOffset`: the loop over the readers up to `r.pos.idx`. -/
def curOffsetLoop (idx : ℕ) (offset : Int) : List ℕ → Int → State → State × Int
  | [], total, s => (s, total)
  | id :: rest, total, s =>
    if posIdx readers (some id) = idx then (s, total + offset)
    else
      let (s, size) := getReadSeekerSize content s id
      curOffsetLoop idx offset rest (total + size) s

/-- `getOffsetToReader`: the size taken is that of `rdr` itself. -/
def getOffsetToReader (rdr : ℕ) : List ℕ → Int → State → State × Int
  | [], offset, s => (s, offset)
  | id :: rest, offset, s =>
    if id = rdr then (s, offset)
    else
      let (s, size) := getReadSeekerSize content s rdr
      getOffsetToReader rdr rest (offset + size) s

/-- `getReaderForOffset`: the offset it returns, `none` for a panic. The reader it
returns is nil, for the loop assigns to a variable of its own. -/
def readerForOffsetLoop (offset : Int) : List ℕ → ℕ → State → State × Option Int
  | [], _, s => (s, some 0)
  | id :: rest, i, s =>
    let (s, offsetTo) := getOffsetToReader content id readers 0 s
    if offsetTo > offset then
      -- r.readers[i-1]
      if i = 0 then (s, none) else (s, some (offsetTo - offset))
    else if readers.getLast? = some id then (s, some (offsetTo + offset))
    else readerForOffsetLoop offset rest (i + 1) s

/-- `Seek`. -/
def seek (s : State) (offset : Int) (whence : Whence) : State × Reply :=
  match whence with
  | .seekSet => seekSet content readers s offset
  | .seekEnd =>
    let (s, total) := seekEnds content readers 0 s
    ((seekSet content readers s (total + offset)).1, .seek (total + offset) false)
  | .seekCur =>
    match s.pos with
    | none => seekSet content readers s offset
    | some (idx, o) =>
      let (s, curOffset) := curOffsetLoop content readers idx o (readers.take (idx + 1)) 0 s
      if offset = 0 then (s, .seek curOffset false)
      else
        match readerForOffsetLoop content readers (curOffset + offset) readers 0 s with
        | (s, none) => (s, .panic)
        | (s, some rdrOffset) =>
          ({ s with pos := some (posIdx readers none, rdrOffset) }, .seek (curOffset + offset) false)

/-- A reader after `n` bytes have been read from it. -/
def State.advance (s : State) (id n : ℕ) : State :=
  { s with place := Function.update s.place id (s.place id + n) }

/-- The loop of `Read`: `io.CopyN(buf, rdr, bCap)` from one reader after the
other; the last one it has come to. -/
def readLoop : List ℕ → ℕ → List UInt8 → Option ℕ → State → State × List UInt8 × Option ℕ
  | [], _, buf, rdr, s => (s, buf, rdr)
  | id :: rest, bCap, buf, _, s =>
    let data := ((content id).drop (s.place id)).take bCap
    if bCap - data.length = 0 then (s.advance id data.length, buf ++ data, some id)
    else readLoop rest (bCap - data.length) (buf ++ data) (some id) (s.advance id data.length)

/-- `Read`. -/
def read (s : State) (len cap : ℕ) : State × Reply :=
  let idx := match s.pos with
    | none => 0
    | some (idx, _) => idx
  match readLoop content (readers.drop idx) cap [] none s with
  | (s, _, none) => (s, .panic)
  | (s, buf, some rdr) =>
    ({ s with pos := some (posIdx readers (some rdr), s.place rdr) },
      .read (buf.take len) (decide (len ≠ 0) && buf.isEmpty))

def call (s : State) : Call → State × Reply
  | .seek offset whence => seek content readers s offset whence
  | .read len cap => read content readers s len cap

/-! ## The place that a state stands for -/

def size (ids : List ℕ) : ℕ := (ids.flatMap content).length

/-- The state is at the place `p` of all the contents: nothing has been called
yet; or `pos` is a place in one of the readers, with those behind it at their
beginnings; or it is behind the end, by a seek that has added the size of the last
reader to the place in it. -/
inductive At (s : State) (p : ℕ) : Prop
  | start (hpos : s.pos = none) (hzero : ∀ id ∈ readers, s.place id = 0) (hp : p = 0)
  | within (pre : List ℕ) (id : ℕ) (rest : List ℕ) (hr : readers = pre ++ id :: rest)
    (hpos : s.pos = some (pre.length, (s.place id : Int))) (hle : s.place id ≤ (content id).length)
    (hrest : ∀ id' ∈ rest, s.place id' = 0) (hp : p = size content pre + s.place id)
  | beyond (pre : List ℕ) (id : ℕ) (hr : readers = pre ++ [id]) (hpos : s.pos = some (pre.length, (s.place id : Int)))
    (hlt : size content readers < p) (hp : p + (content id).length = size content pre + s.place id)

/-- A place that a seek may go to: not before the beginning, and not so far behind
the end that the place in the last reader is none. -/
def Seekable (x : Int) : Prop :=
  0 ≤ x ∧ x < 9223372036854775808 ∧
    (x ≤ size content readers ∨
      x - size content readers + 2 * (content (readers.getLastD 0)).length < 9223372036854775808)

/-- The bytes that the readers have left from the current one on. -/
def State.left (s : State) : ℕ :=
  ((readers.drop (match s.pos with
    | none => 0
    | some (idx, _) => idx)).map fun id => (content id).length - s.place id).sum

/-- The calls that are as on one reader. -/
def Fine (s : State) : Call → Prop
  | .seek offset .seekSet => Seekable content readers offset
  | .seek offset .seekEnd => Seekable content readers (size content readers + offset)
  | .seek offset .seekCur =>
    match s.pos with
    | none => Seekable content readers offset
    | some (idx, o) =>
      offset = 0 ∧
        (o ≤ (content (readers.getD idx 0)).length ∨ (content (readers.getD idx 0)).length = 0)
  | .read len cap => len ≤ cap ∧ (cap = len ∨ s.left content readers ≤ len)

instance (x : Int) : Decidable (Seekable content readers x) := inferInstanceAs (Decidable (_ ∧ _ ∧ _))

instance (s : State) (c : Call) : Decidable (Fine content readers s c) :=
  match c with
  | .seek _ .seekSet => inferInstanceAs (Decidable (Seekable ..))
  | .seek _ .seekEnd => inferInstanceAs (Decidable (Seekable ..))
  | .seek offset .seekCur =>
    match s with
    | ⟨_, none⟩ => inferInstanceAs (Decidable (Seekable ..))
    | ⟨_, some (idx, o)⟩ =>
      inferInstanceAs (Decidable (offset = 0 ∧
        (o ≤ (content (readers.getD idx 0)).length ∨ (content (readers.getD idx 0)).length = 0)))
  | .read len cap => inferInstanceAs (Decidable (len ≤ cap ∧ (cap = len ∨ s.left content readers ≤ len)))

end

/-! ## The places of the readers -/

section

variable {content : ℕ → List UInt8} {readers : List ℕ} {s : State}

@[simp] theorem size_nil : size content [] = 0 := rfl

theorem size_append (l l' : List ℕ) : size content (l ++ l') = size content l + size content l' := by
  rw [size, List.flatMap_append, List.length_append, size, size]

theorem size_cons (id : ℕ) (l : List ℕ) : size content (id :: l) = (content id).length + size content l := by
  rw [size, List.flatMap_cons, List.length_append, size]

theorem seekReader_set (id : ℕ) {x : Int} (hx : 0 ≤ x) :
    s.seekReader content id x .seekSet = ({ s with place := Function.update s.place id x.toNat }, some x) := by
  have h : seekOne .seekSet (s.place id) (content id).length x = (x.toNat, some x) := if_neg (Int.not_lt.mpr hx)
  rw [State.seekReader, h]

/-- Asking for the size of a reader leaves it where it is. -/
theorem getReadSeekerSize_eq (id : ℕ) :
    getReadSeekerSize content s id = (s, ((content id).length : Int)) := by
  simp only [getReadSeekerSize, seekReader_set id (Int.natCast_nonneg (s.place id))]
  simp only [State.seekReader, Function.update_idem, Int.toNat_natCast, Function.update_eq_self]

theorem reset_spec (content : ℕ → List UInt8) (ids : List ℕ) (s : State) :
    (ids.foldl (fun s id => (s.seekReader content id 0 .seekSet).1) s).pos = s.pos ∧
      ∀ id, (ids.foldl (fun s id => (s.seekReader content id 0 .seekSet).1) s).place id =
        if id ∈ ids then 0 else s.place id := by
  induction ids generalizing s with
  | nil => exact ⟨rfl, fun id => (if_neg List.not_mem_nil).symm⟩
  | cons a ids ih =>
    rw [List.foldl_cons, seekReader_set a (Int.le_refl 0)]
    refine ⟨(ih _).1, fun id => ?_⟩
    rw [(ih _).2 id]
    by_cases hid : id = a
    · subst hid
      simp
    · simp [hid]

/-- The index of a reader that does not come again. -/
theorem posIdx_eq {pre rest : List ℕ} {id : ℕ} (hr : readers = pre ++ id :: rest) (hid : id ∉ rest) :
    posIdx readers (some id) = pre.length := by
  have hrev : readers.reverse = rest.reverse ++ id :: pre.reverse := by simp [hr]
  have hidx : readers.reverse.idxOf id = rest.length := by
    rw [hrev, List.idxOf_append_of_notMem (by simpa using hid), List.idxOf_cons_self, List.length_reverse,
      Nat.add_zero]
  simp only [posIdx, hidx]
  rw [hr, List.length_append, List.length_cons]
  omega

/-! ## Seeking -/

/-- The loop of a seek to a place, with the readers of `pre` behind it. -/
theorem seekSetLoop_spec {x : Int} (hx : Seekable content readers x) (hn : readers.Nodup)
    (hsize : size content readers < 9223372036854775808) (pre : List ℕ) {l : List ℕ} (hr : readers = pre ++ l)
    (hl : l ≠ []) (hpre : (size content pre : Int) ≤ x) (s : State) :
    (seekSetLoop content x l pre.length (size content pre) s).2 = .seek x false ∧
      At content readers (seekSetLoop content x l pre.length (size content pre) s).1 x.toNat := by
  induction l generalizing pre s with
  | nil => exact absurd rfl hl
  | cons id rest ih =>
    obtain ⟨h₀, hmax, hfar⟩ := hx
    have htot : size content readers = size content pre + ((content id).length + size content rest) := by
      rw [hr, size_append, size_cons]
    have hid : id ∉ rest := (List.nodup_cons.mp (hr ▸ hn).of_append_right).1
    rw [seekSetLoop.eq_def]
    simp only
    by_cases hgt : x > (size content pre : Int) + (content id).length
    · rw [if_pos hgt]
      cases rest with
      | nil =>
        -- behind the end
        have hlast : readers.getLastD 0 = id := by rw [hr, List.getLastD_eq_getLast?, List.getLast?_concat]; rfl
        rw [hlast] at hfar
        rw [seekReader_set id (by omega)]
        refine ⟨rfl, .beyond pre id hr ?_ ?_ ?_⟩
        · simp only [Function.update_self]
          rw [Int.toNat_of_nonneg (by omega)]
        · rw [size_nil] at htot
          omega
        · simp only [Function.update_self]
          omega
      | cons id' rest =>
        have ih := ih (pre ++ [id]) (by rw [hr, List.append_assoc, List.singleton_append]) (List.cons_ne_nil _ _)
          (by rw [size_append, size_cons, size_nil]; omega)
        rw [List.length_append, List.length_singleton, size_append, size_cons, size_nil, Nat.add_zero,
          Int.natCast_add] at ih
        exact ih _
    · rw [if_neg hgt, seekReader_set id (by omega)]
      obtain ⟨hpos, hplace⟩ := reset_spec content rest
        { (s.seekReader content id 0 .seekEnd).1 with
          place := Function.update (s.seekReader content id 0 .seekEnd).1.place id (x - size content pre).toNat }
      simp only at hplace hpos ⊢
      split_ifs with hend
      · -- at the end of this reader, which is the beginning of the next
        obtain ⟨hend, hrest⟩ := hend
        obtain ⟨id', rest, rfl⟩ := List.exists_cons_of_ne_nil hrest
        refine ⟨rfl, .within (pre ++ [id]) id' rest (by rw [hr, List.append_assoc, List.singleton_append]) ?_ ?_ ?_ ?_⟩
        · simp only [hplace, List.mem_cons_self, if_true, List.length_append, List.length_singleton]
          rfl
        · simp only [hplace, List.mem_cons_self, if_true]
          exact Nat.zero_le _
        · intro a ha
          simp only [hplace, if_pos (List.mem_cons_of_mem id' ha)]
        · simp only [hplace, List.mem_cons_self, if_true, size_append, size_cons]
          rw [size_nil]
          omega
      · refine ⟨rfl, .within pre id rest hr ?_ ?_ ?_ ?_⟩
        · simp only [hplace, if_neg hid, Function.update_self]
          rw [Int.toNat_of_nonneg (by omega)]
        · simp only [hplace, if_neg hid, Function.update_self]
          omega
        · intro a ha
          simp only [hplace, if_pos ha]
        · simp only [hplace, if_neg hid, Function.update_self]
          omega

theorem seekEnds_spec (content : ℕ → List UInt8) (ids : List ℕ) (total : Int) (s : State) :
    (seekEnds content ids total s).2 = total + size content ids ∧ (seekEnds content ids total s).1.pos = s.pos := by
  induction ids generalizing total s with
  | nil => exact ⟨by rw [size_nil]; exact (Int.add_zero total).symm, rfl⟩
  | cons id ids ih =>
    rw [seekEnds]
    refine ⟨?_, (ih _ _).2⟩
    rw [(ih _ _).1, size_cons]
    omega

/-- The loop of `getCurOffset`, from readers before the current one. -/
theorem curOffsetLoop_eq {idx id : ℕ} {o : Int} (hid : posIdx readers (some id) = idx) {ids : List ℕ}
    (hids : ∀ id' ∈ ids, posIdx readers (some id') ≠ idx) (total : Int) :
    curOffsetLoop content readers idx o (ids ++ [id]) total s = (s, total + size content ids + o) := by
  induction ids generalizing total with
  | nil => rw [List.nil_append, curOffsetLoop, if_pos hid, size_nil]; simp
  | cons a ids ih =>
    rw [List.cons_append, curOffsetLoop, if_neg (hids a List.mem_cons_self), getReadSeekerSize_eq]
    simp only
    rw [ih fun b hb => hids b (List.mem_cons_of_mem a hb), size_cons, Int.natCast_add, Int.add_assoc total]

/-- The current offset of a state that is at a reader. -/
theorem curOffset_eq (hn : readers.Nodup) {pre rest : List ℕ} {id : ℕ} (hr : readers = pre ++ id :: rest) (o : Int) :
    curOffsetLoop content readers pre.length o (readers.take (pre.length + 1)) 0 s = (s, size content pre + o) := by
  have htake : readers.take (pre.length + 1) = pre ++ [id] := by
    rw [hr, List.take_append, List.take_of_length_le (Nat.le_succ _), Nat.add_sub_cancel_left]
    rfl
  have hnd := hr ▸ hn
  have hid : posIdx readers (some id) = pre.length := posIdx_eq hr (List.nodup_cons.mp hnd.of_append_right).1
  rw [htake, curOffsetLoop_eq hid, Int.zero_add]
  intro a ha
  obtain ⟨u, v, rfl⟩ := List.append_of_mem ha
  have ha' : a ∉ v ++ id :: rest := by
    rw [List.append_assoc, List.cons_append] at hnd
    exact (List.nodup_cons.mp hnd.of_append_right).1
  have hr' : readers = u ++ a :: (v ++ id :: rest) := by rw [hr, List.append_assoc, List.cons_append]
  rw [posIdx_eq hr' ha', List.length_append, List.length_cons]
  omega

/-! ## Reading -/

theorem State.advance_self (s : State) (id n : ℕ) : (s.advance id n).place id = s.place id + n :=
  Function.update_self ..

theorem State.advance_of_ne (s : State) {id a : ℕ} (n : ℕ) (h : a ≠ id) : (s.advance id n).place a = s.place a :=
  Function.update_of_ne h ..

/-- `Read` takes the next bytes, from this reader on; it ends at a reader with
those behind it at their beginnings. -/
theorem readLoop_spec {id : ℕ} {rest : List ℕ} (hn : (id :: rest).Nodup) (bCap : ℕ) (buf : List UInt8)
    (rdr : Option ℕ) {s : State} (hle : s.place id ≤ (content id).length) (hrest : ∀ a ∈ rest, s.place a = 0) :
    ∃ s' pre id' rest', readLoop content (id :: rest) bCap buf rdr s =
        (s', buf ++ (((id :: rest).flatMap content).drop (s.place id)).take bCap, some id') ∧
      id :: rest = pre ++ id' :: rest' ∧ s'.place id' ≤ (content id').length ∧
      (∀ a ∈ rest', s'.place a = 0) ∧
      size content pre + s'.place id' =
        s.place id + ((((id :: rest).flatMap content).drop (s.place id)).take bCap).length := by
  induction rest generalizing id bCap buf rdr s with
  | nil =>
    refine ⟨s.advance id (((content id).drop (s.place id)).take bCap).length, [], id, [], ?_, rfl, ?_, ?_, ?_⟩
    · rw [readLoop, readLoop, ite_self, List.flatMap_singleton]
    · rw [State.advance_self, List.length_take, List.length_drop]
      omega
    · rintro a ⟨⟩
    · rw [State.advance_self, List.flatMap_singleton, size_nil, Nat.zero_add]
  | cons id₂ rest ih =>
    obtain ⟨hid, hn₂⟩ := List.nodup_cons.mp hn
    have hD : ((id :: id₂ :: rest).flatMap content).drop (s.place id) =
        (content id).drop (s.place id) ++ (id₂ :: rest).flatMap content := by
      rw [List.flatMap_cons, List.drop_append_of_le_length hle]
    have hplace : ∀ n, ∀ a ∈ id₂ :: rest, (s.advance id n).place a = 0 := by
      intro n a ha
      have hne : a ≠ id := fun h => hid (h ▸ ha)
      rw [s.advance_of_ne n hne, hrest a ha]
    rw [hD, readLoop]
    by_cases hfull : bCap ≤ ((content id).drop (s.place id)).length
    · -- the buffer is full within this reader
      rw [if_pos (by rw [List.length_take_of_le hfull, Nat.sub_self]), List.take_append_of_le_length hfull]
      refine ⟨_, [], id, id₂ :: rest, rfl, rfl, ?_, hplace _, ?_⟩
      · rw [State.advance_self, List.length_take_of_le hfull]
        rw [List.length_drop] at hfull
        omega
      · rw [State.advance_self, size_nil, Nat.zero_add]
    · have hall : ((content id).drop (s.place id)).take bCap = (content id).drop (s.place id) :=
        List.take_of_length_le (by omega)
      rw [hall, if_neg (by omega), List.take_append, hall]
      obtain ⟨s', pre, id', rest', hloop, hsplit, h₁, h₂, h₃⟩ := ih hn₂
        (bCap - ((content id).drop (s.place id)).length) (buf ++ (content id).drop (s.place id)) (some id)
        (s := s.advance id ((content id).drop (s.place id)).length)
        (by rw [hplace _ id₂ List.mem_cons_self]; exact Nat.zero_le _)
        (fun a ha => hplace _ a (List.mem_cons_of_mem _ ha))
      rw [hplace _ id₂ List.mem_cons_self, List.drop_zero] at hloop h₃
      refine ⟨s', id :: pre, id', rest', ?_, by rw [hsplit, List.cons_append], h₁, h₂, ?_⟩
      · rw [hloop, List.append_assoc]
      · rw [size_cons, List.length_append, List.length_drop] at *
        omega

/-! ## The calls -/

/-- A state that is within some reader, or at the start. -/
theorem At.reader (hne : readers ≠ []) {p : ℕ} (h : At content readers s p) :
    (∃ pre id rest, readers = pre ++ id :: rest ∧ (match s.pos with
        | none => 0
        | some (idx, _) => idx) = pre.length ∧ s.place id ≤ (content id).length ∧
      (∀ a ∈ rest, s.place a = 0) ∧ p = size content pre + s.place id) ∨
    ∃ pre id, readers = pre ++ [id] ∧ s.pos = some (pre.length, (s.place id : Int)) ∧ size content readers < p ∧
      p + (content id).length = size content pre + s.place id := by
  cases h with
  | start hpos hzero hp =>
    obtain ⟨id, rest, rfl⟩ := List.exists_cons_of_ne_nil hne
    have hid : s.place id = 0 := hzero id List.mem_cons_self
    refine .inl ⟨[], id, rest, rfl, by rw [hpos]; rfl, by omega, fun a ha => hzero a (List.mem_cons_of_mem _ ha), ?_⟩
    rw [hp, hid, size_nil]
  | within pre id rest hr hpos hle hrest hp => exact .inl ⟨pre, id, rest, hr, by rw [hpos], hle, hrest, hp⟩
  | beyond pre id hr hpos hlt hp => exact .inr ⟨pre, id, hr, hpos, hlt, hp⟩

/-- The bytes left, at a place within the contents. -/
theorem left_eq {p : ℕ} {pre rest : List ℕ} {id : ℕ} (hr : readers = pre ++ id :: rest)
    (hidx : (match s.pos with
        | none => 0
        | some (idx, _) => idx) = pre.length) (hle : s.place id ≤ (content id).length)
    (hrest : ∀ a ∈ rest, s.place a = 0) (hp : p = size content pre + s.place id) :
    s.left content readers = size content readers - p := by
  have hsum : (rest.map fun a => (content a).length - s.place a).sum = size content rest := by
    rw [size, List.length_flatMap]
    congr 1
    refine List.map_congr_left fun a ha => ?_
    rw [hrest a ha, Nat.sub_zero]
  rw [State.left, hidx, hr, List.drop_left, List.map_cons, List.sum_cons, hsum, size_append, size_cons]
  omega

theorem isEmpty_take {l : List UInt8} {n k : ℕ} (h : n ≤ k) :
    (decide (n ≠ 0) && (l.take k).isEmpty) = (decide (n ≠ 0) && l.isEmpty) := by
  by_cases hn : n = 0
  · simp [hn]
  · obtain ⟨k, rfl⟩ : ∃ m, k = m + 1 := ⟨k - 1, by omega⟩
    cases l <;> rfl

theorem read_spec (hne : readers ≠ []) (hn : readers.Nodup) {p len cap : ℕ} (h : At content readers s p)
    (hcap : len ≤ cap) (hfine : cap = len ∨ s.left content readers ≤ len) :
    (read content readers s len cap).2 = (callOne (readers.flatMap content) p (.read len cap)).2 ∧
      At content readers (read content readers s len cap).1 (callOne (readers.flatMap content) p (.read len cap)).1 := by
  rcases h.reader hne with ⟨pre, id, rest, hr, hidx, hle, hrest, hp⟩ | ⟨pre, id, hr, hpos, hlt, hp⟩
  · have hnd : (id :: rest).Nodup := (hr ▸ hn).of_append_right
    have hdrop : readers.drop pre.length = id :: rest := by rw [hr, List.drop_left]
    have hrem : (readers.flatMap content).drop p = ((id :: rest).flatMap content).drop (s.place id) := by
      rw [hr, List.flatMap_append, hp, ← List.drop_drop, size, List.drop_left]
    obtain ⟨s', pre', id', rest', hloop, hsplit, h₁, h₂, h₃⟩ := readLoop_spec hnd cap [] none hle hrest
    rw [List.nil_append, ← hrem] at hloop
    rw [← hrem] at h₃
    -- no more is taken from the readers than is returned
    have hlen : ((readers.flatMap content).drop p).take cap = ((readers.flatMap content).drop p).take len := by
      rcases hfine with rfl | hleft
      · rfl
      · rw [left_eq hr hidx hle hrest hp] at hleft
        have hl : ((readers.flatMap content).drop p).length ≤ len := by
          rw [List.length_drop]
          exact hleft
        rw [List.take_of_length_le hl, List.take_of_length_le (hl.trans hcap)]
    have hread : read content readers s len cap =
        ({ s' with pos := some (posIdx readers (some id'), (s'.place id' : Int)) },
          .read (((readers.flatMap content).drop p).take len)
            (decide (len ≠ 0) && ((readers.flatMap content).drop p).isEmpty)) := by
      simp only [read, hidx, hdrop, hloop]
      rw [isEmpty_take hcap, hlen, List.take_take, Nat.min_self]
    have hr' : readers = (pre ++ pre') ++ id' :: rest' := by rw [hr, hsplit, List.append_assoc]
    rw [hread]
    refine ⟨rfl, .within (pre ++ pre') id' rest' hr' ?_ h₁ h₂ ?_⟩
    · rw [posIdx_eq hr' (List.nodup_cons.mp (hsplit ▸ hnd).of_append_right).1]
    · simp only [callOne]
      rw [← hlen, size_append]
      omega
  · -- behind the end there is nothing to read
    have hsize : size content readers = size content pre + (content id).length := by
      rw [hr, size_append, size_cons, size_nil, Nat.add_zero]
    have hdrop : readers.drop pre.length = [id] := by rw [hr, List.drop_left]
    have hno : (content id).drop (s.place id) = [] := List.drop_eq_nil_of_le (by omega)
    have hrem : (readers.flatMap content).drop p = [] := List.drop_eq_nil_of_le (Nat.le_of_lt hlt)
    have hadv : s.advance id 0 = s := by rw [State.advance, Nat.add_zero, Function.update_eq_self]
    have hid : posIdx readers (some id) = pre.length := posIdx_eq hr List.not_mem_nil
    have hread : read content readers s len cap = (s, .read [] (decide (len ≠ 0) && true)) := by
      simp only [read, hpos, hdrop, readLoop, hno, List.take_nil, List.length_nil, hadv, List.append_nil, ite_self,
        hid, List.isEmpty_nil]
      rw [← hpos]
    rw [hread]
    refine ⟨?_, .beyond pre id hr hpos ?_ ?_⟩ <;> simp only [callOne, hrem, List.take_nil, List.isEmpty_nil,
      List.length_nil, Nat.add_zero]
    · exact hlt
    · exact hp

theorem seekSet_spec (hne : readers ≠ []) (hn : readers.Nodup) (hsize : size content readers < 9223372036854775808)
    {x : Int} (hx : Seekable content readers x) (s : State) :
    (seekSet content readers s x).2 = .seek x false ∧ At content readers (seekSet content readers s x).1 x.toNat :=
  seekSetLoop_spec hx hn hsize [] rfl hne hx.1 s

theorem callOne_seek {l : List UInt8} {p : ℕ} {offset x : Int} {whence : Whence}
    (hx : target whence p l.length offset = x) (h₀ : 0 ≤ x) :
    callOne l p (.seek offset whence) = (x.toNat, .seek x false) := by
  have h : seekOne whence p l.length offset = (x.toNat, some x) := by
    rw [seekOne, hx, if_neg (Int.not_lt.mpr h₀)]
  simp only [callOne, h]

/-- A call that is fine gives what it gives on one reader. -/
theorem call_spec (hne : readers ≠ []) (hn : readers.Nodup) (hsize : size content readers < 9223372036854775808)
    {p : ℕ} {c : Call} (h : At content readers s p) (hc : Fine content readers s c) :
    (call content readers s c).2 = (callOne (readers.flatMap content) p c).2 ∧
      At content readers (call content readers s c).1 (callOne (readers.flatMap content) p c).1 := by
  cases c with
  | read len cap => exact read_spec hne hn h hc.1 hc.2
  | seek offset whence =>
    cases whence with
    | seekSet =>
      rw [callOne_seek (x := offset) rfl hc.1]
      exact seekSet_spec hne hn hsize hc s
    | seekEnd =>
      have htot := (seekEnds_spec content readers 0 s).1
      rw [Int.zero_add] at htot
      rw [callOne_seek (x := size content readers + offset) rfl hc.1]
      simp only [call, seek, htot, true_and]
      exact (seekSet_spec hne hn hsize hc _).2
    | seekCur =>
      cases hpos : s.pos with
      | none =>
        simp only [Fine, hpos] at hc
        have hp : p = 0 := by
          cases h with
          | start _ _ hp => exact hp
          | within _ _ _ _ h' => rw [hpos] at h'; cases h'
          | beyond _ _ _ h' => rw [hpos] at h'; cases h'
        rw [callOne_seek (by rw [target, hp]; exact Int.zero_add _) hc.1]
        simp only [call, seek, hpos]
        exact seekSet_spec hne hn hsize hc s
      | some pos =>
        obtain ⟨idx, o⟩ := pos
        simp only [Fine, hpos] at hc
        obtain ⟨rfl, hend⟩ := hc
        rw [callOne_seek (x := p) (by rw [target, Int.add_zero]) (Int.natCast_nonneg p)]
        simp only [call, seek, hpos, if_true, Int.toNat_natCast]
        cases h with
        | start h' => rw [hpos] at h'; cases h'
        | within pre id rest hr h' hle hrest hp =>
          rw [hpos] at h'
          cases h'
          rw [curOffset_eq hn hr]
          refine ⟨?_, .within pre id rest hr hpos hle hrest hp⟩
          rw [hp, Int.natCast_add]
        | beyond pre id hr h' hlt hp =>
          rw [hpos] at h'
          cases h'
          -- the last reader is empty, so that its size has made no difference
          have hget : readers.getD pre.length 0 = id := by
            rw [hr, List.getD_eq_getElem?_getD, List.getElem?_concat_length]
            rfl
          have htot : size content readers = size content pre + (content id).length := by
            rw [hr, size_append, size_cons, size_nil, Nat.add_zero]
          rw [hget] at hend
          rw [curOffset_eq hn hr]
          refine ⟨?_, .beyond pre id hr hpos hlt hp⟩
          rw [show (p : Int) = size content pre + s.place id by omega]

end

/-! ## Runs -/

/-- The calls on the readers and on one reader of all the contents, with what
both returned. -/
structure Both where
  many : State
  one : ℕ
  replies : List (Reply × Reply)

def callBoth (content : ℕ → List UInt8) (readers : List ℕ) (b : Both) (c : Call) : Option Both :=
  some ⟨(call content readers b.many c).1, (callOne (readers.flatMap content) b.one c).1,
    b.replies ++ [((call content readers b.many c).2, (callOne (readers.flatMap content) b.one c).2)]⟩

/-- Different readers, all at their beginnings, whose sizes an `int64` can hold:
in every run of calls that are fine, each returns what it returns on one reader
of all the contents. -/
theorem multiReadSeeker_refines (content : ℕ → List UInt8) (readers : List ℕ) (hne : readers ≠ [])
    (hn : readers.Nodup) (hsize : size content readers < 9223372036854775808) (place : ℕ → ℕ)
    (hzero : ∀ id ∈ readers, place id = 0) {b : Both}
    (h : ReachesIf (callBoth content readers) (fun b c => Fine content readers b.many c) ⟨⟨place, none⟩, 0, []⟩ b) :
    ∀ r ∈ b.replies, r.1 = r.2 := by
  have hinv : At content readers b.many b.one ∧ ∀ r ∈ b.replies, r.1 = r.2 := by
    refine h.inv (I := fun b => At content readers b.many b.one ∧ ∀ r ∈ b.replies, r.1 = r.2)
      ⟨.start rfl hzero rfl, fun r hr => absurd hr List.not_mem_nil⟩ ?_
    rintro b c b' - ⟨hat, hrep⟩ hc ⟨⟩
    obtain ⟨hreply, hat'⟩ := call_spec hne hn hsize hat hc
    refine ⟨hat', fun r hr => ?_⟩
    rcases List.mem_append.mp hr with hr | hr
    · exact hrep r hr
    · rw [List.mem_singleton.mp hr]
      exact hreply
  exact hinv.2

/-- Three readers, of "ab", nothing and "cd": reads over their ends, and seeks of
all three kinds. -/
theorem multiReadSeeker_refines_calls : ∃ b : Both,
    ReachesIf (callBoth (fun n => [[97, 98], [], [99, 100]].getD n []) [0, 1, 2])
      (fun b c => Fine (fun n => [[97, 98], [], [99, 100]].getD n []) [0, 1, 2] b.many c) ⟨⟨fun _ => 0, none⟩, 0, []⟩ b ∧
    (∀ r ∈ b.replies, r.1 = r.2) ∧
      b.replies.map (·.1) = [.read [97, 98, 99] false, .seek 3 false, .seek 1 false, .read [98, 99, 100] false,
        .read [] true, .seek 2 false, .read [99] false] := by
  obtain ⟨b, hb, hr⟩ := ReachesIf.of_view
    (callBoth (fun n => [[97, 98], [], [99, 100]].getD n []) [0, 1, 2])
    (fun b c => Fine (fun n => [[97, 98], [], [99, 100]].getD n []) [0, 1, 2] b.many c) ⟨⟨fun _ => 0, none⟩, 0, []⟩
    [.read 3 3, .seek 0 .seekCur, .seek 1 .seekSet, .read 5 8, .read 1 1, .seek (-2) .seekEnd, .read 1 1]
    (fun b => b.replies.map (·.1))
    (b := [.read [97, 98, 99] false, .seek 3 false, .seek 1 false, .read [98, 99, 100] false, .read [] true,
      .seek 2 false, .read [99] false]) (by decide +kernel)
  exact ⟨b, hb, multiReadSeeker_refines _ _ (by decide) (by decide) (by decide) _ (fun _ _ => rfl) hb, hr⟩

/-- Readers of "ab" and "cd", a seek to 1 and a seek by 1 from there: the read
returns "b" and not "c". -/
theorem seek_cur_wrong : ∃ b : Both,
    Reaches (callBoth (fun n => [[97, 98], [99, 100]].getD n []) [0, 1]) ⟨⟨fun _ => 0, none⟩, 0, []⟩ b ∧
      b.replies = [(.seek 1 false, .seek 1 false), (.seek 2 false, .seek 2 false),
        (.read [98] false, .read [99] false)] :=
  ReachesIf.of_view (callBoth (fun n => [[97, 98], [99, 100]].getD n []) [0, 1]) (fun _ _ => True)
    ⟨⟨fun _ => 0, none⟩, 0, []⟩ [.seek 1 .seekSet, .seek 1 .seekCur, .read 1 1] Both.replies (by decide +kernel)

end Moby.Ioutils
