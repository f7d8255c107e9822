import Moby.Framework.GoSort
import Moby.Framework.Slice
import Mathlib.Algebra.GroupWithZero.Nat
import Mathlib.Algebra.BigOperators.Group.List.Basic

/-!
# Batches of log events (daemon/logger/awslogs/cloudwatchlogs.go)

`collectBatch` cuts the messages into fragments and collects them in one slice, whose array it uses
again after each publication; `publishBatch` sorts the slice by the times and puts it. The elements of
the slice are those of a list (`Collector.Holds`), so the batches that are put are the sorted parts of
the list of all fragments (`collectBatch_batches`).
-/

namespace Moby.Logger.Awslogs

open Moby.Framework

def perEventBytes : ℕ := 26

def maximumBytesPerPut : ℕ := 1048576

def maximumLogEventsPerPut : ℕ := 10000

def maximumBytesPerEvent : ℕ := 262144 - perEventBytes

/-- `InputLogEvent`; the time is in milliseconds. -/
structure InputLogEvent where
  message : List UInt8
  timestamp : ℤ
  deriving DecidableEq

/-- `byTimestamp`. -/
def byTimestamp (x y : InputLogEvent) : Bool := decide (x.timestamp < y.timestamp)

/-- What the goroutine receives before the channel is closed. The time of a message is its `UnixNano`. -/
inductive Input
  | tick
  | message (line : List UInt8) (unixNano : ℤ)
  deriving DecidableEq

/-- `events` and `bytes`, the arrays, and what has been put. -/
structure Collector where
  heap : Heap InputLogEvent
  events : Slice
  bytes : ℕ
  puts : List (List InputLogEvent)

namespace Collector

def init : Collector := { heap := [], events := .nil, bytes := 0, puts := [] }

/-- `publishBatch`, where the put succeeds: the slice is sorted in its place, and put if it is not
empty. -/
def publishBatch (c : Collector) : Collector :=
  if c.events.len = 0 then c
  else
    let sorted := GoSort.sort byTimestamp (c.events.read c.heap)
    let heap := (Slice.append (fun _ _ => 0) ⟨[], 0⟩ c.heap { c.events with len := 0 } sorted).1
    { c with heap := heap, puts := c.puts ++ [c.events.read heap] }

/-- `events = events[:0]`. -/
def reset (c : Collector) : Collector := { c with events := { c.events with len := 0 }, bytes := 0 }

/-- The event of a fragment. The runtime chooses how much larger than needed a new array is. -/
def add (spare : ℕ → ℕ → ℕ) (c : Collector) (e : InputLogEvent) : Collector :=
  let c :=
    if maximumLogEventsPerPut ≤ c.events.len ∨ maximumBytesPerPut < c.bytes + e.message.length + perEventBytes then
      c.publishBatch.reset
    else c
  let r := Slice.append spare ⟨[], 0⟩ c.heap c.events [e]
  { c with heap := r.1, events := r.2, bytes := c.bytes + (e.message.length + perEventBytes) }

/-- The loop over a line, with a bound for its steps. -/
def addLine (spare : ℕ → ℕ → ℕ) (timestamp : ℤ) : ℕ → List UInt8 → Collector → Collector
  | 0, _, c => c
  | n + 1, line, c =>
    if line = [] then c
    else
      let lineBytes := min line.length maximumBytesPerEvent
      addLine spare timestamp n (line.drop lineBytes) (c.add spare { message := line.take lineBytes, timestamp := timestamp })

def step (spare : ℕ → ℕ → ℕ) (c : Collector) : Input → Collector
  | .tick => c.publishBatch.reset
  | .message line unixNano => addLine spare (unixNano.tdiv 1000000) line.length line c

end Collector

/-- `collectBatch`, until the channel has been closed and the goroutine ends. -/
def collectBatch (spare : ℕ → ℕ → ℕ) (inputs : List Input) : Collector :=
  (inputs.foldl (Collector.step spare) .init).publishBatch

/-! ## What is to be put -/

/-- The fragments of a line, each as long as it may be. -/
def fragments : ℕ → List UInt8 → List (List UInt8)
  | 0, _ => []
  | n + 1, line =>
    if line = [] then [] else line.take maximumBytesPerEvent :: fragments n (line.drop maximumBytesPerEvent)

def Input.events : Input → List InputLogEvent
  | .tick => []
  | .message line unixNano =>
    (fragments line.length line).map fun fragment => { message := fragment, timestamp := unixNano.tdiv 1000000 }

/-- The bytes of a batch as they are counted. -/
def size (batch : List InputLogEvent) : ℕ := (batch.map fun e => e.message.length + perEventBytes).sum

/-- A batch within the limits. -/
def Fits (batch : List InputLogEvent) : Prop := batch.length ≤ maximumLogEventsPerPut ∧ size batch ≤ maximumBytesPerPut

theorem fits_nil : Fits [] := ⟨Nat.zero_le _, Nat.zero_le _⟩

theorem size_concat (batch : List InputLogEvent) (e : InputLogEvent) :
    size (batch ++ [e]) = size batch + (e.message.length + perEventBytes) := by
  simp [size]

theorem Fits.perm {b b' : List InputLogEvent} (h : Fits b) (hp : b'.Perm b) : Fits b' := by
  refine ⟨hp.length_eq ▸ h.1, ?_⟩
  have hsum : size b' = size b := (hp.map _).sum_eq
  rw [hsum]
  exact h.2

/-- A line cut into fragments, each as long as it may be. -/
structure Cut (line : List UInt8) (fs : List (List UInt8)) : Prop where
  flatten : fs.flatten = line
  short : ∀ f ∈ fs, 0 < f.length ∧ f.length ≤ maximumBytesPerEvent
  full : ∀ f ∈ fs.dropLast, f.length = maximumBytesPerEvent

theorem cut_nil : Cut [] [] := ⟨rfl, by simp, by simp⟩

theorem Cut.cons {line : List UInt8} {fs : List (List UInt8)} (hne : line ≠ []) (h : Cut (line.drop maximumBytesPerEvent) fs) :
    Cut line (line.take maximumBytesPerEvent :: fs) := by
  have hpos : 0 < maximumBytesPerEvent := by decide
  have hlen := List.length_pos_iff.mpr hne
  refine ⟨?_, fun f hf => ?_, fun f hf => ?_⟩
  · rw [List.flatten_cons, h.flatten, List.take_append_drop]
  · rcases List.mem_cons.mp hf with rfl | hf
    · rw [List.length_take]
      omega
    · exact h.short f hf
  · cases fs with
    | nil => cases hf
    | cons g gs =>
      rw [List.dropLast_cons_of_ne_nil (List.cons_ne_nil g gs)] at hf
      rcases List.mem_cons.mp hf with rfl | hf
      · -- Something is left behind the fragment.
        have hg := (h.short g List.mem_cons_self).1
        have hrest : (line.drop maximumBytesPerEvent).length = g.length + gs.flatten.length := by
          rw [← h.flatten, List.flatten_cons, List.length_append]
        rw [List.length_drop] at hrest
        rw [List.length_take]
        omega
      · exact h.full f hf

theorem cut_fragments {n : ℕ} {line : List UInt8} (hn : line.length ≤ n) : Cut line (fragments n line) := by
  have hpos : 0 < maximumBytesPerEvent := by decide
  induction n generalizing line with
  | zero =>
    obtain rfl := List.length_eq_zero_iff.mp (Nat.le_zero.mp hn)
    exact cut_nil
  | succ n ih =>
    rw [fragments]
    by_cases hnil : line = []
    · rw [if_pos hnil, hnil]
      exact cut_nil
    · have hlen := List.length_pos_iff.mpr hnil
      rw [if_neg hnil]
      refine .cons hnil (ih ?_)
      rw [List.length_drop]
      omega

/-! ## The slice and the list -/

namespace Collector

variable {c : Collector} {batch : List InputLogEvent} {batches : List (List InputLogEvent)}

/-- The collector has the events of a batch, and has put the sorted batches before it. -/
structure Holds (c : Collector) (batch : List InputLogEvent) (batches : List (List InputLogEvent)) : Prop where
  mem : c.events.In c.heap
  read : c.events.read c.heap = batch
  bytes : c.bytes = size batch
  puts : c.puts = batches.map (GoSort.sort byTimestamp)
  nonempty : ∀ b ∈ batches, b ≠ []
  fits : Fits batch
  allFit : ∀ b ∈ batches, Fits b

theorem holds_init : init.Holds [] [] where
  mem := ⟨Nat.le_refl _, (fun a ha => by cases ha), fun _ => rfl⟩
  read := rfl
  bytes := rfl
  puts := rfl
  nonempty := by simp
  fits := fits_nil
  allFit := by simp

theorem len_eq (h : c.Holds batch batches) : c.events.len = batch.length := by rw [← h.read, h.mem.length_read]

/-- The batches after a publication. -/
def published (batches : List (List InputLogEvent)) (batch : List InputLogEvent) : List (List InputLogEvent) :=
  if batch = [] then batches else batches ++ [batch]

theorem flatten_published : (published batches batch).flatten = batches.flatten ++ batch := by
  rw [published]
  split
  · rename_i h
    rw [h, List.append_nil]
  · simp

/-- Sorting in place: the slice has the sorted elements. -/
theorem read_sorted (h : c.Holds batch batches) (hne : c.events.len ≠ 0) :
    c.events.In (Slice.append (fun _ _ => 0) ⟨[], 0⟩ c.heap { c.events with len := 0 } (GoSort.sort byTimestamp batch)).1 ∧
    c.events.read (Slice.append (fun _ _ => 0) ⟨[], 0⟩ c.heap { c.events with len := 0 } (GoSort.sort byTimestamp batch)).1 =
      GoSort.sort byTimestamp batch := by
  have hsafe : Slice.Safe c.heap (fun _ => False) { c.events with len := 0 } := ⟨h.mem.take (Nat.zero_le _), fun _ hf => hf.elim⟩
  have happ := hsafe.append (fun _ _ => 0) ⟨[], 0⟩ (GoSort.sort byTimestamp batch)
  have hlen : (GoSort.sort byTimestamp batch).length = c.events.len := by
    rw [(GoSort.perm_sort batch).length_eq, len_eq h]
  have hcap : (0 : ℕ) + (GoSort.sort byTimestamp batch).length ≤ c.events.cap := by
    rw [hlen, Nat.zero_add]
    exact h.mem.len_le
  -- There is room for the elements, so they are written over the old ones.
  have hslice : (Slice.append (fun _ _ => 0) ⟨[], 0⟩ c.heap { c.events with len := 0 } (GoSort.sort byTimestamp batch)).2 =
      c.events := by
    rw [Slice.append, if_pos hcap]
    cases harray : c.events.array with
    | none =>
      have := h.mem.nil harray
      have := h.mem.len_le
      omega
    | some a =>
      dsimp only
      rw [hlen, Nat.zero_add, ← harray]
  refine ⟨happ.frame.others _ h.mem, ?_⟩
  have hread := happ.read
  rw [hslice, Slice.read_take (Nat.zero_le _), List.take_zero, List.nil_append] at hread
  exact hread

theorem Holds.publishBatch (h : c.Holds batch batches) :
    c.publishBatch.puts = (published batches batch).map (GoSort.sort byTimestamp) ∧
    c.publishBatch.events.In c.publishBatch.heap := by
  have hlen := len_eq h
  rw [Collector.publishBatch, published]
  by_cases hnil : batch = []
  · rw [if_pos hnil, if_pos (by rw [hlen, hnil]; rfl)]
    exact ⟨h.puts, h.mem⟩
  · have hne : c.events.len ≠ 0 := by
      rw [hlen]
      exact fun hz => hnil (List.length_eq_zero_iff.mp hz)
    rw [if_neg hnil, if_neg hne, h.read]
    obtain ⟨hin, hread⟩ := read_sorted h hne
    dsimp only
    rw [hread, h.puts, List.map_append, List.map_singleton]
    exact ⟨rfl, hin⟩

theorem Holds.reset (h : c.Holds batch batches) : c.publishBatch.reset.Holds [] (published batches batch) := by
  obtain ⟨hputs, hin⟩ := h.publishBatch
  refine ⟨hin.take (Nat.zero_le _), (Slice.read_take (Nat.zero_le _)).trans List.take_zero, rfl, hputs,
    fun b hb => ?_, fits_nil, fun b hb => ?_⟩
  · rw [published] at hb
    split at hb
    · exact h.nonempty b hb
    · rename_i hne
      rcases List.mem_append.mp hb with hb | hb
      · exact h.nonempty b hb
      · exact List.mem_singleton.mp hb ▸ hne
  · rw [published] at hb
    split at hb
    · exact h.allFit b hb
    · rcases List.mem_append.mp hb with hb | hb
      · exact h.allFit b hb
      · exact List.mem_singleton.mp hb ▸ h.fits

/-- An event for which there is room. -/
theorem Holds.append (h : c.Holds batch batches) (spare : ℕ → ℕ → ℕ) (e : InputLogEvent) (hfits : Fits (batch ++ [e])) :
    Holds { c with
      heap := (Slice.append spare ⟨[], 0⟩ c.heap c.events [e]).1
      events := (Slice.append spare ⟨[], 0⟩ c.heap c.events [e]).2
      bytes := c.bytes + (e.message.length + perEventBytes) } (batch ++ [e]) batches := by
  have hsafe : Slice.Safe c.heap (fun _ => False) c.events := ⟨h.mem, fun _ hf => hf.elim⟩
  have happ := hsafe.append spare ⟨[], 0⟩ [e]
  refine ⟨happ.safe.mem, ?_, ?_, h.puts, h.nonempty, hfits, h.allFit⟩
  · rw [happ.read, h.read]
  · rw [h.bytes, size_concat]

theorem Holds.add (h : c.Holds batch batches) (spare : ℕ → ℕ → ℕ) (e : InputLogEvent)
    (he : e.message.length ≤ maximumBytesPerEvent) : ∃ batch' batches', (c.add spare e).Holds batch' batches' ∧
      batches'.flatten ++ batch' = batches.flatten ++ batch ++ [e] := by
  have hsmall : maximumBytesPerEvent + perEventBytes ≤ maximumBytesPerPut := by decide
  rw [Collector.add]
  split
  · -- The batch is published, and the event is the first of the next one.
    have hfits : Fits ([] ++ [e]) := by
      refine ⟨by simp [maximumLogEventsPerPut], ?_⟩
      rw [size_concat]
      simp only [size, List.map_nil, List.sum_nil]
      omega
    refine ⟨[] ++ [e], published batches batch, h.reset.append spare e hfits, ?_⟩
    rw [flatten_published, List.nil_append]
  · rename_i hroom
    have hlen := len_eq h
    have hbytes := h.bytes
    have hfits : Fits (batch ++ [e]) := by
      rw [not_or] at hroom
      refine ⟨by rw [List.length_append, List.length_singleton]; omega, ?_⟩
      rw [size_concat]
      omega
    exact ⟨batch ++ [e], batches, h.append spare e hfits, (List.append_assoc _ _ _).symm⟩

theorem Holds.addLine (spare : ℕ → ℕ → ℕ) (timestamp : ℤ) (n : ℕ) {line : List UInt8} (h : c.Holds batch batches) :
    ∃ batch' batches', (c.addLine spare timestamp n line).Holds batch' batches' ∧ batches'.flatten ++ batch' =
      batches.flatten ++ batch ++ (fragments n line).map fun f => { message := f, timestamp := timestamp } := by
  induction n generalizing c line batch batches with
  | zero => exact ⟨batch, batches, h, (List.append_nil _).symm⟩
  | succ n ih =>
    rw [Collector.addLine, fragments]
    split
    · exact ⟨batch, batches, h, (List.append_nil _).symm⟩
    · have htake : line.take (min line.length maximumBytesPerEvent) = line.take maximumBytesPerEvent := by
        rw [Nat.min_comm, ← List.take_take, List.take_length]
      have hdrop : line.drop (min line.length maximumBytesPerEvent) = line.drop maximumBytesPerEvent := by
        rcases Nat.le_total line.length maximumBytesPerEvent with hle | hle
        · rw [Nat.min_eq_left hle, List.drop_length, List.drop_eq_nil_of_le hle]
        · rw [Nat.min_eq_right hle]
      dsimp only
      rw [htake, hdrop]
      obtain ⟨b₁, bs₁, h₁, hflat₁⟩ := h.add spare { message := line.take maximumBytesPerEvent, timestamp := timestamp }
        (List.length_take_le _ _)
      obtain ⟨b₂, bs₂, h₂, hflat₂⟩ := ih h₁
      refine ⟨b₂, bs₂, h₂, ?_⟩
      rw [hflat₂, hflat₁, List.map_cons, List.append_assoc _ [_], List.singleton_append]

theorem Holds.step (spare : ℕ → ℕ → ℕ) (i : Input) (h : c.Holds batch batches) :
    ∃ batch' batches', (c.step spare i).Holds batch' batches' ∧
      batches'.flatten ++ batch' = batches.flatten ++ batch ++ i.events := by
  cases i with
  | tick =>
    refine ⟨[], published batches batch, h.reset, ?_⟩
    rw [flatten_published, Input.events]
  | message line unixNano => exact h.addLine spare _ _

theorem Holds.run (spare : ℕ → ℕ → ℕ) (inputs : List Input) (h : c.Holds batch batches) :
    ∃ batch' batches', (inputs.foldl (Collector.step spare) c).Holds batch' batches' ∧
      batches'.flatten ++ batch' = batches.flatten ++ batch ++ inputs.flatMap Input.events := by
  induction inputs generalizing c batch batches with
  | nil => exact ⟨batch, batches, h, (List.append_nil _).symm⟩
  | cons i inputs ih =>
    obtain ⟨b₁, bs₁, h₁, hflat₁⟩ := h.step spare i
    obtain ⟨b₂, bs₂, h₂, hflat₂⟩ := ih h₁
    refine ⟨b₂, bs₂, h₂, ?_⟩
    rw [hflat₂, hflat₁, List.flatMap_cons, List.append_assoc]

end Collector

open Collector in
/-- The batches are the parts, in their order, of the list of all events; each is put sorted. -/
theorem collectBatch_batches (spare : ℕ → ℕ → ℕ) (inputs : List Input) : ∃ batches : List (List InputLogEvent),
    (collectBatch spare inputs).puts = batches.map (GoSort.sort byTimestamp) ∧
    batches.flatten = inputs.flatMap Input.events ∧ ∀ b ∈ batches, Fits b := by
  obtain ⟨batch, batches, h, hflat⟩ := holds_init.run spare inputs
  refine ⟨published batches batch, h.publishBatch.1, ?_, h.reset.allFit⟩
  rw [flatten_published, hflat]
  rfl

/-- For every sequence of messages and ticks, each put is within the limits, and what has been put when
the goroutine ends are the maximal fragments of all messages, each once. -/
theorem collectBatch_ok (spare : ℕ → ℕ → ℕ) (inputs : List Input) :
    (∀ put ∈ (collectBatch spare inputs).puts, put.length ≤ maximumLogEventsPerPut ∧
      (put.map fun e => e.message.length + perEventBytes).sum ≤ maximumBytesPerPut) ∧
    (collectBatch spare inputs).puts.flatten.Perm (inputs.flatMap Input.events) ∧
    ∀ line unixNano, ∃ fs, Cut line fs ∧ (Input.message line unixNano).events =
      fs.map fun f => { message := f, timestamp := unixNano.tdiv 1000000 } := by
  obtain ⟨batches, hputs, hflat, hfits⟩ := collectBatch_batches spare inputs
  rw [hputs]
  refine ⟨fun put hput => ?_, ?_, fun line unixNano => ⟨_, cut_fragments (Nat.le_refl _), rfl⟩⟩
  · obtain ⟨b, hb, rfl⟩ := List.mem_map.mp hput
    exact (hfits b hb).perm (GoSort.perm_sort b)
  · rw [← hflat]
    clear hputs hflat hfits
    induction batches with
    | nil => exact .refl _
    | cons b batches ih => exact (GoSort.perm_sort b).append ih

/-! ## The order of events of one time -/

/-- No event of the batch is older than the one six places before it. -/
def NoneOlder (batch : List InputLogEvent) : Prop :=
  ∀ i x y, batch[i]? = some x → batch[i + 6]? = some y → x.timestamp ≤ y.timestamp

theorem filter_sort_of_noneOlder {batch : List InputLogEvent} (hlen : batch.length ≤ 12) (holder : NoneOlder batch) (t : ℤ) :
    (GoSort.sort byTimestamp batch).filter (fun e => decide (e.timestamp = t)) =
      batch.filter fun e => decide (e.timestamp = t) := by
  refine GoSort.filter_sort (fun x y hless hboth => ?_) hlen fun i => ?_
  · have hlt := of_decide_eq_true hless
    have hx := of_decide_eq_true hboth.1
    have hy := of_decide_eq_true hboth.2
    omega
  · refine Bool.eq_false_iff.mpr fun hless => ?_
    obtain ⟨y, x, hy, hx, hlt⟩ := GoSort.lessAt_eq_true hless
    exact absurd (holder i x y hx hy) (Int.not_le.mpr (of_decide_eq_true hlt))

/-- The events of the time `t` are alone in the batch, there is at most one of them, or the batch has at most 12
events and none of them is older than the one six places before it. -/
def Orderly (batch : List InputLogEvent) (t : ℤ) : Prop :=
  (∀ e ∈ batch, e.timestamp = t) ∨ (batch.filter fun e => decide (e.timestamp = t)).length ≤ 1 ∨
    batch.length ≤ 12 ∧ NoneOlder batch

theorem filter_sort_of_orderly {batch : List InputLogEvent} {t : ℤ} (h : Orderly batch t) :
    (GoSort.sort byTimestamp batch).filter (fun e => decide (e.timestamp = t)) =
      batch.filter fun e => decide (e.timestamp = t) := by
  rcases h with hall | hone | ⟨hlen, holder⟩
  · by_cases hlen : batch.length ≤ 12
    · refine filter_sort_of_noneOlder hlen (fun i x y hx hy => ?_) t
      exact Int.le_of_eq ((hall x (List.mem_of_getElem? hx)).trans (hall y (List.mem_of_getElem? hy)).symm)
    · rw [GoSort.sort_eq_self (fun i j => Bool.eq_false_iff.mpr fun hless => ?_) (Nat.not_le.mp hlen)]
      obtain ⟨x, y, hx, hy, hlt⟩ := GoSort.lessAt_eq_true hless
      have hlt := of_decide_eq_true hlt
      rw [hall x (List.mem_of_getElem? hx), hall y (List.mem_of_getElem? hy)] at hlt
      exact Int.lt_irrefl t hlt
  · have hperm := (@GoSort.perm_sort _ byTimestamp batch).filter fun e => decide (e.timestamp = t)
    generalize batch.filter (fun e => decide (e.timestamp = t)) = events at hone hperm ⊢
    match events, hone with
    | [], _ => exact hperm.eq_nil
    | [e], _ => exact List.perm_singleton.mp hperm
  · exact filter_sort_of_noneOlder hlen holder t

/-- The events of one time that are in one batch are put in the order in which they were logged, if they are alone
or few. -/
theorem collectBatch_order (spare : ℕ → ℕ → ℕ) (inputs : List Input) : ∃ batches : List (List InputLogEvent),
    (collectBatch spare inputs).puts = batches.map (GoSort.sort byTimestamp) ∧
    batches.flatten = inputs.flatMap Input.events ∧
    ∀ batch ∈ batches, ∀ t, Orderly batch t →
      (GoSort.sort byTimestamp batch).filter (fun e => decide (e.timestamp = t)) =
        batch.filter fun e => decide (e.timestamp = t) := by
  obtain ⟨batches, hputs, hflat, -⟩ := collectBatch_batches spare inputs
  exact ⟨batches, hputs, hflat, fun _ _ _ => filter_sort_of_orderly⟩

/-- Six events of one time and then an older one. -/
def late : List Input :=
  [.message [97] 1000000, .message [98] 1000000, .message [99] 1000000, .message [100] 1000000, .message [101] 1000000,
    .message [102] 1000000, .message [103] 0]

/-- The event that was logged first is put last. -/
theorem collectBatch_reorders :
    (late.flatMap Input.events).map (fun e => (e.message, e.timestamp)) =
      [([97], 1), ([98], 1), ([99], 1), ([100], 1), ([101], 1), ([102], 1), ([103], 0)] ∧
    (collectBatch (fun _ n => n) late).puts.map (fun put => put.map fun e => (e.message, e.timestamp)) =
      [[([103], 0), ([98], 1), ([99], 1), ([100], 1), ([101], 1), ([102], 1), ([97], 1)]] := by
  decide +kernel

end Moby.Logger.Awslogs
