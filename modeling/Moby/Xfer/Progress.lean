import Moby.Framework.Machine
import Mathlib.Data.Finset.Basic
import Mathlib.Data.List.Basic

/-!
# The progress of a transfer

`Broadcast`, `Watch` and `Release` of `distribution/xfer/transfer.go`, as far
as they hand the progress of a transfer from its function to those who watch
it. The broadcaster keeps the last item it received, and signals the watchers
that are at their `select`; the others miss the signal. A watcher that is
released makes sure that the broadcaster has caught up before it looks at the
last item once more.
-/

namespace Moby.Xfer

open Framework

variable {P : Type}

/-- A progress, and how many the broadcaster had received before it. -/
structure Item (P : Type) where
  seq : ℕ
  p : P

/-- The point that `Broadcast` has reached. -/
inductive Broadcaster (P : Type)
  /-- At the first `select`. -/
  | receives
  /-- At the second `select`: the master channel was empty. -/
  | idles
  /-- At `t.mu.Lock()`, with a progress. -/
  | got (i : Item P)
  /-- At `t.mu.Lock()`, after the master channel was closed. -/
  | gotNone
  /-- At `close(t.running)`. -/
  | finishes
  | returned

/-- The point that the goroutine of a watcher has reached. -/
inductive Watching (P : Type)
  /-- At `t.mu.Lock()`. -/
  | reads
  /-- It has `hasLastProgress` and `lastProgress`. -/
  | writes (last : Option (Item P))
  | selects
  /-- At the `select` that waits for the broadcaster. -/
  | syncs
  | returned

def Watching.atSelect : Watching P → Bool
  | .selects => true
  | _ => false

theorem Watching.atSelect_iff {g : Watching P} : g.atSelect = true ↔ g = .selects := by
  cases g <;> simp [atSelect]

/-- The point that the call of `Release` has reached, and how many items the
broadcaster had received when it was called. -/
inductive Releasing
  | notCalled
  | called (n : ℕ)
  /-- The watcher is no longer among those of the transfer. -/
  | detached (n : ℕ)
  /-- `releaseChan` is closed, and the call waits for the goroutine. -/
  | waits (n : ℕ)
  | returned (n : ℕ)
  deriving DecidableEq

/-- `Watcher`, with the variables of its goroutine and its output. -/
structure Watcher (P : Type) where
  /-- It was attached before the master channel was closed. -/
  early : Bool := false
  /-- It is one of the watchers of the transfer. -/
  attached : Bool := true
  goroutine : Watching P := .reads
  running : Bool := true
  done : Bool := false
  lastWritten : Option (Item P) := none
  output : List (Item P) := []
  release : Releasing := .notCalled

/-- The part of `transfer` that progress goes through, with the watchers,
numbered as they came. -/
structure Bus (P : Type) where
  /-- What the broadcaster has received. -/
  received : List P := []
  masterClosed : Bool := false
  broadcaster : Broadcaster P := .receives
  lastProgress : Option (Item P) := none
  broadcastDone : Bool := false
  running : Bool := true
  watchers : ℕ → Watcher P := fun _ => {}
  count : ℕ := 0

/-- What a thread does next. -/
inductive Act (P : Type)
  /-- The function of the transfer sends a progress to the broadcaster. -/
  | send (p : P)
  | closeMaster
  /-- The broadcaster finds the master channel empty. -/
  | deplete
  /-- The broadcaster finds the master channel closed. -/
  | receiveNone
  /-- The broadcaster stores the progress, and signals these watchers. -/
  | store (signalled : Finset ℕ)
  | storeNone
  | closeRunning
  | watch
  /-- The watcher looks at the last progress. -/
  | read (w : ℕ)
  /-- The watcher writes what it has read, if it is new, and goes on. -/
  | write (w : ℕ)
  /-- The watcher chooses `releaseChan`. -/
  | onRelease (w : ℕ)
  /-- The watcher chooses `t.running`. -/
  | onRunning (w : ℕ)
  /-- The watcher and the broadcaster meet at `broadcastSyncChan`. -/
  | sync (w : ℕ)
  /-- The watcher chooses `t.running`, as it waits for the broadcaster. -/
  | syncRunning (w : ℕ)
  | release (w : ℕ)
  | detach (w : ℕ)
  | closeRelease (w : ℕ)
  | releaseReturns (w : ℕ)

namespace Bus

variable (s : Bus P)

def set (w : ℕ) (f : Watcher P → Watcher P) : Bus P :=
  { s with watchers := Function.update s.watchers w (f (s.watchers w)) }

/-- `Watch`: after the end of `Broadcast` there is no goroutine. -/
def watch : Bus P :=
  let w : Watcher P := { early := !s.masterClosed }
  let w := if s.broadcastDone then { w with goroutine := .returned, running := false } else w
  { s with watchers := Function.update s.watchers s.count w, count := s.count + 1 }

/-- The signalled watchers go back to the start of their loop. -/
def signal (ws : Finset ℕ) : Bus P :=
  { s with watchers := fun w => if w ∈ ws then { s.watchers w with goroutine := .reads } else s.watchers w }

end Bus

/-- The end of an iteration of the watcher. -/
def Watcher.loop (w : Watcher P) : Watcher P :=
  if w.done then { w with goroutine := .returned, running := false } else { w with goroutine := .selects }

variable [DecidableEq P]

/-- The watcher writes `last`, unless it is about to return and has written
the same before. -/
def Watcher.write (w : Watcher P) : Option (Item P) → Watcher P
  | none => w
  | some i =>
    if w.done = false ∨ w.lastWritten.map Item.p ≠ some i.p then
      { w with output := w.output ++ [i], lastWritten := some i }
    else w

namespace Bus

/-- The effect of what a thread does; `none` if it cannot do it. -/
def exec (s : Bus P) : Act P → Option (Bus P)
  | .send p =>
    match s.broadcaster with
    | .receives | .idles =>
      if s.masterClosed then none
      else some { s with received := s.received ++ [p], broadcaster := .got ⟨s.received.length, p⟩ }
    | _ => none
  | .closeMaster => if s.masterClosed then none else some { s with masterClosed := true }
  | .deplete =>
    match s.broadcaster with
    | .receives => some { s with broadcaster := .idles }
    | _ => none
  | .receiveNone =>
    match s.broadcaster with
    | .receives | .idles => if s.masterClosed then some { s with broadcaster := .gotNone } else none
    | _ => none
  | .store ws =>
    match s.broadcaster with
    | .got i =>
      if ∀ w ∈ ws, w < s.count ∧ (s.watchers w).attached ∧ (s.watchers w).goroutine.atSelect then
        some { s.signal ws with lastProgress := some i, broadcaster := .receives }
      else none
    | _ => none
  | .storeNone =>
    match s.broadcaster with
    | .gotNone => some { s with broadcastDone := true, broadcaster := .finishes }
    | _ => none
  | .closeRunning =>
    match s.broadcaster with
    | .finishes => some { s with running := false, broadcaster := .returned }
    | _ => none
  | .watch => some s.watch
  | .read w =>
    match (s.watchers w).goroutine with
    | .reads => if w < s.count then some (s.set w fun v => { v with goroutine := .writes s.lastProgress }) else none
    | _ => none
  | .write w =>
    match (s.watchers w).goroutine with
    | .writes last => if w < s.count then some (s.set w fun v => (v.write last).loop) else none
    | _ => none
  | .onRelease w =>
    match (s.watchers w).goroutine, (s.watchers w).release with
    | .selects, .waits _ => some (s.set w fun v => { v with done := true, goroutine := .syncs })
    | _, _ => none
  | .onRunning w =>
    match (s.watchers w).goroutine with
    | .selects => if s.running then none else some (s.set w fun v => { v with done := true, goroutine := .reads })
    | _ => none
  | .sync w =>
    match (s.watchers w).goroutine, s.broadcaster with
    | .syncs, .idles => some { s.set w fun v => { v with goroutine := .reads } with broadcaster := .receives }
    | _, _ => none
  | .syncRunning w =>
    match (s.watchers w).goroutine with
    | .syncs => if s.running then none else some (s.set w fun v => { v with goroutine := .reads })
    | _ => none
  | .release w =>
    if w < s.count ∧ (s.watchers w).release = .notCalled then
      some (s.set w fun v => { v with release := .called s.received.length })
    else none
  | .detach w =>
    match (s.watchers w).release with
    | .called n => some (s.set w fun v => { v with attached := false, release := .detached n })
    | _ => none
  | .closeRelease w =>
    match (s.watchers w).release with
    | .detached n => some (s.set w fun v => { v with release := .waits n })
    | _ => none
  | .releaseReturns w =>
    match (s.watchers w).release with
    | .waits n => if (s.watchers w).running then none else some (s.set w fun v => { v with release := .returned n })
    | _ => none

/-- What the broadcaster and the function of the transfer can do. -/
inductive BroadcastStep (s : Bus P) : Bus P → Prop
  | send {p : P} (hb : s.broadcaster = .receives ∨ s.broadcaster = .idles) (hm : s.masterClosed = false) :
    BroadcastStep s { s with received := s.received ++ [p], broadcaster := .got ⟨s.received.length, p⟩ }
  | closeMaster : BroadcastStep s { s with masterClosed := true }
  | deplete (hb : s.broadcaster = .receives) : BroadcastStep s { s with broadcaster := .idles }
  | receiveNone (hb : s.broadcaster = .receives ∨ s.broadcaster = .idles) (hm : s.masterClosed = true) :
    BroadcastStep s { s with broadcaster := .gotNone }
  | storeNone (hb : s.broadcaster = .gotNone) :
    BroadcastStep s { s with broadcastDone := true, broadcaster := .finishes }
  | closeRunning (hb : s.broadcaster = .finishes) :
    BroadcastStep s { s with running := false, broadcaster := .returned }

/-- What a watcher and the one who releases it can do. -/
inductive WatcherStep (s : Bus P) (v : Watcher P) : Watcher P → Prop
  | read (hg : v.goroutine = .reads) : WatcherStep s v { v with goroutine := .writes s.lastProgress }
  | write {last : Option (Item P)} (hg : v.goroutine = .writes last) : WatcherStep s v (v.write last).loop
  | onRelease {n : ℕ} (hg : v.goroutine = .selects) (hr : v.release = .waits n) :
    WatcherStep s v { v with done := true, goroutine := .syncs }
  | onRunning (hg : v.goroutine = .selects) (hr : s.running = false) :
    WatcherStep s v { v with done := true, goroutine := .reads }
  | syncs (hg : v.goroutine = .syncs) (hb : s.broadcaster = .idles ∨ s.running = false) :
    WatcherStep s v { v with goroutine := .reads }
  | release (hr : v.release = .notCalled) : WatcherStep s v { v with release := .called s.received.length }
  | detach {n : ℕ} (hr : v.release = .called n) :
    WatcherStep s v { v with attached := false, release := .detached n }
  | closeRelease {n : ℕ} (hr : v.release = .detached n) : WatcherStep s v { v with release := .waits n }
  | returns {n : ℕ} (hr : v.release = .waits n) (hw : v.running = false) :
    WatcherStep s v { v with release := .returned n }

/-- What any thread can do. -/
inductive Step (s : Bus P) : Bus P → Prop
  | broadcast {s' : Bus P} (h : BroadcastStep s s') : Step s s'
  | store {i : Item P} {ws : Finset ℕ} (hb : s.broadcaster = .got i)
    (hw : ∀ w ∈ ws, (s.watchers w).goroutine = .selects) :
    Step s { s.signal ws with lastProgress := some i, broadcaster := .receives }
  | watch : Step s s.watch
  | watcher {w : ℕ} {v : Watcher P} (h : WatcherStep s (s.watchers w) v) : Step s (s.set w fun _ => v)
  | sync {w : ℕ} (hg : (s.watchers w).goroutine = .syncs) (hb : s.broadcaster = .idles) :
    Step s { s.set w fun v => { v with goroutine := .reads } with broadcaster := .receives }

theorem exec_step {s s' : Bus P} {a : Act P} (h : s.exec a = some s') : Step s s' := by
  cases a <;> simp only [exec] at h
  case send p =>
    split at h <;> [rename_i hb; rename_i hb; cases h] <;> split at h <;> cases h
    · exact .broadcast (.send (.inl hb) (Bool.eq_false_iff.mpr ‹_›))
    · exact .broadcast (.send (.inr hb) (Bool.eq_false_iff.mpr ‹_›))
  case closeMaster => split at h <;> cases h; exact .broadcast .closeMaster
  case deplete => split at h <;> cases h; exact .broadcast (.deplete ‹_›)
  case receiveNone =>
    split at h <;> [rename_i hb; rename_i hb; cases h] <;> split at h <;> cases h
    · exact .broadcast (.receiveNone (.inl hb) ‹_›)
    · exact .broadcast (.receiveNone (.inr hb) ‹_›)
  case store ws =>
    split at h <;> [rename_i hb; cases h]
    split at h <;> cases h
    rename_i hw
    exact .store hb fun w hm => Watching.atSelect_iff.mp (hw w hm).2.2
  case storeNone => split at h <;> cases h; exact .broadcast (.storeNone ‹_›)
  case closeRunning => split at h <;> cases h; exact .broadcast (.closeRunning ‹_›)
  case watch => cases h; exact .watch
  case read w =>
    split at h <;> [rename_i hg; cases h]
    split at h <;> cases h
    exact .watcher (.read hg)
  case write w =>
    split at h <;> [rename_i hg; cases h]
    split at h <;> cases h
    exact .watcher (.write hg)
  case onRelease w => split at h <;> cases h; exact .watcher (.onRelease ‹_› ‹_›)
  case onRunning w =>
    split at h <;> [rename_i hg; cases h]
    split at h <;> cases h
    exact .watcher (.onRunning hg (Bool.eq_false_iff.mpr ‹_›))
  case sync w => split at h <;> cases h; exact .sync ‹_› ‹_›
  case syncRunning w =>
    split at h <;> [rename_i hg; cases h]
    split at h <;> cases h
    exact .watcher (.syncs hg (.inr (Bool.eq_false_iff.mpr ‹_›)))
  case release w => split at h <;> cases h; rename_i hw; exact .watcher (.release hw.2)
  case detach w => split at h <;> cases h; exact .watcher (.detach ‹_›)
  case closeRelease w => split at h <;> cases h; exact .watcher (.closeRelease ‹_›)
  case releaseReturns w =>
    split at h <;> [rename_i hr; cases h]
    split at h <;> cases h
    exact .watcher (.returns hr (Bool.eq_false_iff.mpr ‹_›))

end Bus

end Moby.Xfer
