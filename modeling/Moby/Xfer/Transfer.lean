import Moby.Framework.Machine
import Moby.Framework.Map
import Mathlib.Data.Finset.Basic

/-!
# Transfers and the transfer manager

`distribution/xfer/transfer.go`: transfers that are started, queued, watched
and dropped by any number of callers at a time. `Transfer` is a transfer
without its progress (see `Moby.Xfer.Progress`), `Job` a transfer with the
variables of the goroutine that waits for its end, `Manager` the manager with
every transfer it ever started and the point that each call to it has
reached. An `Event` is what one goroutine does between two points where
another can come in; `exec` is its effect.
-/

namespace Moby.Xfer

open Framework

/-! ## One transfer -/

/-- A channel that is only ever closed: how many times `close` was called on
it. The second call panics. -/
structure Chan where
  closes : ℕ := 0
  deriving DecidableEq

namespace Chan

def close (ch : Chan) : Chan := ⟨ch.closes + 1⟩

abbrev IsClosed (ch : Chan) : Prop := 0 < ch.closes

end Chan

/-- `transfer`; a watcher is named by the call that attached it. -/
structure Transfer where
  watchers : Finset ℕ := ∅
  /-- `ctx` is cancelled. -/
  cancelled : Bool := false
  running : Chan := {}
  released : Chan := {}
  closed : Bool := false

namespace Transfer

def watch (t : Transfer) (w : ℕ) : Transfer := { t with watchers := insert w t.watchers }

/-- The critical section of `Release`. -/
def release (t : Transfer) (w : ℕ) : Transfer :=
  if t.watchers.erase w = ∅ then
    if t.closed then
      { t with
        watchers := t.watchers.erase w
        released := if t.released.IsClosed then t.released else t.released.close }
    else { t with watchers := t.watchers.erase w, cancelled := true }
  else { t with watchers := t.watchers.erase w }

def close (t : Transfer) : Transfer :=
  if t.watchers = ∅ then { t with closed := true, released := t.released.close }
  else { t with closed := true }

@[simp] theorem watch_watchers (t : Transfer) (w : ℕ) : (t.watch w).watchers = insert w t.watchers := rfl

@[simp] theorem watch_cancelled (t : Transfer) (w : ℕ) : (t.watch w).cancelled = t.cancelled := rfl

@[simp] theorem watch_running (t : Transfer) (w : ℕ) : (t.watch w).running = t.running := rfl

@[simp] theorem watch_released (t : Transfer) (w : ℕ) : (t.watch w).released = t.released := rfl

@[simp] theorem watch_closed (t : Transfer) (w : ℕ) : (t.watch w).closed = t.closed := rfl

@[simp] theorem release_watchers (t : Transfer) (w : ℕ) :
    (t.release w).watchers = t.watchers.erase w := by
  unfold release; split_ifs <;> rfl

@[simp] theorem release_running (t : Transfer) (w : ℕ) : (t.release w).running = t.running := by
  unfold release; split_ifs <;> rfl

@[simp] theorem release_closed (t : Transfer) (w : ℕ) : (t.release w).closed = t.closed := by
  unfold release; split_ifs <;> rfl

@[simp] theorem close_watchers (t : Transfer) : t.close.watchers = t.watchers := by
  unfold close; split_ifs <;> rfl

@[simp] theorem close_cancelled (t : Transfer) : t.close.cancelled = t.cancelled := by
  unfold close; split_ifs <;> rfl

@[simp] theorem close_running (t : Transfer) : t.close.running = t.running := by
  unfold close; split_ifs <;> rfl

@[simp] theorem close_closed (t : Transfer) : t.close.closed = true := by
  unfold close; split_ifs <;> rfl

end Transfer

/-! ## The manager -/

/-- The goroutine that `Transfer` leaves behind: it waits for `inactive` and
for the end of the transfer, then it has removed the transfer from the map,
then it has closed it. -/
inductive Phase
  | waits
  | closes
  | ends
  deriving DecidableEq

/-- A transfer, with the variables of the goroutine that waits for its end. -/
structure Job where
  key : String := ""
  xfer : Transfer := {}
  start : Chan := {}
  inactive : Chan := {}
  /-- The goroutine has set its variable `inactive` to nil. -/
  inactiveNil : Bool := false
  phase : Phase := .waits

/-- The transfer has been inactivated, by `inactive` or by its end. -/
abbrev Job.Inactivated (j : Job) : Prop := j.inactiveNil = true ∨ j.phase ≠ .waits

/-- The point that a caller of `Transfer` has reached. -/
inductive Call
  | idle
  /-- At `tm.mu.Lock()`. -/
  | locks (key : String)
  /-- It holds `tm.mu` and watches the transfer `x` that it found. -/
  | finds (key : String) (x : ℕ)
  /-- It holds `tm.mu`, and the context of `x` was done. -/
  | drops (key : String) (x : ℕ)
  /-- It holds `tm.mu`, in `Release`, after its critical section. -/
  | unlocks (key : String) (x : ℕ)
  /-- At `<-xfer.Done()`. -/
  | awaits (key : String) (x : ℕ)
  /-- `Transfer` has returned `x` and a watcher. -/
  | returned (x : ℕ)
  /-- The watcher has been passed to `Release`. -/
  | released (x : ℕ)
  deriving DecidableEq

/-- `transferManager`, with the transfers it started, numbered as they came,
and the calls to it. -/
structure Manager where
  /-- The call that holds `mu`. -/
  mu : Option ℕ := none
  concurrencyLimit : ℤ
  activeTransfers : ℤ := 0
  transfers : Map String ℕ := ∅
  /-- The start channels of these transfers. -/
  waitingTransfers : List ℕ := []
  jobs : ℕ → Job := fun _ => {}
  count : ℕ := 0
  calls : ℕ → Call := fun _ => .idle

def newTransferManager (concurrencyLimit : ℤ) : Manager := { concurrencyLimit }

namespace Manager

def setJob (s : Manager) (x : ℕ) (f : Job → Job) : Manager :=
  { s with jobs := Function.update s.jobs x (f (s.jobs x)) }

def setXfer (s : Manager) (x : ℕ) (f : Transfer → Transfer) : Manager :=
  s.setJob x fun j => { j with xfer := f j.xfer }

def setCall (s : Manager) (c : ℕ) (p : Call) : Manager := { s with calls := Function.update s.calls c p }

/-- `Transfer`, from the point where no transfer has the key to its end. -/
def begin (s : Manager) (c : ℕ) (key : String) : Manager :=
  let job : Job := { key, xfer := ({} : Transfer).watch c }
  let s' := { s with transfers := s.transfers.insert key s.count, count := s.count + 1 }.setCall c
    (.returned s.count)
  if s.concurrencyLimit = 0 ∨ s.activeTransfers < s.concurrencyLimit then
    { s' with
      jobs := Function.update s.jobs s.count { job with start := job.start.close }
      activeTransfers := s.activeTransfers + 1 }
  else
    { s' with
      jobs := Function.update s.jobs s.count job
      waitingTransfers := s.waitingTransfers ++ [s.count] }

def inactivate (s : Manager) (x : ℕ) : Manager :=
  if (s.jobs x).start.IsClosed then
    match s.waitingTransfers with
    | [] => { s with activeTransfers := s.activeTransfers - 1 }
    | y :: rest =>
      { s.setJob y fun j => { j with start := j.start.close } with waitingTransfers := rest }
  else s

end Manager

/-- What a goroutine does next. -/
inductive Event
  /-- A call of `Transfer`. -/
  | transfer (c : ℕ) (key : String)
  /-- The call gets `tm.mu` and looks its key up. -/
  | lookup (c : ℕ)
  /-- The call asks whether the context of the transfer it found is done. -/
  | check (c : ℕ)
  /-- The call detaches the watcher from a cancelled transfer. -/
  | drop (c : ℕ)
  /-- The call gives `tm.mu` back. -/
  | unlock (c : ℕ)
  /-- The call sees the end of the cancelled transfer. -/
  | wake (c : ℕ)
  /-- The caller passes the watcher it got to `Release`. -/
  | release (c : ℕ)
  | setConcurrency (concurrency : ℤ)
  /-- The function of the transfer closes `inactive`. -/
  | closeInactive (x : ℕ)
  /-- The transfer completes: `Broadcast` closes `running`. -/
  | complete (x : ℕ)
  /-- The goroutine of the transfer handles `inactive`. -/
  | inactive (x : ℕ)
  /-- The goroutine of the transfer handles the end of the transfer. -/
  | done (x : ℕ)
  /-- The goroutine of the transfer calls `Close`. -/
  | close (x : ℕ)

namespace Manager

/-- The goroutine of `x` sees the end of the transfer, and removes it. -/
def finish (s : Manager) (x : ℕ) : Manager :=
  let s' := if (s.jobs x).inactiveNil then s else s.inactivate x
  { s'.setJob x fun j => { j with phase := .closes } with transfers := s'.transfers.erase (s.jobs x).key }

/-- The effect of an event; `none` if it cannot happen. -/
def exec (s : Manager) : Event → Option Manager
  | .transfer c key => if s.calls c = .idle then some (s.setCall c (.locks key)) else none
  | .lookup c =>
    match s.calls c with
    | .locks key =>
      if s.mu = none then
        match s.transfers.lookup key with
        | some x => some { (s.setXfer x (·.watch c)).setCall c (.finds key x) with mu := some c }
        | none => some (s.begin c key)
      else none
    | _ => none
  | .check c =>
    match s.calls c with
    | .finds key x =>
      if (s.jobs x).xfer.cancelled then some (s.setCall c (.drops key x))
      else some { s.setCall c (.returned x) with mu := none }
    | _ => none
  | .drop c =>
    match s.calls c with
    | .drops key x => some ((s.setXfer x (·.release c)).setCall c (.unlocks key x))
    | _ => none
  | .unlock c =>
    match s.calls c with
    | .unlocks key x => some { s.setCall c (.awaits key x) with mu := none }
    | _ => none
  | .wake c =>
    match s.calls c with
    | .awaits key x => if (s.jobs x).xfer.running.IsClosed then some (s.setCall c (.locks key)) else none
    | _ => none
  | .release c =>
    match s.calls c with
    | .returned x => some ((s.setXfer x (·.release c)).setCall c (.released x))
    | _ => none
  | .setConcurrency n => if s.mu = none then some { s with concurrencyLimit := n } else none
  | .closeInactive x =>
    if x < s.count ∧ ¬ (s.jobs x).inactive.IsClosed then
      some (s.setJob x fun j => { j with inactive := j.inactive.close })
    else none
  | .complete x =>
    if x < s.count ∧ ¬ (s.jobs x).xfer.running.IsClosed then
      some (s.setXfer x fun t => { t with running := t.running.close })
    else none
  | .inactive x =>
    if s.mu = none ∧ x < s.count ∧ (s.jobs x).phase = .waits ∧ (s.jobs x).inactiveNil = false ∧
        (s.jobs x).inactive.IsClosed then
      some ((s.inactivate x).setJob x fun j => { j with inactiveNil := true })
    else none
  | .done x =>
    if s.mu = none ∧ x < s.count ∧ (s.jobs x).phase = .waits ∧ (s.jobs x).xfer.running.IsClosed then
      some (s.finish x)
    else none
  | .close x =>
    if x < s.count ∧ (s.jobs x).phase = .closes then
      some (s.setJob x fun j => { j with xfer := j.xfer.close, phase := .ends })
    else none

/-- What an event can do, with what it needs. -/
inductive Step (s : Manager) : Event → Manager → Prop
  | transfer {c : ℕ} {key : String} (hc : s.calls c = .idle) :
    Step s (.transfer c key) (s.setCall c (.locks key))
  | find {c x : ℕ} {key : String} (hc : s.calls c = .locks key) (hmu : s.mu = none)
    (hx : s.transfers.lookup key = some x) :
    Step s (.lookup c) { (s.setXfer x (·.watch c)).setCall c (.finds key x) with mu := some c }
  | begin {c : ℕ} {key : String} (hc : s.calls c = .locks key) (hmu : s.mu = none)
    (hx : s.transfers.lookup key = none) : Step s (.lookup c) (s.begin c key)
  | cancelled {c x : ℕ} {key : String} (hc : s.calls c = .finds key x)
    (hx : (s.jobs x).xfer.cancelled = true) : Step s (.check c) (s.setCall c (.drops key x))
  | found {c x : ℕ} {key : String} (hc : s.calls c = .finds key x)
    (hx : (s.jobs x).xfer.cancelled = false) :
    Step s (.check c) { s.setCall c (.returned x) with mu := none }
  | drop {c x : ℕ} {key : String} (hc : s.calls c = .drops key x) :
    Step s (.drop c) ((s.setXfer x (·.release c)).setCall c (.unlocks key x))
  | unlock {c x : ℕ} {key : String} (hc : s.calls c = .unlocks key x) :
    Step s (.unlock c) { s.setCall c (.awaits key x) with mu := none }
  | wake {c x : ℕ} {key : String} (hc : s.calls c = .awaits key x)
    (hx : (s.jobs x).xfer.running.IsClosed) : Step s (.wake c) (s.setCall c (.locks key))
  | release {c x : ℕ} (hc : s.calls c = .returned x) :
    Step s (.release c) ((s.setXfer x (·.release c)).setCall c (.released x))
  | setConcurrency {n : ℤ} (hmu : s.mu = none) : Step s (.setConcurrency n) { s with concurrencyLimit := n }
  | closeInactive {x : ℕ} (hx : x < s.count) (hi : ¬ (s.jobs x).inactive.IsClosed) :
    Step s (.closeInactive x) (s.setJob x fun j => { j with inactive := j.inactive.close })
  | complete {x : ℕ} (hx : x < s.count) (hr : ¬ (s.jobs x).xfer.running.IsClosed) :
    Step s (.complete x) (s.setXfer x fun t => { t with running := t.running.close })
  | inactive {x : ℕ} (hmu : s.mu = none) (hx : x < s.count) (hp : (s.jobs x).phase = .waits)
    (hn : (s.jobs x).inactiveNil = false) (hi : (s.jobs x).inactive.IsClosed) :
    Step s (.inactive x) ((s.inactivate x).setJob x fun j => { j with inactiveNil := true })
  | done {x : ℕ} (hmu : s.mu = none) (hx : x < s.count) (hp : (s.jobs x).phase = .waits)
    (hr : (s.jobs x).xfer.running.IsClosed) : Step s (.done x) (s.finish x)
  | close {x : ℕ} (hx : x < s.count) (hp : (s.jobs x).phase = .closes) :
    Step s (.close x) (s.setJob x fun j => { j with xfer := j.xfer.close, phase := .ends })

theorem exec_step {s s' : Manager} {e : Event} (h : s.exec e = some s') : Step s e s' := by
  cases e <;> simp only [exec, Option.ite_none_right_eq_some, Option.some.injEq] at h
  case transfer => obtain ⟨hc, rfl⟩ := h; exact .transfer hc
  case setConcurrency => obtain ⟨hmu, rfl⟩ := h; exact .setConcurrency hmu
  case closeInactive => obtain ⟨⟨hx, hi⟩, rfl⟩ := h; exact .closeInactive hx hi
  case complete => obtain ⟨⟨hx, hr⟩, rfl⟩ := h; exact .complete hx hr
  case inactive => obtain ⟨⟨hmu, hx, hp, hn, hi⟩, rfl⟩ := h; exact .inactive hmu hx hp hn hi
  case done => obtain ⟨⟨hmu, hx, hp, hr⟩, rfl⟩ := h; exact .done hmu hx hp hr
  case close => obtain ⟨⟨hx, hp⟩, rfl⟩ := h; exact .close hx hp
  -- the other events are those of a call that has reached some point
  case drop => split at h <;> cases h; exact .drop ‹_›
  case unlock => split at h <;> cases h; exact .unlock ‹_›
  case release => split at h <;> cases h; exact .release ‹_›
  case wake =>
    split at h <;> [skip; cases h]
    rw [Option.ite_none_right_eq_some] at h
    obtain ⟨hx, ⟨⟩⟩ := h
    exact .wake ‹_› hx
  case check =>
    split at h <;> [skip; cases h]
    split at h <;> cases h
    · exact .cancelled ‹_› ‹_›
    · exact .found ‹_› (Bool.eq_false_iff.mpr ‹_›)
  case lookup =>
    split at h <;> [skip; cases h]
    rw [Option.ite_none_right_eq_some] at h
    obtain ⟨hmu, h⟩ := h
    split at h <;> cases h
    · exact .find ‹_› hmu ‹_›
    · exact .begin ‹_› hmu ‹_›

/-! ## What the operations keep -/

section

variable (s : Manager) (x c : ℕ) (key : String) (f : Job → Job) (p : Call)

@[simp] theorem setJob_jobs (y : ℕ) :
    (s.setJob x f).jobs y = if y = x then f (s.jobs x) else s.jobs y := Function.update_apply ..

@[simp] theorem setJob_calls : (s.setJob x f).calls = s.calls := rfl

@[simp] theorem setJob_transfers : (s.setJob x f).transfers = s.transfers := rfl

@[simp] theorem setJob_count : (s.setJob x f).count = s.count := rfl

@[simp] theorem setJob_mu : (s.setJob x f).mu = s.mu := rfl

@[simp] theorem setCall_calls (d : ℕ) : (s.setCall c p).calls d = if d = c then p else s.calls d :=
  Function.update_apply ..

@[simp] theorem setCall_jobs : (s.setCall c p).jobs = s.jobs := rfl

@[simp] theorem setCall_transfers : (s.setCall c p).transfers = s.transfers := rfl

@[simp] theorem setCall_count : (s.setCall c p).count = s.count := rfl

@[simp] theorem setCall_mu : (s.setCall c p).mu = s.mu := rfl

@[simp] theorem begin_mu : (s.begin c key).mu = s.mu := by unfold begin; split_ifs <;> rfl

@[simp] theorem begin_concurrencyLimit : (s.begin c key).concurrencyLimit = s.concurrencyLimit := by
  unfold begin; split_ifs <;> rfl

@[simp] theorem begin_count : (s.begin c key).count = s.count + 1 := by unfold begin; split_ifs <;> rfl

@[simp] theorem begin_transfers : (s.begin c key).transfers = s.transfers.insert key s.count := by
  unfold begin; split_ifs <;> rfl

@[simp] theorem begin_calls (d : ℕ) :
    (s.begin c key).calls d = if d = c then .returned s.count else s.calls d := by
  unfold begin; split_ifs <;> simp [setCall, *]

@[simp] theorem begin_jobs : (s.begin c key).jobs = Function.update s.jobs s.count
    { key, xfer := ({} : Transfer).watch c,
      start := if s.concurrencyLimit = 0 ∨ s.activeTransfers < s.concurrencyLimit then ⟨1⟩ else {} } := by
  unfold begin; split_ifs <;> rfl

@[simp] theorem inactivate_mu : (s.inactivate x).mu = s.mu := by
  unfold inactivate; split_ifs <;> [split <;> rfl; rfl]

@[simp] theorem inactivate_count : (s.inactivate x).count = s.count := by
  unfold inactivate; split_ifs <;> [split <;> rfl; rfl]

@[simp] theorem inactivate_transfers : (s.inactivate x).transfers = s.transfers := by
  unfold inactivate; split_ifs <;> [split <;> rfl; rfl]

@[simp] theorem inactivate_calls : (s.inactivate x).calls = s.calls := by
  unfold inactivate; split_ifs <;> [split <;> rfl; rfl]

/-- Only start channels are closed by `inactivate`. -/
theorem inactivate_jobs (y : ℕ) : ∃ start, (s.inactivate x).jobs y = { s.jobs y with start } := by
  unfold inactivate
  split_ifs
  · split
    · exact ⟨_, rfl⟩
    · rename_i z _ _
      rcases eq_or_ne y z with rfl | hz
      · exact ⟨(s.jobs y).start.close, by simp⟩
      · exact ⟨(s.jobs y).start, by simp [hz]⟩
  · exact ⟨_, rfl⟩

@[simp] theorem finish_count : (s.finish x).count = s.count := by
  unfold finish; split_ifs <;> simp

@[simp] theorem finish_calls : (s.finish x).calls = s.calls := by
  unfold finish; split_ifs <;> simp

@[simp] theorem finish_transfers : (s.finish x).transfers = s.transfers.erase (s.jobs x).key := by
  unfold finish; split_ifs <;> simp

theorem finish_jobs (y : ℕ) : ∃ start, (s.finish x).jobs y =
    { s.jobs y with start, phase := if y = x then .closes else (s.jobs y).phase } := by
  have hset : ∀ {s₁ : Manager} {start : Chan}, s₁.jobs y = { s.jobs y with start } →
      (s₁.setJob x fun j => { j with phase := .closes }).jobs y =
        { s.jobs y with start, phase := if y = x then .closes else (s.jobs y).phase } := by
    intro s₁ start h
    rw [setJob_jobs]
    by_cases hyx : y = x
    · rw [if_pos hyx, if_pos hyx, ← hyx, h]
    · rw [if_neg hyx, if_neg hyx, h]
  obtain ⟨start, hy⟩ := s.inactivate_jobs x y
  unfold finish
  by_cases hn : (s.jobs x).inactiveNil = true
  · exact ⟨(s.jobs y).start, by rw [if_pos hn]; exact hset rfl⟩
  · exact ⟨start, by rw [if_neg hn]; exact hset hy⟩

end

theorem inactivate_nil {s : Manager} {x : ℕ} (hx : (s.jobs x).start.IsClosed) (h : s.waitingTransfers = []) :
    s.inactivate x = { s with activeTransfers := s.activeTransfers - 1 } := by
  unfold inactivate; rw [if_pos hx, h]

theorem inactivate_cons {s : Manager} {x y : ℕ} {rest : List ℕ} (hx : (s.jobs x).start.IsClosed)
    (h : s.waitingTransfers = y :: rest) :
    s.inactivate x =
      { s.setJob y fun j => { j with start := j.start.close } with waitingTransfers := rest } := by
  unfold inactivate; rw [if_pos hx, h]

end Manager

end Moby.Xfer
