import Moby.Framework.Map
import Moby.Swarm.Reconnect

/-!
# The saved state of a cluster (daemon/cluster/cluster.go)

`startNewNode` saves the state of the node it starts in the directory of the cluster, and `Leave`
and an `Init` that fails clear the directory when their node has ended. `Leave` does this without
the lock, and the `Init` after it has released the lock: another call may have started a node by
then. As long as a directory is cleared only for the node that was started last, the state of the
node of the cluster is there (`saved_iff`).
-/

namespace Moby.Swarm.Cluster

open Moby.Framework
open Moby.Swarm.Reconnect (Outcome)

/-- Where a call is when it does not have the lock. Nodes have numbers, in the order in which they are
started. -/
inductive Point
  /-- `Init` with `ForceNewCluster` waits for the node it stops. -/
  | initStopping (n : ℕ)
  /-- `Init` waits for the node it has started. -/
  | initStarted (force : Bool) (n : ℕ)
  /-- `Join` waits for the node it has started. -/
  | joinStarted (n : ℕ)
  /-- `Leave` waits for the node it stops. -/
  | leaving (n : ℕ)
  /-- `Leave` removes the containers of the node that it has stopped. -/
  | left (n : ℕ)
  /-- `reconnectOnFailure` waits for its node to exit. -/
  | reconnecting (n : ℕ)
  /-- `reconnectOnFailure` waits for the delay to be over. -/
  | delaying
deriving DecidableEq

structure State where
  /-- `c.node`. -/
  node : Option ℕ
  /-- `c.stop`. -/
  stop : Bool
  /-- `c.cancelDelay`, by the call whose delay it cancels. -/
  cancelDelay : Option ℕ
  /-- The calls whose delays have been cancelled. -/
  cancelled : Finset ℕ
  /-- The state file, by the node whose state it has. -/
  file : Option ℕ
  /-- The number of the next node. -/
  next : ℕ
  /-- The nodes that have been started and have not ended. -/
  running : Finset ℕ
  /-- The nodes whose channels `done` are closed. -/
  done : Finset ℕ
  calls : Map ℕ Point

/-- What happens. Each event but those of nodes is what a call does with the lock, or without it
between one point and the next. -/
inductive Event
  | init (t : ℕ) (force : Bool) (outcome : Outcome)
  /-- `Init` has the lock again, after `stopNode`. -/
  | resume (t : ℕ) (outcome : Outcome)
  | join (t : ℕ) (outcome : Outcome)
  | leave (t : ℕ)
  /-- `node.Stop` fails. -/
  | giveUp (t : ℕ)
  /-- The node of an `Init` or a `Join` is ready, or the latter does not wait any longer. `ok` is whether
  `initClusterSpec` succeeds. -/
  | ready (t : ℕ) (ok : Bool)
  /-- The node of an `Init` or a `Join` has ended. -/
  | failed (t : ℕ)
  /-- `Leave` has the lock again, and releases it. -/
  | left (t : ℕ)
  /-- `clearState` of a `Leave`. -/
  | clear (t : ℕ)
  /-- `reconnectOnFailure` finds its node done. -/
  | wake (t : ℕ)
  /-- The delay is over, or cancelled. -/
  | expire (t : ℕ) (deadline : Bool)
  /-- A node ends, and the cluster has none. -/
  | exit (n : ℕ)
  /-- The channel `done` of a node is closed. -/
  | close (n : ℕ)

section

variable (s : State)

def State.goto (t : ℕ) (p : Point) : State := { s with calls := s.calls.insert t p }

def State.return (t : ℕ) : State := { s with calls := s.calls.erase t }

/-- `startNewNode`, and where the call is then. -/
def startNewNode (t : ℕ) (p : ℕ → Point) : Outcome → State
  | .started =>
    State.goto { s with
      node := some s.next, cancelDelay := none, stop := false, file := some s.next, next := s.next + 1,
      running := insert s.next s.running } t (p s.next)
  | .refused => s.return t
  | .failed => State.return { s with node := none, cancelDelay := none, stop := false } t

/-- `stopNode`, until it has released the lock. -/
def stopNode : State :=
  { s with
    stop := true, cancelDelay := none,
    cancelled := match s.cancelDelay with
      | some t => insert t s.cancelled
      | none => s.cancelled }

/-- `clearState`. -/
def clearState : State := { s with file := none }

def exec : Event → Option State
  | .init t force outcome =>
    if t ∈ s.calls then none
    else match s.node with
      | none => some (startNewNode s t (.initStarted force) outcome)
      | some n => if force then some ((stopNode s).goto t (.initStopping n)) else none
  | .resume t outcome =>
    match s.calls.lookup t with
    | some (.initStopping n) => if n ∈ s.done then some (startNewNode s t (.initStarted true) outcome) else none
    | _ => none
  | .join t outcome =>
    if t ∉ s.calls ∧ s.node = none then some (startNewNode s t .joinStarted outcome) else none
  | .leave t =>
    if t ∈ s.calls then none
    else match s.node with
      | none => none
      | some n => some ((stopNode s).goto t (.leaving n))
  | .giveUp t =>
    match s.calls.lookup t with
    | some (.initStopping _) => some (s.return t)
    | some (.leaving _) => some (s.return t)
    | _ => none
  | .ready t ok =>
    match s.calls.lookup t with
    | some (.initStarted _ n) => some (if ok then s.goto t (.reconnecting n) else s.return t)
    | some (.joinStarted n) => some (s.goto t (.reconnecting n))
    | _ => none
  | .failed t =>
    match s.calls.lookup t with
    | some (.initStarted force n) =>
      if n ∈ s.done then some (if force then s.return t else (clearState s).return t) else none
    | some (.joinStarted n) => if n ∈ s.done then some (s.return t) else none
    | _ => none
  | .left t =>
    match s.calls.lookup t with
    | some (.leaving n) => if n ∈ s.done then some (s.goto t (.left n)) else none
    | _ => none
  | .clear t =>
    match s.calls.lookup t with
    | some (.left _) => some ((clearState s).return t)
    | _ => none
  | .wake t =>
    match s.calls.lookup t with
    | some (.reconnecting n) =>
      if n ∈ s.done then
        some (if s.stop ∨ s.node ≠ none then s.return t
          else State.goto { s with cancelDelay := some t } t .delaying)
      else none
    | _ => none
  | .expire t deadline =>
    match s.calls.lookup t with
    | some .delaying =>
      if deadline then
        -- The other outcomes of `startNewNode` panic with the lock taken.
        some (if s.node ≠ none then s.return t else startNewNode s t .reconnecting .started)
      else if t ∈ s.cancelled then some (s.return t)
      else none
    | _ => none
  | .exit n => if n ∈ s.running then some { s with node := none, running := s.running.erase n } else none
  | .close n => if n < s.next ∧ n ∉ s.running ∧ n ∉ s.done then some { s with done := insert n s.done } else none

end

/-- A cluster without saved state. -/
def init : State :=
  { node := none, stop := false, cancelDelay := none, cancelled := ∅, file := none, next := 0, running := ∅, done := ∅,
    calls := ∅ }

/-- A cluster that has been started with its saved state. -/
def restored : State :=
  { node := some 0, stop := false, cancelDelay := none, cancelled := ∅, file := some 0, next := 1, running := {0},
    done := ∅, calls := Finmap.singleton 0 (.reconnecting 0) }

/-! ## The state of the node -/

/-- The directory has the state of the node of the cluster. -/
def Saved (s : State) : Prop := ∀ n, s.node = some n → s.file = some n

/-- The node for which the event clears the directory: a `Leave` has stopped it, or an `Init` has started it. -/
def clearsFor (s : State) : Event → Option ℕ
  | .clear t =>
    match s.calls.lookup t with
    | some (.left m) => some m
    | _ => none
  | .failed t =>
    match s.calls.lookup t with
    | some (.initStarted false m) => if m ∈ s.done then some m else none
    | _ => none
  | _ => none

/-- Clearing the directory for `m` takes nothing from a node that is running or was started after `m`. -/
def Spares (s : State) (m : ℕ) : Prop := ∀ n, s.file = some n → n ∉ s.running ∧ n ≤ m

/-- A directory with a state in it is cleared only for the node that was started last. -/
def InOrder (s : State) (e : Event) : Prop := ∀ m ∈ clearsFor s e, s.file = none ∨ m + 1 = s.next

instance (s : State) (e : Event) : Decidable (InOrder s e) :=
  inferInstanceAs (Decidable (∀ m ∈ clearsFor s e, s.file = none ∨ m + 1 = s.next))

structure Inv (s : State) : Prop where
  saved : Saved s
  file : ∀ n, s.file = some n → n + 1 = s.next
  node : ∀ n, s.node = some n → n ∈ s.running
  running : ∀ n ∈ s.running, n < s.next
  done : ∀ n ∈ s.done, n ∉ s.running ∧ n < s.next
  left : ∀ t m, s.calls.lookup t = some (.left m) → m ∈ s.done

section Steps

variable {s : State} (h : Inv s)

include h

theorem Inv.goto {t : ℕ} {p : Point} (hp : ∀ m, p = .left m → m ∈ s.done) : Inv (s.goto t p) := by
  refine ⟨h.saved, h.file, h.node, h.running, h.done, fun t' m ht' => ?_⟩
  rw [State.goto, Finmap.lookup_insert'] at ht'
  split at ht'
  · exact hp m (Option.some.inj ht')
  · exact h.left t' m ht'

theorem Inv.return {t : ℕ} : Inv (s.return t) := by
  refine ⟨h.saved, h.file, h.node, h.running, h.done, fun t' m ht' => ?_⟩
  rw [State.return, Finmap.lookup_erase'] at ht'
  split at ht'
  · cases ht'
  · exact h.left t' m ht'

theorem Inv.started : Inv { s with
    node := some s.next, cancelDelay := none, stop := false, file := some s.next, next := s.next + 1,
    running := insert s.next s.running } := by
  refine ⟨fun n hn => hn, fun n hn => ?_, fun n hn => ?_, fun n hn => ?_, fun n hn => ?_, h.left⟩
  · rw [Option.some.inj hn]
  · rw [← Option.some.inj hn]
    exact Finset.mem_insert_self _ _
  · obtain rfl | hn := Finset.mem_insert.mp hn
    · exact Nat.lt_succ_self _
    · exact Nat.lt_succ_of_lt (h.running n hn)
  · obtain ⟨hrunning, hlt⟩ := h.done n hn
    refine ⟨fun hmem => ?_, Nat.lt_succ_of_lt hlt⟩
    obtain rfl | hmem := Finset.mem_insert.mp hmem
    · exact Nat.lt_irrefl _ hlt
    · exact hrunning hmem

theorem Inv.startNewNode {t : ℕ} {p : ℕ → Point} (hp : ∀ n m, p n ≠ .left m) (outcome : Outcome) :
    Inv (startNewNode s t p outcome) := by
  cases outcome with
  | started => exact h.started.goto fun m hm => absurd hm (hp _ m)
  | refused => exact h.return
  | failed =>
    have hnone : Inv { s with node := none, cancelDelay := none, stop := false } :=
      ⟨by simp [Saved], h.file, by simp, h.running, h.done, h.left⟩
    exact hnone.return

theorem Inv.stopNode : Inv (stopNode s) := ⟨h.saved, h.file, h.node, h.running, h.done, h.left⟩

/-- The node of the cluster is running, so its state is not cleared for one that is done. -/
theorem Inv.clearState {m : ℕ} (hdone : m ∈ s.done) (hG : s.file = none ∨ m + 1 = s.next) : Inv (clearState s) := by
  have hnone : s.node = none := by
    cases hnode : s.node with
    | none => rfl
    | some n =>
      have hfile := h.saved n hnode
      obtain hG | hG := hG
      · rw [hG] at hfile
        cases hfile
      · have hlast := h.file n hfile
        obtain rfl : m = n := by omega
        exact absurd (h.node m hnode) (h.done m hdone).1
  exact ⟨by simp [Saved, Cluster.clearState, hnone], by simp [Cluster.clearState], h.node, h.running, h.done, h.left⟩

theorem Inv.exit {n : ℕ} : Inv { s with node := none, running := s.running.erase n } where
  saved := by simp [Saved]
  file := h.file
  node := by simp
  running m hm := h.running m (Finset.mem_of_mem_erase hm)
  done m hm := ⟨fun hmem => (h.done m hm).1 (Finset.mem_of_mem_erase hmem), (h.done m hm).2⟩
  left := h.left

theorem Inv.close {n : ℕ} (hlt : n < s.next) (hn : n ∉ s.running) : Inv { s with done := insert n s.done } where
  saved := h.saved
  file := h.file
  node := h.node
  running := h.running
  done m hm := by
    obtain rfl | hm := Finset.mem_insert.mp hm
    · exact ⟨hn, hlt⟩
    · exact h.done m hm
  left t m hm := Finset.mem_insert_of_mem (h.left t m hm)

theorem Inv.exec {e : Event} {s' : State} (hG : InOrder s e) (he : exec s e = some s') : Inv s' := by
  cases e with
  | init t force outcome =>
    simp only [Cluster.exec] at he
    split at he
    · cases he
    · split at he
      · cases he
        exact h.startNewNode (by simp) outcome
      · obtain ⟨-, he⟩ := Option.ite_none_right_eq_some.mp he
        cases he
        exact h.stopNode.goto (by simp)
  | resume t outcome =>
    simp only [Cluster.exec] at he
    split at he
    · obtain ⟨-, he⟩ := Option.ite_none_right_eq_some.mp he
      cases he
      exact h.startNewNode (by simp) outcome
    · cases he
  | join t outcome =>
    obtain ⟨-, he⟩ := Option.ite_none_right_eq_some.mp he
    cases he
    exact h.startNewNode (by simp) outcome
  | leave t =>
    simp only [Cluster.exec] at he
    split at he
    · cases he
    · split at he
      · cases he
      · cases he
        exact h.stopNode.goto (by simp)
  | giveUp t =>
    simp only [Cluster.exec] at he
    split at he
    · cases he
      exact h.return
    · cases he
      exact h.return
    · cases he
  | ready t ok =>
    simp only [Cluster.exec] at he
    split at he
    · cases he
      split
      · exact h.goto (by simp)
      · exact h.return
    · cases he
      exact h.goto (by simp)
    · cases he
  | failed t =>
    simp only [Cluster.exec] at he
    split at he
    · rename_i force n hcall
      obtain ⟨hdone, he⟩ := Option.ite_none_right_eq_some.mp he
      cases he
      cases force with
      | true => exact h.return
      | false => exact (h.clearState hdone (hG n (by simp [clearsFor, hcall, hdone]))).return
    · obtain ⟨-, he⟩ := Option.ite_none_right_eq_some.mp he
      cases he
      exact h.return
    · cases he
  | left t =>
    simp only [Cluster.exec] at he
    split at he
    · rename_i n hcall
      obtain ⟨hdone, he⟩ := Option.ite_none_right_eq_some.mp he
      cases he
      exact h.goto fun m hm => by cases hm; exact hdone
    · cases he
  | clear t =>
    simp only [Cluster.exec] at he
    split at he
    · rename_i n hcall
      cases he
      exact (h.clearState (h.left t n hcall) (hG n (by simp [clearsFor, hcall]))).return
    · cases he
  | wake t =>
    simp only [Cluster.exec] at he
    split at he
    · obtain ⟨-, he⟩ := Option.ite_none_right_eq_some.mp he
      cases he
      split
      · exact h.return
      · have hdelay : Inv { s with cancelDelay := some t } := ⟨h.saved, h.file, h.node, h.running, h.done, h.left⟩
        exact hdelay.goto (by simp)
    · cases he
  | expire t deadline =>
    simp only [Cluster.exec] at he
    split at he
    · split at he
      · cases he
        split
        · exact h.return
        · exact h.startNewNode (by simp) .started
      · obtain ⟨-, he⟩ := Option.ite_none_right_eq_some.mp he
        cases he
        exact h.return
    · cases he
  | exit n =>
    obtain ⟨-, he⟩ := Option.ite_none_right_eq_some.mp he
    cases he
    exact h.exit
  | close n =>
    obtain ⟨⟨hlt, hn, -⟩, he⟩ := Option.ite_none_right_eq_some.mp he
    cases he
    exact h.close hlt hn

end Steps

/-- The directory is cleared for a node that is done. -/
theorem Inv.done_of_clearsFor {s : State} (h : Inv s) {e : Event} {m : ℕ} (hm : clearsFor s e = some m) : m ∈ s.done := by
  cases e with
  | clear t =>
    simp only [clearsFor] at hm
    split at hm
    · rename_i m' hcall
      cases hm
      exact h.left t m hcall
    · cases hm
  | failed t =>
    simp only [clearsFor] at hm
    split at hm
    · obtain ⟨hdone, hm⟩ := Option.ite_none_right_eq_some.mp hm
      cases hm
      exact hdone
    · cases hm
  | _ => cases hm

theorem inv_init : Inv init where
  saved := by simp [Saved, init]
  file := by simp [init]
  node := by simp [init]
  running := by simp [init]
  done := by simp [init]
  left := by simp [init]

theorem inv_restored : Inv restored where
  saved := fun n hn => hn
  file := by simp [restored]
  node := by simp [restored]
  running := by simp [restored]
  done := by simp [restored]
  left t m hm := by
    simp only [restored] at hm
    obtain rfl | ht := eq_or_ne t 0
    · rw [Finmap.lookup_singleton_eq] at hm
      cases hm
    · rw [Finmap.lookup_eq_none.mpr (by simpa [Finmap.mem_singleton] using ht)] at hm
      cases hm

theorem inv_of_reaches {s₀ s : State} (h₀ : s₀ = init ∨ s₀ = restored) (h : ReachesIf exec InOrder s₀ s) : Inv s := by
  have hinv : Inv s₀ := by
    obtain rfl | rfl := h₀
    · exact inv_init
    · exact inv_restored
  exact h.inv hinv fun _ _ _ _ hi hG he => hi.exec hG he

/-- In a run in which every clearing is in order the state of the node of the cluster is saved, and the next
clearing spares the states of other nodes exactly if it is in order too. -/
theorem saved_iff {s₀ s : State} (h₀ : s₀ = init ∨ s₀ = restored) (h : ReachesIf exec InOrder s₀ s) :
    Saved s ∧ ∀ e, ∀ m ∈ clearsFor s e, (Spares s m ↔ s.file = none ∨ m + 1 = s.next) := by
  have hinv := inv_of_reaches h₀ h
  refine ⟨hinv.saved, fun e m hclears => ?_⟩
  have hdone : m ∈ s.done := hinv.done_of_clearsFor hclears
  constructor
  · intro hspares
    cases hfile : s.file with
    | none => exact .inl rfl
    | some n =>
      have hle := (hspares n hfile).2
      have hlast := hinv.file n hfile
      have hlt := (hinv.done m hdone).2
      exact .inr (by omega)
  · rintro hor n hfile
    obtain hnone | hlast := hor
    · rw [hnone] at hfile
      cases hfile
    · have hfile := hinv.file n hfile
      obtain rfl : m = n := by omega
      exact ⟨(hinv.done m hdone).1, le_rfl⟩

/-- An `Init` starts a node, which exits at once, and clears the directory; then a `Join` starts another. -/
theorem saved_init_failed : ∃ s, ReachesIf exec InOrder init s ∧ s.node = some 1 ∧ s.file = some 1 ∧ Saved s := by
  obtain ⟨s, hs, hview⟩ := ReachesIf.of_view exec InOrder init
    [.init 0 false .started, .exit 0, .close 0, .failed 0, .join 1 .started, .ready 1 true] (fun s => (s.node, s.file))
    (b := (some 1, some 1)) (by decide +kernel)
  obtain ⟨hnode, hfile⟩ := Prod.mk.inj hview
  exact ⟨s, hs, hnode, hfile, (saved_iff (.inl rfl) hs).1⟩

/-- A `Join` starts a node after a `Leave` has stopped another and before it clears the directory. -/
theorem saved_lost : ∃ s, Reaches exec init s ∧ s.node = some 1 ∧ 1 ∈ s.running ∧ s.file = none ∧ ¬ Saved s := by
  obtain ⟨s, hs, hview⟩ := ReachesIf.of_view exec (fun _ _ => True) init
    [.init 0 false .started, .ready 0 true, .leave 1, .exit 0, .close 0, .left 1, .join 2 .started, .clear 1]
    (fun s => (s.node, decide (1 ∈ s.running), s.file)) (b := (some 1, true, none)) (by decide +kernel)
  obtain ⟨hnode, hview⟩ := Prod.mk.inj hview
  obtain ⟨hrunning, hfile⟩ := Prod.mk.inj hview
  refine ⟨s, hs, hnode, of_decide_eq_true hrunning, hfile, fun hsaved => ?_⟩
  have h1 := hsaved 1 hnode
  rw [hfile] at h1
  cases h1

end Moby.Swarm.Cluster
