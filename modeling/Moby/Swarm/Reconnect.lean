import Moby.Framework.Machine
import Moby.Swarm.Types

/-!
# Reconnecting to a swarm

`reconnectOnFailure` waits for the node of the cluster to exit, then for a while, and then starts a
new one. The delay is kept in the node, where each round doubles it. When a new node cannot be
started there is no node either, and the loop closes the channel of a nil pointer: it goes on as
long as every attempt succeeds, and panics at the first that fails (`reconnect_iff`).
-/

namespace Moby.Swarm

open Moby.Framework

/-- `initialReconnectDelay`. -/
def initialReconnectDelay : Duration := 100000000

/-- `maxReconnectDelay`. -/
def maxReconnectDelay : Duration := 30000000000

/-- The delay after `delay`. -/
def nextDelay (delay : Duration) : Duration :=
  let d := delay * 2
  if d > maxReconnectDelay then maxReconnectDelay else d

namespace Reconnect

/-- What is used of a `node`, which has a number here in place of its address. -/
structure Node where
  id : ℕ
  /-- The channel `done` is closed. -/
  done : Bool
  reconnectDelay : Duration

/-- Where the loop is. -/
inductive Point
  /-- At `<-n.done`. -/
  | waiting (n : Node)
  /-- At `<-delayCtx.Done()`. -/
  | delaying (n : Node)
  | returned
  | panicked

/-- How a call to `startNewNode` ends: with a node, or with an error before or after it has reset
the cluster. -/
inductive Outcome
  | started
  | refused
  | failed
  deriving DecidableEq

/-- The cluster and the loop. -/
structure State where
  /-- `c.node`. -/
  node : Option ℕ
  /-- `c.stop`. -/
  stop : Bool
  /-- `c.cancelDelay` is not nil. -/
  cancelDelay : Bool
  /-- The context of the delay has been cancelled. -/
  cancelled : Bool
  point : Point
  /-- The number of the next node. -/
  fresh : ℕ
  /-- The calls to `startNewNode` of the loop, the last one first: the delay before each, and how it ended. -/
  attempts : List (Duration × Outcome)

/-- What happens next. -/
inductive Event
  /-- The node of the cluster exits. -/
  | exit
  /-- The loop finds its node done. -/
  | wake
  /-- The delay is over. -/
  | expire
  /-- The delay has been cancelled. -/
  | cancel
  /-- `stopNode`, of another call. -/
  | stopNode
  /-- `startNewNode`, of another call. -/
  | install
  deriving DecidableEq

/-- `startNewNode`, as the loop calls it. -/
def startNewNode (s : State) (n : Node) : Outcome → State
  | .started => { s with
      node := some s.fresh, stop := false, cancelDelay := false, fresh := s.fresh + 1
      point := .waiting ⟨s.fresh, false, initialReconnectDelay⟩
      attempts := (n.reconnectDelay, .started) :: s.attempts }
  -- the node is nil, and `close(n.done)` panics
  | .refused => { s with point := .panicked, attempts := (n.reconnectDelay, .refused) :: s.attempts }
  | .failed => { s with
      node := none, stop := false, cancelDelay := false
      point := .panicked
      attempts := (n.reconnectDelay, .failed) :: s.attempts }

/-- A step, where `outcomes` says how each attempt ends. -/
def exec (outcomes : ℕ → Outcome) (s : State) : Event → Option State
  | .exit => s.node.map fun id => { s with
      node := none
      point := match s.point with
        | .waiting n => .waiting { n with done := n.done || n.id == id }
        | p => p }
  | .wake =>
    match s.point with
    | .waiting n =>
      if n.done then
        if s.stop ∨ s.node.isSome then some { s with point := .returned }
        else some { s with
          point := .delaying { n with reconnectDelay := nextDelay n.reconnectDelay }
          cancelDelay := true, cancelled := false }
      else none
    | _ => none
  | .expire =>
    match s.point with
    | .delaying n =>
      if s.cancelled then none
      else if s.node.isSome then some { s with point := .returned }
      else some (startNewNode s n (outcomes s.attempts.length))
    | _ => none
  | .cancel =>
    match s.point with
    | .delaying _ => if s.cancelled then some { s with point := .returned } else none
    | _ => none
  | .stopNode =>
    if s.node.isSome then some { s with stop := true, cancelled := s.cancelled || s.cancelDelay, cancelDelay := false }
    else none
  | .install =>
    some { s with node := some s.fresh, stop := false, cancelDelay := false, fresh := s.fresh + 1 }

/-- The loop after its node was started. -/
def init : State where
  node := some 0
  stop := false
  cancelDelay := false
  cancelled := false
  point := .waiting ⟨0, false, initialReconnectDelay⟩
  fresh := 1
  attempts := []

/-- The cluster is not stopped, and no other node is installed. -/
def Undisturbed (_ : State) (e : Event) : Prop := e ≠ .stopNode ∧ e ≠ .install

instance (s : State) (e : Event) : Decidable (Undisturbed s e) := inferInstanceAs (Decidable (_ ∧ _))

/-- After an attempt that failed the delay is doubled, up to the greatest one. -/
def Doubles (attempts : List (Duration × Outcome)) : Prop :=
  attempts.IsChain fun b a => a.2 ≠ .started → b.1.toInt = min (2 * a.1.toInt) maxReconnectDelay.toInt

/-- The cluster has no node that runs. -/
def Down (s : State) : Prop :=
  match s.point with
  | .waiting n => n.done = true
  | _ => True

section

variable {outcomes : ℕ → Outcome} {s s' : State} {b : Behavior (execIf (exec outcomes) Undisturbed) init} {N : ℕ}

/-- What holds in every state of an undisturbed run. -/
structure Inv (s : State) : Prop where
  stop : s.point ≠ .panicked → s.stop = false
  waiting : ∀ n, s.point = .waiting n → if n.done then s.node = none else s.node = some n.id
  delaying : ∀ n, s.point = .delaying n → s.node = none ∧ s.cancelled = false
  returned : s.point ≠ .returned
  down : s.point = .panicked → s.node = none
  panicked : s.point = .panicked ↔ ∃ a ∈ s.attempts, a.2 ≠ .started
  tail : ∀ a ∈ s.attempts.tail, a.2 = .started

theorem inv_init : Inv init where
  stop _ := rfl
  waiting n h := by cases h; rfl
  delaying n h := by cases h
  returned h := by cases h
  down h := by cases h
  panicked := by simp [init]
  tail a ha := by cases ha

/-- An undisturbed step: the node exits, the loop wakes up, or it makes an attempt. -/
theorem exec_cases (h : Inv s) {e : Event} (he : execIf (exec outcomes) Undisturbed s e = some s') :
    (e = .exit ∧ ∃ n, s.point = .waiting n ∧ n.done = false ∧
      s' = { s with node := none, point := .waiting { n with done := true } }) ∨
    (e = .wake ∧ ∃ n, s.point = .waiting n ∧ n.done = true ∧ s' = { s with
      point := .delaying { n with reconnectDelay := nextDelay n.reconnectDelay }
      cancelDelay := true, cancelled := false }) ∨
    (e = .expire ∧ ∃ n, s.point = .delaying n ∧ s' = startNewNode s n (outcomes s.attempts.length)) := by
  rw [execIf, Option.ite_none_right_eq_some] at he
  obtain ⟨hown, he⟩ := he
  cases e with
  | exit =>
    refine .inl ⟨rfl, ?_⟩
    obtain ⟨id, hid, rfl⟩ := Option.map_eq_some_iff.mp he
    cases hp : s.point with
    | waiting n =>
      have hn := h.waiting n hp
      cases hd : n.done with
      | true => simp [hd, hid] at hn
      | false =>
        simp only [hd, Bool.false_eq_true, if_false, hid, Option.some.injEq] at hn
        exact ⟨n, rfl, hd, by simp [hn]⟩
    | delaying n => simp [(h.delaying n hp).1] at hid
    | returned => exact absurd hp h.returned
    | panicked => simp [h.down hp] at hid
  | wake =>
    refine .inr (.inl ⟨rfl, ?_⟩)
    simp only [exec] at he
    split at he
    · rename_i n hp
      have hn := h.waiting n hp
      have hstop := h.stop (by simp [hp])
      split at he
      · rename_i hd
        simp only [hd, if_true] at hn
        rw [if_neg (by simp [hstop, hn])] at he
        exact ⟨n, hp, hd, (Option.some.inj he).symm⟩
      · cases he
    · cases he
  | expire =>
    refine .inr (.inr ⟨rfl, ?_⟩)
    simp only [exec] at he
    split at he
    · rename_i n hp
      obtain ⟨hn, hc⟩ := h.delaying n hp
      simp only [hn, hc, Bool.false_eq_true, Option.isSome_none, if_false, Option.some.injEq] at he
      exact ⟨n, hp, he.symm⟩
    · cases he
  | cancel =>
    simp only [exec] at he
    split at he
    · rename_i n hp
      simp [(h.delaying n hp).2] at he
    · cases he
  | stopNode => exact absurd rfl hown.1
  | install => exact absurd rfl hown.2

theorem Inv.all_started (h : Inv s) (hp : s.point ≠ .panicked) : ∀ a ∈ s.attempts, a.2 = .started := by
  intro a ha
  by_contra hne
  exact hp (h.panicked.mpr ⟨a, ha, hne⟩)

/-- An attempt. -/
theorem Inv.startNewNode (h : Inv s) {n : Node} (hp : s.point = .delaying n) (o : Outcome) :
    Inv (startNewNode s n o) := by
  have hok := h.all_started (by simp [hp])
  have hnode := (h.delaying n hp).1
  cases o with
  | started =>
    exact {
      stop := fun _ => rfl
      waiting := fun m hm => by cases hm; rfl
      delaying := fun m hm => by cases hm
      returned := fun hr => by cases hr
      down := fun hd => by cases hd
      panicked := by simpa [Reconnect.startNewNode] using hok
      tail := hok }
  | refused =>
    exact {
      stop := fun hne => absurd rfl hne
      waiting := fun m hm => by cases hm
      delaying := fun m hm => by cases hm
      returned := fun hr => by cases hr
      down := fun _ => hnode
      panicked := by simp [Reconnect.startNewNode]
      tail := hok }
  | failed =>
    exact {
      stop := fun hne => absurd rfl hne
      waiting := fun m hm => by cases hm
      delaying := fun m hm => by cases hm
      returned := fun hr => by cases hr
      down := fun _ => rfl
      panicked := by simp [Reconnect.startNewNode]
      tail := hok }

theorem Inv.step (h : Inv s) {e : Event} (he : execIf (exec outcomes) Undisturbed s e = some s') : Inv s' := by
  obtain ⟨-, n, hp, hd, rfl⟩ | ⟨-, n, hp, hd, rfl⟩ | ⟨-, n, hp, rfl⟩ := exec_cases h he
  · have hok := h.all_started (by simp [hp])
    exact {
      stop := fun _ => h.stop (by simp [hp])
      waiting := fun m hm => by cases hm; rfl
      delaying := fun m hm => by cases hm
      returned := fun hr => by cases hr
      down := fun hd => by cases hd
      panicked := by simpa using hok
      tail := h.tail }
  · have hok := h.all_started (by simp [hp])
    have hnode := h.waiting n hp
    rw [if_pos hd] at hnode
    exact {
      stop := fun _ => h.stop (by simp [hp])
      waiting := fun m hm => by cases hm
      delaying := fun m hm => ⟨hnode, rfl⟩
      returned := fun hr => by cases hr
      down := fun hd => by cases hd
      panicked := by simpa using hok
      tail := h.tail }
  · exact h.startNewNode hp _

theorem inv_of_reaches (h : Reaches (execIf (exec outcomes) Undisturbed) init s) : Inv s :=
  h.inv inv_init fun _ _ _ _ hs _ he => hs.step he

/-- Only the last attempt can have failed, so that there is none after it. -/
theorem Inv.doubles (h : Inv s) : Doubles s.attempts := by
  cases hs : s.attempts with
  | nil => exact .nil
  | cons a rest =>
    have htail : ∀ c ∈ rest, c.2 = .started := fun c hc => h.tail c (by rw [hs]; exact hc)
    refine List.isChain_iff_getElem.mpr fun i hi hne => ?_
    rw [List.getElem_cons_succ] at hne
    exact absurd (htail _ (List.getElem_mem _)) hne

/-- The loop wakes up once its node is done. -/
theorem waiting_delaying (hwake : b.Fair .wake) :
    b.LeadsTo (fun s => (∃ n, s.point = .waiting n ∧ n.done = true) ∧ s.attempts.length = N)
      fun s => (∃ n, s.point = .delaying n) ∧ s.attempts.length = N := by
  refine hwake.leadsTo_of_enabled ?_ ?_ ?_
  · rintro s e s' hs ⟨⟨n, hn, hd⟩, hN⟩ he
    obtain ⟨-, m, hm, hmd, -⟩ | ⟨-, m, hm, -, rfl⟩ | ⟨-, m, hm, -⟩ := exec_cases (inv_of_reaches hs) he
    · cases hn.symm.trans hm
      rw [hd] at hmd
      cases hmd
    · exact .inr ⟨⟨_, rfl⟩, hN⟩
    · cases hn.symm.trans hm
  · rintro s s' hs ⟨⟨n, hn, -⟩, hN⟩ he
    obtain ⟨h, -⟩ | ⟨-, m, -, -, rfl⟩ | ⟨h, -⟩ := exec_cases (inv_of_reaches hs) he
    · cases h
    · exact ⟨⟨_, rfl⟩, hN⟩
    · cases h
  · rintro s hs ⟨⟨n, hn, hd⟩, -⟩
    rw [execIf, if_pos ⟨by decide, by decide⟩, exec, hn]
    simp only [hd, if_true]
    split <;> rfl

/-- The delay comes to its end. -/
theorem delaying_attempt (hexpire : b.Fair .expire) :
    b.LeadsTo (fun s => (∃ n, s.point = .delaying n) ∧ s.attempts.length = N) fun s => s.attempts.length = N + 1 := by
  have hlength : ∀ (s : State) n o, (startNewNode s n o).attempts.length = s.attempts.length + 1 := by
    intro s n o
    cases o <;> rfl
  refine hexpire.leadsTo_of_enabled ?_ ?_ ?_
  · rintro s e s' hs ⟨⟨n, hn⟩, hN⟩ he
    obtain ⟨-, m, hm, -⟩ | ⟨-, m, hm, -⟩ | ⟨-, m, hm, rfl⟩ := exec_cases (inv_of_reaches hs) he
    · cases hn.symm.trans hm
    · cases hn.symm.trans hm
    · exact .inr (by rw [hlength, hN])
  · rintro s s' hs ⟨⟨n, hn⟩, hN⟩ he
    obtain ⟨h, -⟩ | ⟨h, -⟩ | ⟨-, m, hm, rfl⟩ := exec_cases (inv_of_reaches hs) he
    · cases h
    · cases h
    · rw [hlength, hN]
  · rintro s hs ⟨⟨n, hn⟩, -⟩
    rw [execIf, if_pos ⟨by decide, by decide⟩, exec, hn]
    simp only [((inv_of_reaches hs).delaying n hn).2, Bool.false_eq_true, if_false]
    split <;> rfl

/-- In an undisturbed run the loop never panics, doubles the delay after each attempt that fails and makes
another attempt whenever there is no node, just if no attempt fails. -/
theorem reconnect_iff (hwake : b.Fair .wake) (hexpire : b.Fair .expire) :
    ((∀ k, (b.states k).point ≠ .panicked) ∧ (∀ k, Doubles (b.states k).attempts) ∧
      ∀ N, b.LeadsTo (fun s => Down s ∧ s.attempts.length = N) fun s => s.attempts.length = N + 1) ↔
    ∀ k, ∀ a ∈ (b.states k).attempts, a.2 = .started := by
  have hinv := fun k => inv_of_reaches (b.reaches k)
  constructor
  · rintro ⟨hpanic, -⟩ k
    exact (hinv k).all_started (hpanic k)
  · intro hok
    have hpanic : ∀ k, (b.states k).point ≠ .panicked := by
      intro k hp
      obtain ⟨a, ha, hne⟩ := (hinv k).panicked.mp hp
      exact hne (hok k a ha)
    refine ⟨hpanic, fun k => (hinv k).doubles, fun N k hk => ?_⟩
    obtain ⟨hdown, hN⟩ := hk
    cases hp : (b.states k).point with
    | waiting n =>
      rw [Down, hp] at hdown
      exact (waiting_delaying hwake).trans (delaying_attempt hexpire) k ⟨⟨n, hp, hdown⟩, hN⟩
    | delaying n => exact delaying_attempt hexpire k ⟨⟨n, hp⟩, hN⟩
    | returned => exact absurd hp (hinv k).returned
    | panicked => exact absurd hp (hpanic k)

end

/-- A node exits, and the next one runs for ever. -/
theorem reconnect_once :
    (Behavior.ofList (execIf (exec fun _ => .started) Undisturbed) init [.exit, .wake, .expire]).Fair .wake ∧
    (Behavior.ofList (execIf (exec fun _ => .started) Undisturbed) init [.exit, .wake, .expire]).Fair .expire ∧
    ∀ k, ((Behavior.ofList (execIf (exec fun _ => .started) Undisturbed) init [.exit, .wake, .expire]).states k).point
      ≠ .panicked := by
  have hlast : execAll (execIf (exec fun _ => .started) Undisturbed) init [.exit, .wake, .expire] =
      some ⟨some 1, false, false, false, .waiting ⟨1, false, initialReconnectDelay⟩, 2, [(200000000, .started)]⟩ := rfl
  have hwake := Behavior.ofList_fair (e := Event.wake) (by rw [hlast]; rfl)
  have hexpire := Behavior.ofList_fair (e := Event.expire) (by rw [hlast]; rfl)
  refine ⟨hwake, hexpire, ((reconnect_iff hwake hexpire).mpr ?_).1⟩
  intro k
  rcases Nat.lt_or_ge k 3 with hk | hk
  · have : ∀ k < 3, ∀ a ∈ (statesOf (execIf (exec fun _ => .started) Undisturbed) init [.exit, .wake, .expire] k).attempts,
        a.2 = .started := by decide
    exact this k hk
  · simp only [Behavior.ofList, statesOf_of_length_le hlast hk]
    decide

/-- A node exits, and there is an error when the next one is started. -/
theorem reconnect_panics :
    ∃ s, ReachesIf (exec fun _ => .failed) Undisturbed init s ∧ s.point = .panicked := by
  refine ⟨⟨none, false, false, false, .panicked, 1, [(200000000, .failed)]⟩, ReachesIf.of_execIf ?_, rfl⟩
  exact ReachesIf.of_execAll (l := [.exit, .wake, .expire]) rfl

end Reconnect

end Moby.Swarm
