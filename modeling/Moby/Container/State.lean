import Mathlib.Data.Fintype.Basic
import Mathlib.Logic.Function.Basic
import Moby.Framework.Machine

/-!
# Waiting for a container to stop (container/state.go)

`WaitStop` takes the wait channel of a running container under the lock, waits until
it is closed without the lock, and takes the lock again to read the exit code. The
transitions close the channel and write the exit code under the lock, in one step.
What is read need not be what was written when the channel was closed.
-/

namespace Moby.Container

open Moby.Framework

variable {ι : Type}

structure ExitStatus where
  exitCode : ℤ
  oomKilled : Bool
  deriving DecidableEq

/-- Channels are numbers, made one after the other: those before `waitChan` have been
closed. -/
structure State where
  running : Bool
  paused : Bool
  restarting : Bool
  oomKilled : Bool
  pid : ℤ
  exitCode : ℤ
  error : String
  startedAt : ℤ
  finishedAt : ℤ
  waitChan : ℕ
  deriving DecidableEq

namespace State

/-- What `NewState` makes. -/
def new : State :=
  { running := false, paused := false, restarting := false, oomKilled := false, pid := 0, exitCode := 0, error := "",
    startedAt := 0, finishedAt := 0, waitChan := 0 }

def setFromExitStatus (s : State) (exitStatus : ExitStatus) : State :=
  { s with exitCode := exitStatus.exitCode, oomKilled := exitStatus.oomKilled }

/-- `close(s.waitChan)`, and a new one is made. -/
def fire (s : State) : State := { s with waitChan := s.waitChan + 1 }

def setRunning (s : State) (pid : ℤ) (initial : Bool) (now : ℤ) : State :=
  { s with
    error := ""
    running := true
    paused := false
    restarting := false
    exitCode := 0
    pid := pid
    startedAt := if initial then now else s.startedAt }

def setStopped (s : State) (exitStatus : ExitStatus) (now : ℤ) : State :=
  ({ s with running := false, paused := false, restarting := false, pid := 0, finishedAt := now }.setFromExitStatus
    exitStatus).fire

/-- It is left running, for the checks elsewhere. -/
def setRestarting (s : State) (exitStatus : ExitStatus) (now : ℤ) : State :=
  ({ s with running := true, restarting := true, pid := 0, finishedAt := now }.setFromExitStatus exitStatus).fire

end State

/-- Where a caller of `WaitStop` is. -/
inductive Waiter
  | idle
  /-- In `wait`, with the channel and the timeout. -/
  | waiting (waitChan : ℕ) (timeout : ℤ)
  /-- Behind `wait`, before the lock is taken again. -/
  | woken (waitChan : ℕ)
  /-- It was not running. -/
  | stopped (exitCode : ℤ)
  /-- It has been woken by the channel. -/
  | returned (waitChan : ℕ) (exitCode : ℤ)
  /-- `-1` and an error. -/
  | timedOut
  deriving DecidableEq

structure System (ι : Type) where
  state : State
  waiter : ι → Waiter
  /-- What was passed to the transition that closed a channel. -/
  passed : ℕ → Option ℤ

/-- The caller is between two calls. -/
def Waiter.free : Waiter → Bool
  | .waiting _ _ => false
  | .woken _ => false
  | _ => true

/-- The channel of a call that has not read the exit code yet. -/
def Waiter.pending : Waiter → Option ℕ
  | .waiting c _ => some c
  | .woken c => some c
  | _ => none

inductive Event (ι : Type)
  | setRunning (pid : ℤ) (initial : Bool) (now : ℤ)
  | setStopped (exitStatus : ExitStatus) (now : ℤ)
  | setRestarting (exitStatus : ExitStatus) (now : ℤ)
  /-- `WaitStop` up to where it waits. -/
  | waitStop (t : ι) (timeout : ℤ)
  | wake (t : ι)
  | timeout (t : ι)
  /-- The rest of `WaitStop`. -/
  | read (t : ι)
  deriving DecidableEq

/-- What a transition writes. -/
def Event.exitCode? : Event ι → Option ℤ
  | .setRunning _ _ _ => some 0
  | .setStopped exitStatus _ => some exitStatus.exitCode
  | .setRestarting exitStatus _ => some exitStatus.exitCode
  | _ => none

namespace System

def init (s : State) : System ι := { state := s, waiter := fun _ => .idle, passed := fun _ => none }

/-- A transition closes the wait channel. -/
def close (s : System ι) (state : State) (exitStatus : ExitStatus) : System ι :=
  { s with state := state, passed := Function.update s.passed s.state.waitChan (some exitStatus.exitCode) }

section

variable [DecidableEq ι]

def move (s : System ι) (t : ι) (w : Waiter) : System ι := { s with waiter := Function.update s.waiter t w }

def exec (s : System ι) : Event ι → Option (System ι)
  | .setRunning pid initial now => some { s with state := s.state.setRunning pid initial now }
  | .setStopped exitStatus now => some (s.close (s.state.setStopped exitStatus now) exitStatus)
  | .setRestarting exitStatus now => some (s.close (s.state.setRestarting exitStatus now) exitStatus)
  | .waitStop t timeout =>
    if (s.waiter t).free then
      if s.state.running then some (s.move t (.waiting s.state.waitChan timeout))
      else some (s.move t (.stopped s.state.exitCode))
    else none
  | .wake t =>
    match s.waiter t with
    | .waiting c _ => if c < s.state.waitChan then some (s.move t (.woken c)) else none
    | _ => none
  | .timeout t =>
    match s.waiter t with
    | .waiting _ timeout => if 0 ≤ timeout then some (s.move t .timedOut) else none
    | _ => none
  | .read t =>
    match s.waiter t with
    | .woken c => some (s.move t (.returned c s.state.exitCode))
    | _ => none

end

/-- A call that was woken returns what was passed to the transition that closed its
channel. -/
def Ok (s : System ι) : Prop := ∀ t c code, s.waiter t = .returned c code → s.passed c = some code

/-- Whatever a transition finds waiting on a channel that has been closed is to return
the code that the transition writes. -/
def Undisturbed (s : System ι) (e : Event ι) : Prop :=
  ∀ code ∈ e.exitCode?, ∀ t, ∀ c ∈ (s.waiter t).pending, c < s.state.waitChan → s.passed c = some code

instance [Fintype ι] (s : System ι) (e : Event ι) : Decidable (s.Undisturbed e) :=
  inferInstanceAs <| Decidable <|
    ∀ code ∈ e.exitCode?, ∀ t, ∀ c ∈ (s.waiter t).pending, c < s.state.waitChan → s.passed c = some code

/-- A call with this channel has been woken, or will be, with what is there to read. -/
def Closed (s : System ι) (c : ℕ) (code : ℤ) : Prop := c < s.state.waitChan ∧ s.passed c = some code

/-- A call waits on the current channel, or on one that was closed with the exit code
that is there now. -/
structure Inv (s : System ι) : Prop where
  pending : ∀ t c, (s.waiter t).pending = some c → c = s.state.waitChan ∨ s.Closed c s.state.exitCode
  woken : ∀ t c, s.waiter t = .woken c → c < s.state.waitChan
  returned : ∀ t c code, s.waiter t = .returned c code → s.Closed c code

namespace Inv

variable {s : System ι} (h : s.Inv)

include h

theorem ok : s.Ok := fun t c code hw => (h.returned t c code hw).2

/-- A caller moves on. -/
theorem move [DecidableEq ι] {t : ι} {w : Waiter}
    (hpending : ∀ c, w.pending = some c → c = s.state.waitChan ∨ s.Closed c s.state.exitCode)
    (hwoken : ∀ c, w = .woken c → c < s.state.waitChan)
    (hreturned : ∀ c code, w = .returned c code → s.Closed c code) : (s.move t w).Inv := by
  have hcases (t' : ι) : t' = t ∧ (s.move t w).waiter t' = w ∨ (s.move t w).waiter t' = s.waiter t' := by
    by_cases ht : t' = t
    · exact .inl ⟨ht, ht ▸ Function.update_self ..⟩
    · exact .inr (Function.update_of_ne ht ..)
  constructor
  case pending =>
    intro t' c hc
    rcases hcases t' with ⟨-, he⟩ | he <;> rw [he] at hc
    · exact hpending c hc
    · exact h.pending t' c hc
  case woken =>
    intro t' c hc
    rcases hcases t' with ⟨-, he⟩ | he <;> rw [he] at hc
    · exact hwoken c hc
    · exact h.woken t' c hc
  case returned =>
    intro t' c code hc
    rcases hcases t' with ⟨-, he⟩ | he <;> rw [he] at hc
    · exact hreturned c code hc
    · exact h.returned t' c code hc

/-- A transition that leaves the channel open. -/
theorem write {state : State} (hchan : state.waitChan = s.state.waitChan)
    (hquiet : ∀ t c, (s.waiter t).pending = some c → c < s.state.waitChan → s.passed c = some state.exitCode) :
    Inv { s with state := state } := by
  constructor
  case pending =>
    intro t c hc
    rw [Closed]
    simp only [hchan]
    rcases h.pending t c hc with he | ⟨hlt, -⟩
    · exact .inl he
    · exact .inr ⟨hlt, hquiet t c hc hlt⟩
  case woken =>
    intro t c hc
    rw [hchan]
    exact h.woken t c hc
  case returned =>
    intro t c code hc
    rw [Closed]
    simp only [hchan]
    exact h.returned t c code hc

/-- A transition that closes the channel: those that wait on it have its code. -/
theorem close {state : State} {exitStatus : ExitStatus} (hchan : state.waitChan = s.state.waitChan + 1)
    (hcode : state.exitCode = exitStatus.exitCode)
    (hquiet : ∀ t c, (s.waiter t).pending = some c → c < s.state.waitChan → s.passed c = some exitStatus.exitCode) :
    (s.close state exitStatus).Inv := by
  have hlt {c : ℕ} (hc : c < s.state.waitChan) : c < (s.close state exitStatus).state.waitChan := by
    show c < state.waitChan
    omega
  have hold {c : ℕ} {code : ℤ} (hc : s.Closed c code) : (s.close state exitStatus).Closed c code := by
    refine ⟨hlt hc.1, ?_⟩
    show Function.update s.passed _ _ c = _
    rw [Function.update_of_ne (Nat.ne_of_lt hc.1)]
    exact hc.2
  constructor
  case pending =>
    intro t c hc
    refine .inr ?_
    show Closed _ c state.exitCode
    rw [hcode]
    rcases h.pending t c hc with he | ⟨hc', -⟩
    · refine ⟨?_, ?_⟩
      · show c < state.waitChan
        omega
      · show Function.update s.passed _ _ c = _
        rw [he, Function.update_self]
    · exact hold ⟨hc', hquiet t c hc hc'⟩
  case woken => exact fun t c hc => hlt (h.woken t c hc)
  case returned => exact fun t c code hc => hold (h.returned t c code hc)

theorem exec [DecidableEq ι] {s' : System ι} {e : Event ι} (hG : s.Undisturbed e) (he : s.exec e = some s') :
    s'.Inv := by
  cases e with
  | setRunning pid initial now =>
    cases he
    exact h.write rfl (hG 0 rfl)
  | setStopped exitStatus now =>
    cases he
    exact h.close rfl rfl (hG _ rfl)
  | setRestarting exitStatus now =>
    cases he
    exact h.close rfl rfl (hG _ rfl)
  | waitStop t timeout =>
    obtain ⟨-, he⟩ := Option.ite_none_right_eq_some.mp he
    split_ifs at he with hrun
    · cases he
      refine h.move (fun c hc => ?_) (fun c hc => nomatch hc) fun c code hc => nomatch hc
      exact .inl (Option.some.inj hc).symm
    · cases he
      exact h.move (fun c hc => nomatch hc) (fun c hc => nomatch hc) fun c code hc => nomatch hc
  | wake t =>
    rw [System.exec] at he
    split at he
    · rename_i c timeout hw
      obtain ⟨hlt, ⟨⟩⟩ := Option.ite_none_right_eq_some.mp he
      refine h.move (fun c' hc => ?_) (fun c' hc => ?_) fun c code hc => nomatch hc
      · exact h.pending t c' (by rw [hw]; exact hc)
      · cases hc
        exact hlt
    · cases he
  | timeout t =>
    rw [System.exec] at he
    split at he
    · obtain ⟨-, ⟨⟩⟩ := Option.ite_none_right_eq_some.mp he
      exact h.move (fun c hc => nomatch hc) (fun c hc => nomatch hc) fun c code hc => nomatch hc
    · cases he
  | read t =>
    rw [System.exec] at he
    split at he
    · rename_i c hw
      cases he
      refine h.move (fun c hc => nomatch hc) (fun c hc => nomatch hc) fun c' code hc => ?_
      cases hc
      have hlt := h.woken t c hw
      exact (h.pending t c (by rw [hw]; rfl)).resolve_left (Nat.ne_of_lt hlt)
    · cases he

end Inv

theorem inv_init (s : State) : (init s : System ι).Inv := by
  constructor
  case pending => exact fun t c hc => nomatch hc
  case woken => exact fun t c hc => nomatch hc
  case returned => exact fun t c code hc => nomatch hc

/-- What a caller that can be woken will return, if nothing else happens. -/
theorem exists_returned [DecidableEq ι] {s : System ι} {t : ι} {c : ℕ} (hc : (s.waiter t).pending = some c)
    (hlt : c < s.state.waitChan) :
    ∃ s', Reaches exec s s' ∧ s'.waiter t = .returned c s.state.exitCode ∧ s'.passed = s.passed := by
  cases hw : s.waiter t with
  | waiting c' timeout =>
    rw [hw] at hc
    cases hc
    have hwake : s.exec (.wake t) = some (s.move t (.woken c)) := by
      rw [exec, hw]
      exact if_pos hlt
    have hread : (s.move t (.woken c)).exec (.read t) = some ((s.move t (.woken c)).move t (.returned c s.state.exitCode)) := by
      rw [exec, show (s.move t (.woken c)).waiter t = .woken c from Function.update_self ..]
      rfl
    exact ⟨_, (ReachesIf.refl.tail trivial hwake).tail trivial hread, Function.update_self .., rfl⟩
  | woken c' =>
    rw [hw] at hc
    cases hc
    have hread : s.exec (.read t) = some (s.move t (.returned c s.state.exitCode)) := by
      rw [exec, hw]
    exact ⟨_, ReachesIf.refl.tail trivial hread, Function.update_self .., rfl⟩
  | _ =>
    rw [hw] at hc
    cases hc

/-- What a transition does not touch. -/
theorem exec_of_exitCode? [DecidableEq ι] {s s' : System ι} {e : Event ι} {code : ℤ} (hcode : e.exitCode? = some code)
    (he : s.exec e = some s') :
    s'.state.exitCode = code ∧ s'.waiter = s.waiter ∧ s.state.waitChan ≤ s'.state.waitChan ∧
    ∀ c, c < s.state.waitChan → s'.passed c = s.passed c := by
  cases e with
  | setRunning pid initial now =>
    cases hcode
    cases he
    exact ⟨rfl, rfl, Nat.le_refl _, fun c _ => rfl⟩
  | setStopped exitStatus now =>
    cases hcode
    cases he
    exact ⟨rfl, rfl, Nat.le_succ _, fun c hc => Function.update_of_ne (Nat.ne_of_lt hc) ..⟩
  | setRestarting exitStatus now =>
    cases hcode
    cases he
    exact ⟨rfl, rfl, Nat.le_succ _, fun c hc => Function.update_of_ne (Nat.ne_of_lt hc) ..⟩
  | _ => cases hcode

/-- Whatever the state was at first, and whoever waits: the calls return what they
should if they are not disturbed, and a transition that disturbs one can make it return
something else. -/
theorem waitStop_ok [DecidableEq ι] (s₀ : State) {s : System ι} (h : ReachesIf exec Undisturbed (init s₀) s) :
    s.Ok ∧ ∀ e s', s.exec e = some s' → ¬ s.Undisturbed e → ∃ s'', Reaches exec s' s'' ∧ ¬ s''.Ok := by
  have hinv : s.Inv := ReachesIf.inv (inv_init s₀) (fun _ _ _ _ hi hG he => hi.exec hG he) h
  refine ⟨hinv.ok, fun e s' he hG => ?_⟩
  unfold Undisturbed at hG
  push Not at hG
  obtain ⟨code, hcode, t, c, hc, hlt, hne⟩ := hG
  obtain ⟨hcode', hwaiter, hle, hpassed⟩ := exec_of_exitCode? hcode he
  obtain ⟨s'', hs'', hret, hpassed'⟩ := exists_returned (s := s') (t := t) (hwaiter ▸ hc) (Nat.lt_of_lt_of_le hlt hle)
  refine ⟨s'', hs'', fun hok => hne ?_⟩
  rw [← hpassed c hlt, ← hpassed', ← hcode']
  exact hok t c _ hret

/-- Two callers wait, the container stops with code 3, both return, and it is started
again. -/
theorem waitStop_ok_two : ∃ s : System (Fin 2), ReachesIf exec Undisturbed (init State.new) s ∧
    (s.waiter 0 = .returned 0 3 ∧ s.waiter 1 = .returned 0 3 ∧ s.state.exitCode = 0) ∧ s.Ok := by
  obtain ⟨s, h, hs⟩ := ReachesIf.of_view exec Undisturbed (init State.new : System (Fin 2))
    [.setRunning 7 true 0, .waitStop 0 (-1), .waitStop 1 10, .setStopped ⟨3, false⟩ 1, .wake 1, .wake 0, .read 0, .read 1,
      .setRunning 8 true 2]
    (fun s => decide (s.waiter 0 = .returned 0 3 ∧ s.waiter 1 = .returned 0 3 ∧ s.state.exitCode = 0)) (b := true)
    (by decide +kernel)
  exact ⟨s, h, of_decide_eq_true hs, (waitStop_ok State.new h).1⟩

/-- The container stops with code 3 and is started again before the caller has the
lock: it returns 0. -/
theorem waitStop_disturbed : ∃ s : System (Fin 1), Reaches exec (init State.new) s ∧ ¬ s.Ok := by
  obtain ⟨s, h, hs⟩ := ReachesIf.of_view exec (fun _ _ => True) (init State.new : System (Fin 1))
    [.setRunning 7 true 0, .waitStop 0 (-1), .setStopped ⟨3, false⟩ 1, .wake 0, .setRunning 8 true 2, .read 0]
    (fun s => decide (s.waiter 0 = .returned 0 0 ∧ s.passed 0 = some 3)) (b := true) (by decide +kernel)
  obtain ⟨hret, hpassed⟩ := of_decide_eq_true hs
  refine ⟨s, h, fun hok => ?_⟩
  have hzero := hok 0 0 0 hret
  rw [hpassed] at hzero
  cases hzero

end System

end Moby.Container
