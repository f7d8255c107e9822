import Mathlib.Logic.Function.Basic
import Moby.Framework.Machine

/-!
# Canceling the restart of a container (restartmanager)

`ShouldRestart` decides under the lock whether the container is restarted. If it is, a goroutine waits for
the back-off time or for `Cancel`, whatever it sees first, and closes the channel that `ShouldRestart`
returns; after `Cancel` it sends `ErrRestartCanceled` before. What a goroutine does under the lock is one
step here, and so is each operation on a channel. A `select` with both its channels ready may take either,
as the language has it, and a goroutine that has taken the timer may still wait for the lock; so a channel can
be closed without the error after `Cancel` has returned (`canceled_iff`).
-/

namespace Moby.Restartmanager

open Moby.Framework

/-! ## The decision -/

/-- The names of policies. `none` is `"no"` or the empty name. -/
inductive PolicyName
  | none
  | always
  | onFailure
  | unlessStopped
  | unknown
  deriving DecidableEq

structure RestartPolicy where
  name : PolicyName
  maximumRetryCount : ℤ
  deriving DecidableEq

/-- Durations are in nanoseconds. -/
def defaultTimeout : ℤ := 100000000

def backoffMultiplier : ℤ := 2

structure RestartManager where
  policy : RestartPolicy
  restartCount : ℤ
  /-- An `int64`. -/
  timeout : ℤ
  active : Bool
  /-- The channel `cancel` is closed under the lock together with this. -/
  canceled : Bool
  deriving DecidableEq

def RestartManager.new (policy : RestartPolicy) (restartCount : ℤ) : RestartManager :=
  { policy := policy, restartCount := restartCount, timeout := 0, active := false, canceled := false }

/-- The arguments of `ShouldRestart`. -/
structure Exit where
  exitCode : ℕ
  hasBeenManuallyStopped : Bool
  executionDuration : ℤ
  deriving DecidableEq

/-- What `ShouldRestart` returns. -/
inductive Answer
  | no
  | canceled
  | active
  | restart
  deriving DecidableEq

namespace RestartManager

def nextTimeout (rm : RestartManager) (executionDuration : ℤ) : ℤ :=
  let timeout := if 10000000000 ≤ executionDuration then 0 else rm.timeout
  if timeout = 0 then defaultTimeout else (timeout * backoffMultiplier).bmod 18446744073709551616

def restarts (rm : RestartManager) (x : Exit) : Bool :=
  match rm.policy.name with
  | .always => true
  | .unlessStopped => !x.hasBeenManuallyStopped
  | .onFailure =>
    if rm.policy.maximumRetryCount = 0 ∨ rm.restartCount < rm.policy.maximumRetryCount then x.exitCode ≠ 0 else false
  | .none => false
  | .unknown => false

/-- `ShouldRestart` under the lock. -/
def shouldRestart (rm : RestartManager) (x : Exit) : Answer × RestartManager :=
  if rm.canceled then (.canceled, rm)
  else if rm.active then (.active, rm)
  else
    let rm := { rm with timeout := rm.nextTimeout x.executionDuration }
    if rm.restarts x then (.restart, { rm with restartCount := rm.restartCount + 1, active := true })
    else (.no, { rm with active := false })

end RestartManager

/-! ## Goroutines -/

/-- The goroutine of a channel. -/
inductive Waiter
  | absent
  /-- At the `select`, with the timer expired or not. -/
  | selecting (expired : Bool)
  /-- It has seen the timer, and waits for the lock. -/
  | locking
  /-- It has seen that the manager is canceled, and sends `ErrRestartCanceled`. -/
  | sending
  /-- The error has been received. -/
  | closing
  | closed (delivered : Bool)
  deriving DecidableEq

/-- Where a caller of `ShouldRestart` or `Cancel` is. -/
inductive Point
  | idle
  /-- It waits for the lock in `ShouldRestart`. -/
  | entering (x : Exit)
  /-- `ShouldRestart` has decided to restart, and has unlocked. -/
  | approved
  /-- It has made the channel, and returns it. -/
  | returning (c : ℕ)
  /-- `Cancel` waits for its `sync.Once`. -/
  | canceling
  /-- It runs the function of the `sync.Once`, and waits for the lock. -/
  | inOnce
  /-- `Cancel` returns. -/
  | leaving
  deriving DecidableEq

/-- The call is one of `ShouldRestart` that returns true. -/
def Point.approves : Point → Bool
  | .approved => true
  | .returning _ => true
  | _ => false

structure System (ι : Type) where
  rm : RestartManager
  /-- Who runs the function of the `sync.Once`. -/
  once : Option ι
  done : Bool
  waiter : ℕ → Waiter
  next : ℕ
  /-- The channels that `ShouldRestart` has returned. -/
  given : ℕ → Bool
  point : ι → Point
  /-- A `Cancel` has returned. -/
  returned : Bool

inductive Event (ι : Type)
  | shouldRestart (t : ι) (x : Exit)
  | cancel (t : ι)
  /-- A caller goes on. -/
  | step (t : ι)
  | setPolicy (policy : RestartPolicy)
  | expire (c : ℕ)
  /-- The `select` takes the timer. -/
  | timer (c : ℕ)
  /-- The `select` takes the channel `cancel`. -/
  | wake (c : ℕ)
  /-- The channel is closed under the lock. -/
  | close (c : ℕ)
  /-- `ErrRestartCanceled` is received by whoever has the channel. -/
  | receive (c : ℕ)
  /-- The channel is closed behind the error. -/
  | finish (c : ℕ)
  deriving DecidableEq

variable {ι : Type}

namespace System

def new (policy : RestartPolicy) (restartCount : ℤ) : System ι :=
  { rm := .new policy restartCount, once := none, done := false, waiter := fun _ => .absent, next := 0,
    given := fun _ => false, point := fun _ => .idle, returned := false }

def setWaiter (s : System ι) (c : ℕ) (w : Waiter) : System ι := { s with waiter := Function.update s.waiter c w }

variable [DecidableEq ι]

def move (s : System ι) (t : ι) (p : Point) : System ι := { s with point := Function.update s.point t p }

def step (s : System ι) (t : ι) : Option (System ι) :=
  match s.point t with
  | .idle => none
  | .entering x =>
    let r := s.rm.shouldRestart x
    some ({ s with rm := r.2 }.move t (if r.1 = Answer.restart then .approved else .idle))
  | .approved => some { (s.setWaiter s.next (.selecting false)).move t (.returning s.next) with next := s.next + 1 }
  | .returning c => some { s.move t .idle with given := Function.update s.given c true }
  | .canceling =>
    if s.done then some (s.move t .leaving)
    else if s.once = none then some { s.move t .inOnce with once := some t }
    else none
  | .inOnce => some { s.move t .leaving with rm := { s.rm with canceled := true }, once := none, done := true }
  | .leaving => some { s.move t .idle with returned := true }

def exec (s : System ι) : Event ι → Option (System ι)
  | .shouldRestart t x =>
    if s.point t = .idle then some (if s.rm.policy.name = .none then s else s.move t (.entering x)) else none
  | .cancel t => if s.point t = .idle then some (s.move t .canceling) else none
  | .step t => s.step t
  | .setPolicy policy => some { s with rm := { s.rm with policy := policy } }
  | .expire c => if s.waiter c = .selecting false then some (s.setWaiter c (.selecting true)) else none
  | .timer c => if s.waiter c = .selecting true then some (s.setWaiter c .locking) else none
  | .wake c =>
    match s.waiter c with
    | .selecting _ => if s.rm.canceled then some (s.setWaiter c .sending) else none
    | _ => none
  | .close c =>
    if s.waiter c = .locking then some { s.setWaiter c (.closed false) with rm := { s.rm with active := false } } else none
  | .receive c => if s.waiter c = .sending ∧ s.given c then some (s.setWaiter c .closing) else none
  | .finish c => if s.waiter c = .closing then some (s.setWaiter c (.closed true)) else none

end System

/-! ## What an event can do -/

/-- What an event does to the goroutine of the channel `c`. -/
inductive Moves (c : ℕ) (canceled : Bool) : Event ι → Waiter → Waiter → Prop
  | same (e : Event ι) (w : Waiter) : Moves c canceled e w w
  | spawn (t : ι) : Moves c canceled (.step t) .absent (.selecting false)
  | expire : Moves c canceled (.expire c) (.selecting false) (.selecting true)
  | timer : Moves c canceled (.timer c) (.selecting true) .locking
  | wake (expired : Bool) (h : canceled = true) : Moves c canceled (.wake c) (.selecting expired) .sending
  | close : Moves c canceled (.close c) .locking (.closed false)
  | receive : Moves c canceled (.receive c) .sending .closing
  | finish : Moves c canceled (.finish c) .closing (.closed true)

/-- The error comes, or has come, before the channel is closed. -/
def Waiter.delivers : Waiter → Bool
  | .sending => true
  | .closing => true
  | .closed delivered => delivered
  | _ => false

/-- The channel has been made and is not closed. -/
def Waiter.pending : Waiter → Bool
  | .absent => false
  | .closed _ => false
  | _ => true

theorem Moves.delivers {c : ℕ} {canceled : Bool} {e : Event ι} {w w' : Waiter} (h : Moves c canceled e w w')
    (hw : w.delivers = true) : w'.delivers = true := by
  cases h <;> first | exact hw | rfl

/-- Without its timer, a channel stays on the safe side. -/
theorem Moves.delivers_or {c : ℕ} {canceled : Bool} {e : Event ι} {w w' : Waiter} (h : Moves c canceled e w w')
    (he : e ≠ .expire c) (hw : w = .selecting false ∨ w.delivers = true) : w' = .selecting false ∨ w'.delivers = true := by
  rcases hw with rfl | hw
  · cases h with
    | same => exact .inl rfl
    | expire => exact absurd rfl he
    | wake => exact .inr rfl
  · exact .inr (h.delivers hw)

namespace System

variable [DecidableEq ι] {s s' : System ι} {e : Event ι}

/-- What holds in every state. -/
structure Inv (s : System ι) : Prop where
  fresh : ∀ c, s.next ≤ c → s.waiter c = .absent
  done : s.done = true → s.rm.canceled = true
  leaving : ∀ t, s.point t = .leaving → s.rm.canceled = true
  returned : s.returned = true → s.rm.canceled = true

omit [DecidableEq ι] in
theorem canceled_shouldRestart (rm : RestartManager) (x : Exit) : (rm.shouldRestart x).2.canceled = rm.canceled := by
  simp only [RestartManager.shouldRestart]
  split_ifs <;> rfl

theorem not_restart {rm : RestartManager} (h : rm.canceled = true) (x : Exit) : (rm.shouldRestart x).1 ≠ .restart := by
  simp [RestartManager.shouldRestart, h]

/-- The kinds of changes. -/
inductive Change (s : System ι) (e : Event ι) : System ι → Prop
  | same : Change s e s
  | call (t : ι) (p : Point) (once : Option ι) (happroves : p.approves = false) (hleaving : p = .leaving → s.done = true) :
    Change s e { s.move t p with once := once }
  | decide (t : ι) (x : Exit) :
    Change s e ({ s with rm := (s.rm.shouldRestart x).2 }.move t
      (if (s.rm.shouldRestart x).1 = Answer.restart then .approved else .idle))
  | spawn (t : ι) (he : e = .step t) (ht : s.point t = .approved) :
    Change s e { (s.setWaiter s.next (.selecting false)).move t (.returning s.next) with next := s.next + 1 }
  | give (t : ι) (c : ℕ) : Change s e { s.move t .idle with given := Function.update s.given c true }
  | cancel (t : ι) :
    Change s e { s.move t .leaving with rm := { s.rm with canceled := true }, once := none, done := true }
  | leave (t : ι) (ht : s.point t = .leaving) : Change s e { s.move t .idle with returned := true }
  | policy (policy : RestartPolicy) : Change s e { s with rm := { s.rm with policy := policy } }
  | goroutine (c : ℕ) (w : Waiter) (active : Bool) (hold : s.waiter c ≠ .absent)
    (hmoves : Moves c s.rm.canceled e (s.waiter c) w) :
    Change s e { s.setWaiter c w with rm := { s.rm with active := active } }

theorem change_step {t : ι} (he : s.step t = some s') : Change s (.step t) s' := by
  rw [step] at he
  split at he
  · cases he
  · cases he
    exact .decide t _
  · rename_i ht
    cases he
    exact .spawn t rfl ht
  · cases he
    exact .give t _
  · split_ifs at he with hdone honce
    · cases he
      exact .call t .leaving s.once rfl fun _ => hdone
    · cases he
      exact .call t .inOnce (some t) rfl fun h => by cases h
  · cases he
    exact .cancel t
  · rename_i ht
    cases he
    exact .leave t ht

/-- The goroutine of a channel moves. -/
theorem Change.of_waiter {c : ℕ} {w w' : Waiter} (active : Bool) (hw : s.waiter c = w) (hold : w ≠ .absent)
    (hmoves : Moves c s.rm.canceled e w w') : Change s e { s.setWaiter c w' with rm := { s.rm with active := active } } := by
  subst hw
  exact .goroutine c w' active hold hmoves

theorem change_exec (he : s.exec e = some s') : Change s e s' := by
  cases e with
  | shouldRestart t x =>
    simp only [exec] at he
    split_ifs at he
    · cases he
      exact .same
    · cases he
      exact .call t (.entering x) s.once rfl fun h => by cases h
  | cancel t =>
    simp only [exec] at he
    split_ifs at he
    cases he
    exact .call t .canceling s.once rfl fun h => by cases h
  | step t => exact change_step he
  | setPolicy policy =>
    cases he
    exact .policy policy
  | expire c =>
    simp only [exec] at he
    split_ifs at he with hw
    cases he
    exact .of_waiter s.rm.active hw (by simp) .expire
  | timer c =>
    simp only [exec] at he
    split_ifs at he with hw
    cases he
    exact .of_waiter s.rm.active hw (by simp) .timer
  | wake c =>
    simp only [exec] at he
    split at he
    · rename_i expired hw
      split_ifs at he with hcanceled
      cases he
      exact .of_waiter s.rm.active hw (by simp) (.wake expired hcanceled)
    · cases he
  | close c =>
    simp only [exec] at he
    split_ifs at he with hw
    cases he
    exact .of_waiter false hw (by simp) .close
  | receive c =>
    simp only [exec] at he
    split_ifs at he with hw
    cases he
    exact .of_waiter s.rm.active hw.1 (by simp) .receive
  | finish c =>
    simp only [exec] at he
    split_ifs at he with hw
    cases he
    exact .of_waiter s.rm.active hw (by simp) .finish

/-- A goroutine moves only by its own events. -/
theorem Change.moves (h : Change s e s') (hs : s.Inv) (c : ℕ) : Moves c s.rm.canceled e (s.waiter c) (s'.waiter c) := by
  cases h with
  | spawn t he ht =>
    show Moves c s.rm.canceled e (s.waiter c) (Function.update s.waiter s.next (.selecting false) c)
    by_cases hc : c = s.next
    · rw [hc, Function.update_self, hs.fresh s.next le_rfl, he]
      exact .spawn t
    · rw [Function.update_of_ne hc]
      exact .same _ _
  | goroutine c' w active hold hmoves =>
    show Moves c s.rm.canceled e (s.waiter c) (Function.update s.waiter c' w c)
    by_cases hc : c = c'
    · rw [hc, Function.update_self]
      exact hmoves
    · rw [Function.update_of_ne hc]
      exact .same _ _
  | _ => exact .same _ _

theorem Change.canceled (h : Change s e s') (hc : s.rm.canceled = true) : s'.rm.canceled = true := by
  cases h with
  | decide t x => exact (canceled_shouldRestart s.rm x).trans hc
  | cancel t => rfl
  | _ => exact hc

/-- Once the manager is canceled, no call comes to be one that returns true. -/
theorem Change.approves (h : Change s e s') (hc : s.rm.canceled = true) {t : ι} (ht : (s'.point t).approves = true) :
    (s.point t).approves = true := by
  have hmove : ∀ (t' : ι) (p : Point), (p.approves = true → (s.point t').approves = true) →
      (Function.update s.point t' p t).approves = true → (s.point t).approves = true := by
    intro t' p hp hupdate
    by_cases htt : t = t'
    · rw [htt, Function.update_self] at hupdate
      rw [htt]
      exact hp hupdate
    · rwa [Function.update_of_ne htt] at hupdate
  cases h with
  | call t' p once happroves hleaving => exact hmove t' p (fun hp => by rw [happroves] at hp; cases hp) ht
  | decide t' x => exact hmove t' _ (fun hp => by rw [if_neg (not_restart hc x)] at hp; cases hp) ht
  | spawn t' he ht' => exact hmove t' _ (fun _ => by rw [ht']; rfl) ht
  | give t' c => exact hmove t' .idle (fun hp => by cases hp) ht
  | cancel t' => exact hmove t' .leaving (fun hp => by cases hp) ht
  | leave t' ht' => exact hmove t' .idle (fun hp => by cases hp) ht
  | _ => exact ht

theorem Inv.exec (hs : s.Inv) (he : s.exec e = some s') : s'.Inv := by
  have hch := change_exec he
  have hcanceled := hch.canceled
  -- A caller that returns from `Cancel` has seen it done.
  have hmove : ∀ (t' : ι) (p : Point), (p = .leaving → s'.rm.canceled = true) →
      s'.point = Function.update s.point t' p → ∀ t, s'.point t = .leaving → s'.rm.canceled = true := by
    intro t' p hp hpoint t ht
    rw [hpoint] at ht
    by_cases htt : t = t'
    · rw [htt, Function.update_self] at ht
      exact hp ht
    · rw [Function.update_of_ne htt] at ht
      exact hcanceled (hs.leaving t ht)
  cases hch with
  | same => exact hs
  | call t p once happroves hleaving =>
    exact ⟨hs.fresh, hs.done, hmove t p (fun h => hs.done (hleaving h)) rfl, hs.returned⟩
  | decide t x =>
    refine ⟨hs.fresh, fun h => hcanceled (hs.done h), hmove t _ (fun h => ?_) rfl, fun h => hcanceled (hs.returned h)⟩
    split_ifs at h
  | spawn t he ht =>
    refine ⟨fun c hc => ?_, hs.done, hmove t _ (fun h => by cases h) rfl, hs.returned⟩
    have hne : c ≠ s.next := (Nat.lt_of_succ_le hc).ne'
    exact (Function.update_of_ne hne _ _).trans (hs.fresh c (Nat.le_of_succ_le hc))
  | give t c => exact ⟨hs.fresh, hs.done, hmove t _ (fun h => by cases h) rfl, hs.returned⟩
  | cancel t => exact ⟨hs.fresh, fun _ => rfl, fun _ _ => rfl, fun _ => rfl⟩
  | leave t ht => exact ⟨hs.fresh, hs.done, hmove t _ (fun h => by cases h) rfl, fun _ => hs.leaving t ht⟩
  | policy policy => exact ⟨hs.fresh, hs.done, hs.leaving, hs.returned⟩
  | goroutine c w active hold hmoves =>
    refine ⟨fun c' hc' => ?_, hs.done, hs.leaving, hs.returned⟩
    have hne : c' ≠ c := fun h => hold (h ▸ hs.fresh c' hc')
    exact (Function.update_of_ne hne _ _).trans (hs.fresh c' hc')

theorem inv_reaches {policy : RestartPolicy} {restartCount : ℤ} (h : Reaches exec (new policy restartCount) s) : s.Inv := by
  refine h.inv ⟨fun _ _ => rfl, fun h => (by cases h), fun _ h => (by cases h), fun h => (by cases h)⟩ ?_
  intro s e s' _ hs _ he
  exact hs.exec he

/-! ## After Cancel has returned -/

/-- A goroutine that has not seen the canceling can be led by its timer to close the channel. -/
theorem closed_of_pending {c : ℕ} (hpending : (s.waiter c).pending = true) (hdelivers : (s.waiter c).delivers = false) :
    ∃ s', Reaches exec s s' ∧ s'.waiter c = .closed false := by
  have hlocking : ∀ s : System ι, s.waiter c = .locking → ∃ s', Reaches exec s s' ∧ s'.waiter c = .closed false := by
    intro s hw
    refine ⟨_, ReachesIf.refl.tail (e := .close c) trivial (by rw [exec, if_pos hw]), ?_⟩
    exact Function.update_self ..
  have hexpired : ∀ s : System ι, s.waiter c = .selecting true → ∃ s', Reaches exec s s' ∧ s'.waiter c = .closed false := by
    intro s hw
    obtain ⟨s', hr, hc⟩ := hlocking (s.setWaiter c .locking) (Function.update_self ..)
    exact ⟨s', (ReachesIf.refl.tail (e := .timer c) trivial (by rw [exec, if_pos hw])).trans hr, hc⟩
  cases hw : s.waiter c with
  | selecting expired =>
    cases expired with
    | true => exact hexpired s hw
    | false =>
      obtain ⟨s', hr, hc⟩ := hexpired (s.setWaiter c (.selecting true)) (Function.update_self ..)
      exact ⟨s', (ReachesIf.refl.tail (e := .expire c) trivial (by rw [exec, if_pos hw])).trans hr, hc⟩
  | locking => exact hlocking s hw
  | absent => rw [hw] at hpending; cases hpending
  | closed delivered => rw [hw] at hpending; cases hpending
  | sending => rw [hw] at hdelivers; cases hdelivers
  | closing => rw [hw] at hdelivers; cases hdelivers

theorem Inv.reaches {G : System ι → Event ι → Prop} (hs : s.Inv) (h : ReachesIf System.exec G s s') : s'.Inv :=
  h.inv hs fun _ _ _ _ ih _ he => ih.exec he

theorem not_closed_of_delivers {w : Waiter} (h : w.delivers = true) : w ≠ .closed false := by
  rintro rfl
  cases h

/-- Once a `Cancel` has returned, only a call that has been approved before can return true. A channel
that is pending then is never closed without the error just if its goroutine has seen the canceling;
and if its timer has not expired, for as long as it does not. -/
theorem canceled_iff (policy : RestartPolicy) (restartCount : ℤ) (h : Reaches exec (new policy restartCount) s)
    (hreturned : s.returned = true) :
    (∀ s' t, Reaches exec s s' → (s'.point t).approves = true → (s.point t).approves = true) ∧
    ∀ c, s.given c = true → (s.waiter c).pending = true →
      ((∀ s', Reaches exec s s' → s'.waiter c ≠ .closed false) ↔ s.waiter c = .sending ∨ s.waiter c = .closing) ∧
      (s.waiter c = .selecting false →
        ∀ s', ReachesIf exec (fun _ e => e ≠ .expire c) s s' → s'.waiter c ≠ .closed false) := by
  have hs := inv_reaches h
  have hcanceled := hs.returned hreturned
  refine ⟨fun s' t hr => ?_, fun c _ hpending => ⟨⟨fun hnever => ?_, fun hw s' hr => ?_⟩, fun hw s' hr => ?_⟩⟩
  · have hkept : s'.rm.canceled = true ∧ ((s'.point t).approves = true → (s.point t).approves = true) := by
      refine hr.inv (I := fun s' => s'.rm.canceled = true ∧ ((s'.point t).approves = true → (s.point t).approves = true))
        ⟨hcanceled, id⟩ fun s₁ e s₂ _ ih _ he => ?_
      exact ⟨(change_exec he).canceled ih.1, fun ht => ih.2 ((change_exec he).approves ih.1 ht)⟩
    exact hkept.2
  · cases hdelivers : (s.waiter c).delivers with
    | false =>
      obtain ⟨s', hr, hc⟩ := closed_of_pending hpending hdelivers
      exact absurd hc (hnever s' hr)
    | true => cases hw : s.waiter c <;> simp_all [Waiter.delivers, Waiter.pending]
  · have hdelivers : (s.waiter c).delivers = true := by rcases hw with hw | hw <;> rw [hw] <;> rfl
    refine not_closed_of_delivers (hr.inv (I := fun s' => (s'.waiter c).delivers = true) hdelivers fun s₁ e s₂ hr₁ ih _ he => ?_)
    exact ((change_exec he).moves (hs.reaches hr₁) c).delivers ih
  · have hsafe : s'.waiter c = .selecting false ∨ (s'.waiter c).delivers = true := by
      refine hr.inv (I := fun s' => s'.waiter c = .selecting false ∨ (s'.waiter c).delivers = true) (.inl hw)
        fun s₁ e s₂ hr₁ ih hG he => ?_
      exact ((change_exec he).moves (hs.reaches hr₁) c).delivers_or hG ih
    rcases hsafe with hsafe | hsafe
    · rw [hsafe]
      simp
    · exact not_closed_of_delivers hsafe

/-- The goroutine has seen the canceling. -/
theorem canceled_of_wake : ∃ s : System Bool, Reaches exec (new ⟨.always, 0⟩ 0) s ∧ s.returned = true ∧
    s.given 0 = true ∧ s.waiter 0 = .sending ∧ ∀ s', Reaches exec s s' → s'.waiter 0 ≠ .closed false := by
  obtain ⟨s, hr, hview⟩ := ReachesIf.of_view exec (fun _ _ => True) (new ⟨.always, 0⟩ 0 : System Bool)
    [.shouldRestart false ⟨0, false, 0⟩, .step false, .step false, .step false, .cancel true, .step true, .step true,
      .step true, .wake 0]
    (fun s => (s.returned, s.given 0, s.waiter 0)) (b := (true, true, .sending)) (by decide +kernel)
  simp only [Prod.mk.injEq] at hview
  obtain ⟨hreturned, hgiven, hw⟩ := hview
  have hpending : (s.waiter 0).pending = true := by rw [hw]; rfl
  exact ⟨s, hr, hreturned, hgiven, hw, ((canceled_iff _ _ hr hreturned).2 0 hgiven hpending).1.mpr (.inl hw)⟩

/-- The timer expires, `Cancel` is faster to get the lock than the goroutine, and the channel is closed after
it has returned. And a call that has been approved returns true after `Cancel` has returned. -/
theorem closed_after_cancel :
    (∃ s s' : System Bool, Reaches exec (new ⟨.always, 0⟩ 0) s ∧ s.returned = true ∧ s.given 0 = true ∧
      (s.waiter 0).pending = true ∧ Reaches exec s s' ∧ s'.waiter 0 = .closed false) ∧
    ∃ s : System Bool, Reaches exec (new ⟨.always, 0⟩ 0) s ∧ s.returned = true ∧ (s.point false).approves = true := by
  constructor
  · obtain ⟨s, hr, hview⟩ := ReachesIf.of_view exec (fun _ _ => True) (new ⟨.always, 0⟩ 0 : System Bool)
      [.shouldRestart false ⟨0, false, 0⟩, .step false, .step false, .step false, .expire 0, .timer 0, .cancel true,
        .step true, .step true, .step true]
      (fun s => (s.returned, s.given 0, s.waiter 0)) (b := (true, true, .locking)) (by decide +kernel)
    simp only [Prod.mk.injEq] at hview
    obtain ⟨hreturned, hgiven, hw⟩ := hview
    have hpending : (s.waiter 0).pending = true := by rw [hw]; rfl
    obtain ⟨s', hr', hclosed⟩ := closed_of_pending hpending (by rw [hw]; rfl)
    exact ⟨s, s', hr, hreturned, hgiven, hpending, hr', hclosed⟩
  · obtain ⟨s, hr, hview⟩ := ReachesIf.of_view exec (fun _ _ => True) (new ⟨.always, 0⟩ 0 : System Bool)
      [.shouldRestart false ⟨0, false, 0⟩, .step false, .cancel true, .step true, .step true, .step true]
      (fun s => (s.returned, s.point false)) (b := (true, .approved)) (by decide +kernel)
    simp only [Prod.mk.injEq] at hview
    exact ⟨s, hr, hview.1, by rw [hview.2]; rfl⟩

end System

end Moby.Restartmanager
