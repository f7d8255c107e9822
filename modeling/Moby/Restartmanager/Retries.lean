import Moby.Restartmanager

/-!
# How often a container is restarted

While a restart is under way the manager is active, and refuses other calls of `ShouldRestart`. The restart is
first in the hands of the call that has decided on it (`Holder.call`) and then of the goroutine that waits for the
back-off time (`Holder.channel`). Only one of them has it at any time (`Sole`), whatever calls, timers and
`Cancel` do at the same time, and so there is at most one channel that is not closed (`pending_unique`). Since the
number of restarts is counted where a call decides, the policy `on-failure` with a limit keeps to it
(`restarts_le`).
-/

namespace Moby.Restartmanager

open Moby.Framework

variable {ι : Type}

/-- What has a restart in its hands. -/
inductive Holder (ι : Type)
  | call (t : ι)
  | channel (c : ℕ)

/-- The event is not `SetPolicy`. -/
def Event.keepsPolicy : Event ι → Bool
  | .setPolicy _ => false
  | _ => true

namespace System

def Holds (s : System ι) : Holder ι → Prop
  | .call t => s.point t = .approved
  | .channel c => (s.waiter c).pending = true

/-- The manager is active while somebody has the restart, and nobody else has. -/
structure Sole (s : System ι) : Prop where
  eq x y : s.Holds x → s.Holds y → x = y
  active x : s.Holds x → s.rm.active = true

/-- The restarts that the manager has counted since its start with a count: a channel for each, or the call that
is about to make it. -/
structure Counted (count : ℤ) (s : System ι) : Prop where
  next : s.next ≤ s.rm.restartCount - count
  call t : s.Holds (.call t) → s.next + 1 ≤ s.rm.restartCount - count

/-- What an event does to who has the restart, and to the counts. -/
inductive Passes (s s' : System ι) : Prop
  | keep (hactive : s'.rm.active = s.rm.active) (hnext : s'.next = s.next) (hcount : s'.rm.restartCount = s.rm.restartCount)
    (h : ∀ x, s'.Holds x → s.Holds x)
  | take (y : Holder ι) (hold : s.rm.active = false) (hactive : s'.rm.active = true) (hnext : s'.next = s.next)
    (hcount : s'.rm.restartCount = s.rm.restartCount + 1)
    (hlimit : s.rm.policy.name = .onFailure →
      s.rm.policy.maximumRetryCount = 0 ∨ s.rm.restartCount < s.rm.policy.maximumRetryCount)
    (h : ∀ x, s'.Holds x → s.Holds x ∨ x = y)
  | pass (t : ι) (c : ℕ) (ht : s.Holds (.call t)) (hactive : s'.rm.active = s.rm.active) (hnext : s'.next = s.next + 1)
    (hcount : s'.rm.restartCount = s.rm.restartCount) (h : ∀ x, s'.Holds x → s.Holds x ∧ x ≠ .call t ∨ x = .channel c)
  | release (y : Holder ι) (hy : s.Holds y) (hnext : s'.next = s.next) (hcount : s'.rm.restartCount = s.rm.restartCount)
    (h : ∀ x, s'.Holds x → s.Holds x ∧ x ≠ y)

variable {s s' : System ι}

theorem Sole.passes (hs : s.Sole) (h : Passes s s') : s'.Sole := by
  cases h with
  | keep hactive _ _ h => exact ⟨fun x y hx hy => hs.eq x y (h x hx) (h y hy), fun x hx => hactive.trans (hs.active x (h x hx))⟩
  | take y hold hactive _ _ _ h =>
    have hnone : ∀ x, ¬ s.Holds x := fun x hx => by simpa [hold] using hs.active x hx
    have hy : ∀ x, s'.Holds x → x = y := fun x hx => (h x hx).resolve_left (hnone x)
    exact ⟨fun x x' hx hx' => (hy x hx).trans (hy x' hx').symm, fun _ _ => hactive⟩
  | pass t c ht hactive _ _ h =>
    have hc : ∀ x, s'.Holds x → x = .channel c := fun x hx =>
      (h x hx).resolve_left fun hxt => hxt.2 (hs.eq x _ hxt.1 ht)
    exact ⟨fun x x' hx hx' => (hc x hx).trans (hc x' hx').symm, fun _ _ => hactive.trans (hs.active _ ht)⟩
  | release y hy _ _ h =>
    have hnone : ∀ x, ¬ s'.Holds x := fun x hx => (h x hx).2 (hs.eq x y (h x hx).1 hy)
    exact ⟨fun x _ hx => absurd hx (hnone x), fun x hx => absurd hx (hnone x)⟩

theorem Counted.passes {count : ℤ} (hs : s.Sole) (hc : Counted count s) (h : Passes s s') : Counted count s' := by
  have hnext := hc.next
  cases h with
  | keep _ hn hcount h =>
    rw [← hn, ← hcount] at hnext
    refine ⟨hnext, fun t ht => ?_⟩
    rw [hn, hcount]
    exact hc.call t (h _ ht)
  | take y _ _ hn hcount _ h =>
    refine ⟨?_, fun t ht => ?_⟩ <;> rw [hn, hcount] <;> omega
  | pass t c ht _ hn hcount h =>
    have := hc.call t ht
    refine ⟨by rw [hn, hcount]; omega, fun t' ht' => ?_⟩
    rcases h _ ht' with ⟨hold, hne⟩ | ⟨⟨⟩⟩
    exact absurd (hs.eq _ _ hold ht) hne
  | release y hy hn hcount h =>
    rw [← hn, ← hcount] at hnext
    refine ⟨hnext, fun t ht => ?_⟩
    rw [hn, hcount]
    exact hc.call t (h _ ht).1

/-- The goroutine of a channel that is not closed goes on. -/
theorem passes_setWaiter {c : ℕ} {w : Waiter} (hpending : (s.waiter c).pending = true) : Passes s (s.setWaiter c w) := by
  refine .keep rfl rfl rfl fun x hx => ?_
  cases x with
  | call t => exact hx
  | channel c' =>
    by_cases hc : c' = c
    · exact hc ▸ hpending
    · change (Function.update s.waiter c w c').pending = true at hx
      rwa [Function.update_of_ne hc] at hx

variable [DecidableEq ι]

theorem holds_of_move {t : ι} {p : Point} {x : Holder ι} (hx : (s.move t p).Holds x) :
    s.Holds x ∧ x ≠ .call t ∨ x = .call t ∧ p = .approved := by
  cases x with
  | call t' =>
    change Function.update s.point t p t' = .approved at hx
    by_cases ht : t' = t
    · subst ht
      rw [Function.update_self] at hx
      exact .inr ⟨rfl, hx⟩
    · rw [Function.update_of_ne ht] at hx
      exact .inl ⟨hx, fun he => ht (Holder.call.inj he)⟩
  | channel c => exact .inl ⟨hx, fun he => by cases he⟩

/-- A caller goes on without the restart. -/
theorem holds_of_move_ne {t : ι} {p : Point} (hp : p ≠ .approved) {x : Holder ι} (hx : (s.move t p).Holds x) : s.Holds x :=
  ((holds_of_move hx).resolve_right fun h => hp h.2).1

omit [DecidableEq ι] in
theorem shouldRestart_cases (rm : RestartManager) (x : Exit) :
    ((rm.shouldRestart x).1 ≠ .restart ∧ (rm.shouldRestart x).2.active = rm.active ∧
      (rm.shouldRestart x).2.restartCount = rm.restartCount) ∨
    ((rm.shouldRestart x).1 = .restart ∧ rm.active = false ∧ (rm.shouldRestart x).2.active = true ∧
      (rm.shouldRestart x).2.restartCount = rm.restartCount + 1 ∧
      (rm.policy.name = .onFailure → rm.policy.maximumRetryCount = 0 ∨ rm.restartCount < rm.policy.maximumRetryCount)) := by
  simp only [RestartManager.shouldRestart]
  split_ifs with hcanceled hactive hrestart
  · exact .inl ⟨by simp, rfl, rfl⟩
  · exact .inl ⟨by simp, rfl, rfl⟩
  · refine .inr ⟨rfl, by simpa using hactive, rfl, rfl, fun hname => ?_⟩
    by_contra hlimit
    rw [RestartManager.restarts, hname] at hrestart
    simp only [if_neg hlimit] at hrestart
    cases hrestart
  · exact .inl ⟨by simp, by simpa using hactive, rfl⟩

/-- A caller of `ShouldRestart` or `Cancel` goes on. -/
theorem passes_step {t : ι} (he : s.step t = some s') : Passes s s' := by
  rw [step] at he
  split at he
  · cases he
  · rename_i x ht
    cases he
    rcases shouldRestart_cases s.rm x with ⟨hno, hactive, hcount⟩ | ⟨hyes, hold, hactive, hcount, hlimit⟩
    · rw [if_neg hno]
      exact .keep hactive rfl hcount fun y hy => holds_of_move_ne (t := t) (p := .idle) (by decide) hy
    · rw [if_pos hyes]
      exact .take (.call t) hold hactive rfl hcount hlimit fun y hy => (holds_of_move hy).imp And.left And.left
  · rename_i ht
    cases he
    refine .pass t s.next ht rfl rfl rfl fun y hy => ?_
    obtain ⟨hold, hne⟩ := (holds_of_move (s := s.setWaiter s.next (.selecting false)) hy).resolve_right fun h => by cases h.2
    cases y with
    | call t' => exact .inl ⟨hold, hne⟩
    | channel c =>
      by_cases hc : c = s.next
      · exact .inr (hc ▸ rfl)
      · change (Function.update s.waiter s.next (.selecting false) c).pending = true at hold
        rw [Function.update_of_ne hc] at hold
        exact .inl ⟨hold, hne⟩
  · cases he
    exact .keep rfl rfl rfl fun y hy => holds_of_move_ne (t := t) (p := .idle) (by decide) hy
  · split_ifs at he
    · cases he
      exact .keep rfl rfl rfl fun y hy => holds_of_move_ne (by decide) hy
    · cases he
      exact .keep rfl rfl rfl fun y hy => holds_of_move_ne (t := t) (p := .inOnce) (by decide) hy
  · cases he
    exact .keep rfl rfl rfl fun y hy => holds_of_move_ne (t := t) (p := .leaving) (by decide) hy
  · cases he
    exact .keep rfl rfl rfl fun y hy => holds_of_move_ne (t := t) (p := .idle) (by decide) hy

theorem passes_exec {e : Event ι} (he : s.exec e = some s') : Passes s s' := by
  cases e with
  | shouldRestart t x =>
    simp only [exec] at he
    split_ifs at he
    · cases he
      exact .keep rfl rfl rfl fun _ => id
    · cases he
      exact .keep rfl rfl rfl fun y hy => holds_of_move_ne (p := .entering x) (by simp) hy
  | cancel t =>
    simp only [exec] at he
    split_ifs at he
    cases he
    exact .keep rfl rfl rfl fun y hy => holds_of_move_ne (p := .canceling) (by simp) hy
  | step t => exact passes_step he
  | setPolicy policy =>
    cases he
    exact .keep rfl rfl rfl fun _ => id
  | expire c =>
    simp only [exec] at he
    split_ifs at he with hw
    cases he
    exact passes_setWaiter (by rw [hw]; rfl)
  | timer c =>
    simp only [exec] at he
    split_ifs at he with hw
    cases he
    exact passes_setWaiter (by rw [hw]; rfl)
  | wake c =>
    simp only [exec] at he
    split at he
    · rename_i expired hw
      split_ifs at he
      cases he
      exact passes_setWaiter (by rw [hw]; rfl)
    · cases he
  | close c =>
    simp only [exec] at he
    split_ifs at he with hw
    cases he
    refine .release (.channel c) (by rw [Holds, hw]; rfl) rfl rfl fun y hy => ?_
    cases y with
    | call t => exact ⟨hy, fun h => by cases h⟩
    | channel c' =>
      change (Function.update s.waiter c (.closed false) c').pending = true at hy
      by_cases hc : c' = c
      · rw [hc, Function.update_self] at hy
        cases hy
      · rw [Function.update_of_ne hc] at hy
        exact ⟨hy, fun h => hc (Holder.channel.inj h)⟩
  | receive c =>
    simp only [exec] at he
    split_ifs at he with hw
    cases he
    exact passes_setWaiter (by rw [hw.1]; rfl)
  | finish c =>
    simp only [exec] at he
    split_ifs at he with hw
    cases he
    exact passes_setWaiter (by rw [hw]; rfl)

omit [DecidableEq ι] in
theorem not_holds_new (policy : RestartPolicy) (count : ℤ) (x : Holder ι) : ¬ (new policy count : System ι).Holds x := by
  cases x with
  | call t => exact fun h => by cases h
  | channel c => exact fun h => by cases h

variable {policy : RestartPolicy} {count : ℤ} {G : System ι → Event ι → Prop}

theorem sole_of_reaches (h : ReachesIf exec G (new policy count) s) : s.Sole := by
  refine h.inv ⟨fun x _ hx => ?_, fun x hx => ?_⟩ fun _ _ _ _ hs _ he => hs.passes (passes_exec he)
  · exact absurd hx (not_holds_new policy count x)
  · exact absurd hx (not_holds_new policy count x)

theorem counted_of_reaches (h : ReachesIf exec G (new policy count) s) : Counted count s := by
  refine h.inv ⟨?_, fun t ht => ?_⟩ fun _ _ _ hr hc _ he => hc.passes (sole_of_reaches hr) (passes_exec he)
  · simp [new, RestartManager.new]
  · exact absurd ht (not_holds_new policy count _)

/-- While a channel is not closed, it is the only one, no call of `ShouldRestart` is about to make another, and the
manager is active, whatever calls, timers and `Cancel` do at the same time. -/
theorem pending_unique (h : Reaches exec (new policy count) s) {c : ℕ} (hc : (s.waiter c).pending = true) :
    (∀ c', (s.waiter c').pending = true → c' = c) ∧ (∀ t, s.point t ≠ .approved) ∧ s.rm.active = true := by
  have hs := sole_of_reaches h
  refine ⟨fun c' hc' => Holder.channel.inj (hs.eq (.channel c') (.channel c) hc' hc), fun t ht => ?_, hs.active (.channel c) hc⟩
  cases hs.eq (.call t) (.channel c) ht hc

/-- A second call has failed, since the channel of the first one is not closed. -/
theorem pending_unique_two : ∃ s : System Bool, Reaches exec (new ⟨.always, 0⟩ 0) s ∧ (s.waiter 0).pending = true ∧
    s.point true = .idle ∧ s.rm.restartCount = 1 ∧ ∀ c, (s.waiter c).pending = true → c = 0 := by
  obtain ⟨s, hr, hview⟩ := ReachesIf.of_view exec (fun _ _ => True) (new ⟨.always, 0⟩ 0 : System Bool)
    [.shouldRestart false ⟨0, false, 0⟩, .shouldRestart true ⟨0, false, 0⟩, .step false, .step false, .step true]
    (fun s => ((s.waiter 0).pending, s.point true, s.rm.restartCount)) (b := (true, .idle, 1)) (by decide +kernel)
  simp only [Prod.mk.injEq] at hview
  obtain ⟨hpending, hpoint, hcount⟩ := hview
  exact ⟨s, hr, hpending, hpoint, hcount, (pending_unique hr hpending).1⟩

omit [DecidableEq ι] in
theorem policy_shouldRestart (rm : RestartManager) (x : Exit) : (rm.shouldRestart x).2.policy = rm.policy := by
  simp only [RestartManager.shouldRestart]
  split_ifs <;> rfl

theorem policy_step {t : ι} (he : s.step t = some s') : s'.rm.policy = s.rm.policy := by
  rw [step] at he
  split at he
  case h_2 x _ =>
    cases he
    exact policy_shouldRestart s.rm x
  case h_5 => split_ifs at he <;> cases he <;> rfl
  all_goals cases he <;> rfl

/-- Only `SetPolicy` changes the policy. -/
theorem policy_exec {e : Event ι} (he : s.exec e = some s') (hpolicy : e.keepsPolicy = true) : s'.rm.policy = s.rm.policy := by
  cases e with
  | step t => exact policy_step he
  | setPolicy p => cases hpolicy
  | wake c =>
    simp only [exec] at he
    split at he
    · split_ifs at he
      cases he
      rfl
    · cases he
  | shouldRestart t x =>
    simp only [exec] at he
    split_ifs at he <;> cases he <;> rfl
  | _ =>
    simp only [exec] at he
    split_ifs at he
    cases he
    rfl

/-- The policy is `on-failure` with a limit, and the count keeps to it. -/
structure Limited (m : ℤ) (s : System ι) : Prop where
  policy : s.rm.policy = ⟨.onFailure, m⟩
  count : s.rm.restartCount ≤ m

omit [DecidableEq ι] in
theorem Limited.passes {m : ℤ} (hm : m ≠ 0) (hl : Limited m s) (hpolicy : s'.rm.policy = s.rm.policy) (h : Passes s s') :
    Limited m s' := by
  refine ⟨hpolicy.trans hl.policy, ?_⟩
  have hcount := hl.count
  cases h with
  | keep _ _ hc _ => exact hc ▸ hcount
  | pass _ _ _ _ _ hc _ => exact hc ▸ hcount
  | release _ _ _ hc _ => exact hc ▸ hcount
  | take _ _ _ _ hc hlimit _ =>
    rw [hl.policy] at hlimit
    have := (hlimit rfl).resolve_left hm
    rw [hc]
    exact this

/-- As long as nobody sets another policy, `on-failure` with a limit gives no more restarts than the limit leaves
to the count at the start, whatever the exit codes are and whatever happens at the same time. -/
theorem restarts_le {m : ℤ} (hm : m ≠ 0) (hcount : count ≤ m)
    (h : ReachesIf exec (fun _ e => e.keepsPolicy = true) (new ⟨.onFailure, m⟩ count : System ι) s) : s.next ≤ m - count := by
  have hlimited : Limited m s :=
    h.inv ⟨rfl, hcount⟩ fun _ _ _ _ hl hG he => hl.passes hm (policy_exec he hG) (passes_exec he)
  have := (counted_of_reaches h).next
  have := hlimited.count
  omega

/-- The last restart that is left is given, and the next call is refused. -/
theorem restarts_le_two : ∃ s : System Bool,
    ReachesIf exec (fun _ e => e.keepsPolicy = true) (new ⟨.onFailure, 2⟩ 1 : System Bool) s ∧ s.rm.active = false ∧
      s.point true = .idle ∧ s.next = 1 ∧ (s.next : ℤ) ≤ 2 - 1 := by
  obtain ⟨s, hr, hview⟩ := ReachesIf.of_view exec (fun _ e => e.keepsPolicy = true) (new ⟨.onFailure, 2⟩ 1 : System Bool)
    [.shouldRestart false ⟨137, false, 0⟩, .step false, .step false, .step false, .expire 0, .timer 0, .close 0,
      .shouldRestart true ⟨137, false, 0⟩, .step true]
    (fun s => (s.rm.active, s.point true, s.next)) (b := (false, .idle, 1)) (by decide +kernel)
  simp only [Prod.mk.injEq] at hview
  obtain ⟨hactive, hpoint, hnext⟩ := hview
  exact ⟨s, hr, hactive, hpoint, hnext, restarts_le (by decide) (by decide) hr⟩

end System

end Moby.Restartmanager
