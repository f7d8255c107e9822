import Moby.Framework.Census
import Moby.Framework.Machine

/-!
# The mounts of an overlay2 layer (daemon/graphdriver)

`Get` increments a counter and mounts the merged directory if it is the first; `Put`
decrements the counter and unmounts the directory if it was the last. No lock is held
from the one to the other. The counter, the mount and the unmount are steps of their
own here, for any number of callers on one layer.
-/

namespace Moby.Graphdriver

open Moby.Framework

/-! ## The counter (counter.go) -/

structure Minfo where
  check : Bool
  count : ℤ
  deriving DecidableEq

namespace Minfo

/-- The entry of a path, made if there is none, when the path has been looked at. -/
def checked (m : Option Minfo) (isMounted : Bool) : Minfo :=
  let m := m.getD { check := false, count := 0 }
  if !m.check then { check := true, count := if isMounted then m.count + 1 else m.count } else m

def increment (m : Option Minfo) (isMounted : Bool) : Minfo :=
  { checked m isMounted with count := (checked m isMounted).count + 1 }

def decrement (m : Option Minfo) (isMounted : Bool) : Minfo :=
  { checked m isMounted with count := (checked m isMounted).count - 1 }

end Minfo

/-! ## Get and Put (overlay2/overlay.go) -/

namespace Overlay2

/-- Where a caller is, from a `Get` to the `Put` for it. -/
inductive Point
  | idle
  /-- `os.Stat(dir)` and reading the file of the lower layers. -/
  | looking
  /-- `d.ctr.Increment(mergedDir)`. -/
  | counting
  /-- `mountFrom`. -/
  | mounting
  /-- `os.Chown` of the work directory. -/
  | chowning
  /-- `d.ctr.Decrement(mergedDir)` in the deferred function. -/
  | undoing
  /-- `syscall.Unmount` in the deferred function. -/
  | dropping
  /-- `Get` has returned the diff directory. -/
  | diff
  /-- `Get` has returned the merged directory. -/
  | merged
  /-- `d.ctr.Decrement(mountpoint)` in `Put`. -/
  | putting
  /-- `syscall.Unmount` in `Put`. -/
  | unmounting
  deriving DecidableEq

structure System (ι : Type) where
  /-- The layer has a file of lower layers. -/
  lower : Bool
  info : Option Minfo
  mounts : ℕ
  point : ι → Point

inductive Event (ι : Type)
  | get (t : ι)
  | look (t : ι) (ok : Bool)
  | increment (t : ι)
  | mount (t : ι) (ok : Bool)
  | chown (t : ι) (ok : Bool)
  | put (t : ι)
  | decrement (t : ι)
  | unmount (t : ι) (ok : Bool)
  deriving DecidableEq

variable {ι : Type}

namespace System

/-- The driver has been started: the directory may have been left mounted. -/
def init (lower : Bool) (mounts : ℕ) : System ι :=
  { lower := lower, info := none, mounts := mounts, point := fun _ => .idle }

def isMounted (s : System ι) : Bool := decide (0 < s.mounts)

section

variable [DecidableEq ι]

def move (s : System ι) (t : ι) (p : Point) : System ι := { s with point := Function.update s.point t p }

def exec (s : System ι) : Event ι → Option (System ι)
  | .get t => if s.point t = .idle then some (s.move t .looking) else none
  | .look t ok =>
    if s.point t = .looking then some (s.move t (if !ok then .idle else if s.lower then .counting else .diff)) else none
  | .increment t =>
    let m := Minfo.increment s.info s.isMounted
    if s.point t = .counting then some { s.move t (if 1 < m.count then .merged else .mounting) with info := some m }
    else none
  | .mount t ok =>
    if s.point t = .mounting then
      if ok then some { s.move t .chowning with mounts := s.mounts + 1 } else some (s.move t .undoing)
    else none
  | .chown t ok => if s.point t = .chowning then some (s.move t (if ok then .merged else .undoing)) else none
  | .put t => if s.point t = .merged ∨ s.point t = .diff then some (s.move t .putting) else none
  | .decrement t =>
    let m := Minfo.decrement s.info s.isMounted
    if s.point t = .putting then some { s.move t (if 0 < m.count then .idle else .unmounting) with info := some m }
    else if s.point t = .undoing then some { s.move t (if m.count ≤ 0 then .dropping else .idle) with info := some m }
    else none
  | .unmount t ok =>
    if s.point t = .unmounting ∨ s.point t = .dropping then
      if ok then if 0 < s.mounts then some { s.move t .idle with mounts := s.mounts - 1 } else none
      else some (s.move t .idle)
    else none

end

/-- What `Get` has returned is mounted until `Put` is called. -/
def Ok (s : System ι) : Prop := ∀ t, s.point t = .merged → s.isMounted = true

end System

/-! ## Who relies on the mount -/

namespace Point

/-- It has incremented the counter and not decremented it. -/
def counted : Point → Bool
  | .mounting => true
  | .chowning => true
  | .undoing => true
  | .merged => true
  | .putting => true
  | _ => false

/-- It will unmount the directory. -/
def due : Point → Bool
  | .dropping => true
  | .unmounting => true
  | _ => false

/-- It has the directory mounted. -/
def relies : Point → Bool
  | .chowning => true
  | .merged => true
  | _ => false

/-- Only a layer with lower layers is mounted, and only the diff directory of one without
is returned. -/
def fits (lower : Bool) : Point → Bool
  | .counting => lower
  | .mounting => lower
  | .chowning => lower
  | .undoing => lower
  | .merged => lower
  | .diff => !lower
  | _ => true

end Point

namespace System

/-- The counter of the layer. -/
def count (s : System ι) : ℤ := (s.info.map Minfo.count).getD 0

theorem count_le_checked (s : System ι) (b : Bool) : s.count ≤ (Minfo.checked s.info b).count := by
  rw [count, Minfo.checked]
  cases s.info with
  | none => cases b <;> decide
  | some m =>
    show m.count ≤ _
    simp only [Option.getD_some]
    split_ifs
    · exact Int.le_add_one (Int.le_refl _)
    · exact Int.le_refl _
    · exact Int.le_refl _

variable [Fintype ι]

/-- How many unmounts are due. -/
def due (s : System ι) : ℕ := census Point.due s.point

/-- The counter is incremented only when there is a mount for each unmount that is due,
and one more if the counter is positive. -/
def Balanced (s : System ι) : Event ι → Prop
  | .increment _ => s.due ≤ s.mounts ∧ (0 < (Minfo.checked s.info s.isMounted).count → s.due < s.mounts)
  | _ => True

instance (s : System ι) : (e : Event ι) → Decidable (s.Balanced e)
  | .get _ => .isTrue trivial
  | .look _ _ => .isTrue trivial
  | .increment _ => inferInstanceAs (Decidable (_ ∧ _))
  | .mount _ _ => .isTrue trivial
  | .chown _ _ => .isTrue trivial
  | .put _ => .isTrue trivial
  | .decrement _ => .isTrue trivial
  | .unmount _ _ => .isTrue trivial

structure Inv (s : System ι) : Prop where
  counted : s.lower = true → (census Point.counted s.point : ℤ) ≤ s.count
  relied : ∀ t, (s.point t).relies = true → s.due < s.mounts
  mounting : ∀ t, s.point t = .mounting → s.due ≤ s.mounts
  fits : ∀ t, (s.point t).fits s.lower = true

namespace Inv

variable [DecidableEq ι] {s : System ι} (h : s.Inv) {t : ι} {p q : Point}

include h

omit [DecidableEq ι] in
theorem ok : s.Ok := fun t ht => decide_eq_true (Nat.zero_lt_of_lt (h.relied t (by rw [ht]; rfl)))

/-- A step that leaves the counter right, and as many mounts over the unmounts that are
due. -/
theorem keep (hp : s.point t = p) {m' : ℕ} {info' : Option Minfo}
    (hcount : s.lower = true → s.count + q.counted.toNat ≤ (info'.map Minfo.count).getD 0 + p.counted.toNat)
    (hdue : q.due.toNat + s.mounts ≤ p.due.toNat + m') (hrelies : q.relies = true → s.due < m')
    (hmounting : q = .mounting → s.due ≤ m') (hfits : q.fits s.lower = true) :
    Inv { s.move t q with mounts := m', info := info' } := by
  have hpoint (t' : ι) : t' = t ∧ Function.update s.point t q t' = q ∨ Function.update s.point t q t' = s.point t' := by
    by_cases ht : t' = t
    · exact .inl ⟨ht, ht ▸ Function.update_self ..⟩
    · exact .inr (Function.update_of_ne ht ..)
  have hcensus := census_update Point.due s.point t q
  have hcensus' := census_update Point.counted s.point t q
  rw [hp] at hcensus hcensus'
  have hidle : q.relies = true ∨ q = .mounting → q.due = false := by
    cases q <;> decide
  constructor
  case counted =>
    intro hlower
    have hle := h.counted hlower
    have hle' := hcount hlower
    show (census Point.counted (Function.update s.point t q) : ℤ) ≤ (info'.map Minfo.count).getD 0
    omega
  case relied =>
    intro t' ht'
    show census Point.due (Function.update s.point t q) < m'
    rcases hpoint t' with ⟨-, he⟩ | he
    · have hr : q.relies = true := he ▸ ht'
      have hlt : census Point.due s.point < m' := hrelies hr
      rw [hidle (.inl hr)] at hcensus
      simp only [Bool.toNat_false] at hcensus
      omega
    · have hlt : census Point.due s.point < s.mounts := h.relied t' (he ▸ ht')
      omega
  case mounting =>
    intro t' ht'
    show census Point.due (Function.update s.point t q) ≤ m'
    rcases hpoint t' with ⟨-, he⟩ | he
    · have hq : q = .mounting := he.symm.trans ht'
      have hle : census Point.due s.point ≤ m' := hmounting hq
      rw [hidle (.inr hq)] at hcensus
      simp only [Bool.toNat_false] at hcensus
      omega
    · have hle : census Point.due s.point ≤ s.mounts := h.mounting t' (he.symm.trans ht')
      omega
  case fits =>
    intro t'
    show (Function.update s.point t q t').fits s.lower = true
    rcases hpoint t' with ⟨-, he⟩ | he <;> rw [he]
    · exact hfits
    · exact h.fits t'

/-- The counter comes down to zero: nobody relies on the mount. -/
theorem last (hp : s.point t = p) {info' : Option Minfo} (hp' : p.counted = true) (hq : q = .unmounting ∨ q = .dropping)
    (hcount : s.count - 1 ≤ (info'.map Minfo.count).getD 0)
    (hzero : (info'.map Minfo.count).getD 0 ≤ 0) : Inv { s.move t q with info := info' } := by
  have hcensus := census_update Point.counted s.point t q
  rw [hp, hp', show q.counted = false by rcases hq with rfl | rfl <;> rfl] at hcensus
  simp only [Bool.toNat_true, Bool.toNat_false, Nat.add_zero] at hcensus
  have hpoint (t' : ι) : Function.update s.point t q t' = q ∨ Function.update s.point t q t' = s.point t' := by
    by_cases ht : t' = t
    · exact .inl (ht ▸ Function.update_self ..)
    · exact .inr (Function.update_of_ne ht ..)
  have hfits (t' : ι) : (Function.update s.point t q t').fits s.lower = true := by
    rcases hpoint t' with he | he <;> rw [he]
    · rcases hq with rfl | rfl <;> rfl
    · exact h.fits t'
  have hcounted (hlower : s.lower = true) : census Point.counted (Function.update s.point t q) = 0 := by
    have hle := h.counted hlower
    omega
  -- whoever relies on the mount, or is about to make it, has been counted
  have hnobody (t' : ι) : (Function.update s.point t q t').relies = false ∧ Function.update s.point t q t' ≠ .mounting := by
    cases hlower : s.lower with
    | true =>
      have hc := census_eq_zero.mp (hcounted hlower) t'
      revert hc
      cases Function.update s.point t q t' <;> decide
    | false =>
      have hf := hfits t'
      rw [hlower] at hf
      revert hf
      cases Function.update s.point t q t' <;> decide
  constructor
  case counted =>
    intro hlower
    have hle := h.counted hlower
    show (census Point.counted (Function.update s.point t q) : ℤ) ≤ (info'.map Minfo.count).getD 0
    omega
  case relied => exact fun t' ht' => absurd ((hnobody t').1.symm.trans ht') Bool.false_ne_true
  case mounting => exact fun t' ht' => absurd ht' (hnobody t').2
  case fits => exact hfits

theorem exec {s' : System ι} {e : Event ι} (hG : s.Balanced e) (he : s.exec e = some s') : s'.Inv := by
  have hchecked := s.count_le_checked s.isMounted
  have hlower {t : ι} {p q : Point} (hp : s.point t = p) (hpq : p.fits s.lower = q.fits s.lower) :
      q.fits s.lower = true := hpq ▸ hp ▸ h.fits t
  cases e with
  | get t =>
    obtain ⟨hp, ⟨⟩⟩ := Option.ite_none_right_eq_some.mp he
    exact h.keep hp (fun _ => Int.le_refl _) (Nat.le_refl _) (fun hx => nomatch hx) (fun hx => nomatch hx) rfl
  | look t ok =>
    obtain ⟨hp, ⟨⟩⟩ := Option.ite_none_right_eq_some.mp he
    split_ifs with hok hl
    · exact h.keep hp (fun _ => Int.le_refl _) (Nat.le_refl _) (fun hx => nomatch hx) (fun hx => nomatch hx) rfl
    · exact h.keep hp (fun _ => Int.le_refl _) (Nat.le_refl _) (fun hx => nomatch hx) (fun hx => nomatch hx) hl
    · refine h.keep hp (fun _ => Int.le_refl _) (Nat.le_refl _) (fun hx => nomatch hx) (fun hx => nomatch hx) ?_
      rw [Point.fits, Bool.not_eq_true', Bool.eq_false_of_not_eq_true hl]
  | increment t =>
    obtain ⟨hp, ⟨⟩⟩ := Option.ite_none_right_eq_some.mp he
    have hcount : s.count + 1 ≤ (Minfo.checked s.info s.isMounted).count + 1 + 0 := by omega
    split_ifs with hmany
    · refine h.keep hp (fun _ => hcount) (Nat.le_refl _) (fun _ => hG.2 ?_) (fun hx => nomatch hx) (hlower hp rfl)
      exact Int.lt_of_add_lt_add_right hmany
    · exact h.keep hp (fun _ => hcount) (Nat.le_refl _) (fun hx => nomatch hx) (fun _ => hG.1) (hlower hp rfl)
  | mount t ok =>
    obtain ⟨hp, he⟩ := Option.ite_none_right_eq_some.mp he
    split_ifs at he
    · cases he
      refine h.keep hp (fun _ => Int.le_refl _) (Nat.le_succ _) (fun _ => ?_) (fun hx => nomatch hx) (hlower hp rfl)
      exact Nat.lt_succ_of_le (h.mounting t hp)
    · cases he
      exact h.keep hp (fun _ => Int.le_refl _) (Nat.le_refl _) (fun hx => nomatch hx) (fun hx => nomatch hx)
        (hlower hp rfl)
  | chown t ok =>
    obtain ⟨hp, ⟨⟩⟩ := Option.ite_none_right_eq_some.mp he
    split_ifs
    · refine h.keep hp (fun _ => Int.le_refl _) (Nat.le_refl _) (fun _ => ?_) (fun hx => nomatch hx) (hlower hp rfl)
      exact h.relied t (by rw [hp]; rfl)
    · exact h.keep hp (fun _ => Int.le_refl _) (Nat.le_refl _) (fun hx => nomatch hx) (fun hx => nomatch hx)
        (hlower hp rfl)
  | put t =>
    obtain ⟨hp, ⟨⟩⟩ := Option.ite_none_right_eq_some.mp he
    rcases hp with hp | hp
    · exact h.keep hp (fun _ => Int.le_refl _) (Nat.le_refl _) (fun hx => nomatch hx) (fun hx => nomatch hx) rfl
    · refine h.keep hp (fun hl => ?_) (Nat.le_refl _) (fun hx => nomatch hx) (fun hx => nomatch hx) rfl
      have hf := h.fits t
      rw [hp, Point.fits, hl] at hf
      cases hf
  | decrement t =>
    have hcount : s.count - 1 ≤ (Minfo.decrement s.info s.isMounted).count := by
      show _ ≤ (Minfo.checked s.info s.isMounted).count - 1
      omega
    have hidle {p : Point} (hp : s.point t = p) (hp' : p.counted = true) (hp'' : p.due = false) :
        Inv { s.move t .idle with info := some (Minfo.decrement s.info s.isMounted) } := by
      refine h.keep hp (fun _ => ?_) (by rw [hp'']; exact Nat.le_refl _) (fun hx => nomatch hx) (fun hx => nomatch hx) rfl
      show s.count + 0 ≤ (Minfo.decrement s.info s.isMounted).count + p.counted.toNat
      rw [hp', Bool.toNat_true]
      omega
    simp only [System.exec] at he
    split_ifs at he with hp hpos hp hneg
    · cases he
      exact hidle hp rfl rfl
    · cases he
      exact h.last hp rfl (.inl rfl) hcount (Int.not_lt.mp hpos)
    · cases he
      exact h.last hp rfl (.inr rfl) hcount hneg
    · cases he
      exact hidle hp rfl rfl
  | unmount t ok =>
    obtain ⟨hp, he⟩ := Option.ite_none_right_eq_some.mp he
    have hp' : ∃ p, s.point t = p ∧ p.due = true ∧ p.counted = false := by
      rcases hp with hp | hp
      · exact ⟨_, hp, rfl, rfl⟩
      · exact ⟨_, hp, rfl, rfl⟩
    obtain ⟨p, hp, hdue, hcounted⟩ := hp'
    have hidle {m' : ℕ} (hm : s.mounts ≤ 1 + m') : Inv { s.move t .idle with mounts := m' } := by
      refine h.keep hp (fun _ => ?_) ?_ (fun hx => nomatch hx) (fun hx => nomatch hx) rfl
      · rw [hcounted]
        exact Int.le_refl _
      · rw [hdue]
        show 0 + s.mounts ≤ 1 + m'
        omega
    split_ifs at he with hok hpos
    · cases he
      exact hidle (by omega)
    · cases he
      exact hidle (Nat.le_add_left _ _)

end Inv

theorem inv_init (lower : Bool) (mounts : ℕ) : (init lower mounts : System ι).Inv := by
  have hnone (P : Point → Bool) (hP : P .idle = false) : census P (init lower mounts : System ι).point = 0 :=
    census_eq_zero.mpr fun _ => hP
  constructor
  case counted =>
    intro _
    rw [hnone _ rfl]
    exact Int.le_refl _
  case relied => exact fun t ht => nomatch ht
  case mounting => exact fun t ht => nomatch ht
  case fits => exact fun t => rfl

/-! ## The condition is needed -/

section

variable [DecidableEq ι] {s : System ι} {t : ι} {p : Point}

theorem due_move_eq (hp : s.point t = p) (q : Point) (hq : q.due = p.due) : (s.move t q).due = s.due := by
  have hcensus := census_update Point.due s.point t q
  rw [hp, hq] at hcensus
  exact Nat.add_right_cancel hcensus

/-- The unmounts that are due take away the mount of one that holds it. -/
theorem exists_unmounted (ht : s.point t = .merged) (hle : s.mounts ≤ s.due) : ∃ s', Reaches exec s s' ∧ ¬ s'.Ok := by
  induction hm : s.mounts generalizing s with
  | zero =>
    refine ⟨s, .refl, fun hok => ?_⟩
    have hpos := of_decide_eq_true (hok t ht)
    omega
  | succ m ih =>
    obtain ⟨t', ht'⟩ := census_pos.mp (show 0 < s.due by omega)
    have hne : t ≠ t' := fun he => by
      rw [← he, ht] at ht'
      cases ht'
    have hpoint : s.point t' = .unmounting ∨ s.point t' = .dropping := by
      revert ht'
      cases s.point t' <;> decide
    have hexec : s.exec (.unmount t' true) = some { s.move t' .idle with mounts := m } := by
      rw [exec, if_pos hpoint, if_pos rfl, if_pos (by omega), hm]
      rfl
    have hdue : ({ s.move t' .idle with mounts := m } : System ι).due + 1 = s.due := by
      have hcensus := census_update Point.due s.point t' .idle
      rw [ht'] at hcensus
      exact hcensus
    obtain ⟨s', hs', hbad⟩ := ih (s := { s.move t' .idle with mounts := m }) ((Function.update_of_ne hne ..).trans ht)
      (by show m ≤ _; omega) rfl
    exact ⟨s', (ReachesIf.refl.tail trivial hexec).trans hs', hbad⟩

/-- One that is about to mount the directory gets it, with one mount more. -/
theorem reaches_merged (ht : s.point t = .mounting) :
    ∃ s', Reaches exec s s' ∧ s'.point t = .merged ∧ s'.mounts = s.mounts + 1 ∧ s'.due = s.due := by
  have hmount : s.exec (.mount t true) = some { s.move t .chowning with mounts := s.mounts + 1 } := by
    rw [exec, if_pos ht, if_pos rfl]
  have hpoint : (s.move t .chowning).point t = .chowning := Function.update_self ..
  have hchown : exec { s.move t .chowning with mounts := s.mounts + 1 } (.chown t true) =
      some { (s.move t .chowning).move t .merged with mounts := s.mounts + 1 } := by
    rw [exec, if_pos hpoint, if_pos rfl]
    rfl
  refine ⟨_, (ReachesIf.refl.tail trivial hmount).tail trivial hchown, Function.update_self .., rfl, ?_⟩
  calc ((s.move t .chowning).move t .merged).due
      = (s.move t .chowning).due := due_move_eq hpoint _ rfl
    _ = s.due := due_move_eq ht _ rfl

theorem exists_unmounted_of_not_balanced {s' : System ι} {e : Event ι} (he : s.exec e = some s') (hG : ¬ s.Balanced e) :
    ∃ s'', Reaches exec s' s'' ∧ ¬ s''.Ok := by
  cases e with
  | increment t =>
    obtain ⟨hp, ⟨⟩⟩ := Option.ite_none_right_eq_some.mp he
    have hdue (q : Point) (hq : q.due = false) :
        ({ s.move t q with info := some (Minfo.increment s.info s.isMounted) } : System ι).due = s.due := due_move_eq hp q hq
    rw [Balanced, not_and] at hG
    split_ifs with hmany
    · refine exists_unmounted (t := t) (Function.update_self ..) ?_
      have hpos : 0 < (Minfo.checked s.info s.isMounted).count := Int.lt_of_add_lt_add_right hmany
      rw [hdue _ rfl]
      show s.mounts ≤ s.due
      by_contra hlt
      exact hG (by omega) fun _ => by omega
    · obtain ⟨s₁, hs₁, hp₁, hm₁, hd₁⟩ := reaches_merged
        (s := { s.move t .mounting with info := some (Minfo.increment s.info s.isMounted) }) (Function.update_self ..)
      rw [hdue _ rfl] at hd₁
      have hlt : s.mounts < s.due := by
        by_contra hle
        refine hG (by omega) fun hpos => absurd hpos fun hpos => hmany ?_
        exact Int.add_lt_add_right hpos 1
      obtain ⟨s₂, hs₂, hbad⟩ := exists_unmounted hp₁ (by rw [hm₁, hd₁]; exact hlt)
      exact ⟨s₂, hs₁.trans hs₂, hbad⟩
  | _ => exact absurd trivial hG

/-- Whether or not the directory was mounted when the driver was started: it is mounted
for everyone it has been returned to if the counter is only incremented when there are
mounts enough, and an increment when there are not can take it away from someone. -/
theorem get_mounted (lower : Bool) (mounts : ℕ) (h : ReachesIf exec Balanced (init lower mounts) s) :
    s.Ok ∧ ∀ e s', s.exec e = some s' → ¬ s.Balanced e → ∃ s'', Reaches exec s' s'' ∧ ¬ s''.Ok := by
  have hinv : s.Inv := ReachesIf.inv (inv_init lower mounts) (fun _ _ _ _ hi hG he => hi.exec hG he) h
  exact ⟨hinv.ok, fun e s' he hG => exists_unmounted_of_not_balanced he hG⟩

end

/-- One caller has the directory, a second one has come while the first was changing the
owner of the work directory, and the mount of a third has been taken away again. -/
theorem get_mounted_three : ∃ s : System (Fin 3), ReachesIf exec Balanced (init true 0) s ∧
    (s.point 0 = .merged ∧ s.point 1 = .merged ∧ s.point 2 = .idle ∧ s.mounts = 1) ∧ s.Ok := by
  obtain ⟨s, h, hs⟩ := ReachesIf.of_view exec Balanced (init true 0 : System (Fin 3))
    [.get 2, .look 2 true, .increment 2, .mount 2 true, .chown 2 false, .decrement 2, .get 0, .look 0 true, .increment 0,
      .mount 0 true, .get 1, .look 1 true, .increment 1, .unmount 2 true, .chown 0 true]
    (fun s => decide (s.point 0 = .merged ∧ s.point 1 = .merged ∧ s.point 2 = .idle ∧ s.mounts = 1)) (b := true)
    (by decide +kernel)
  exact ⟨s, h, of_decide_eq_true hs, (get_mounted true 0 h).1⟩

/-- The second caller gets a directory that the first has not mounted yet. -/
theorem get_unmounted : ∃ s : System (Fin 2), Reaches exec (init true 0) s ∧ ¬ s.Ok := by
  obtain ⟨s, h, hs⟩ := ReachesIf.of_view exec (fun _ _ => True) (init true 0 : System (Fin 2))
    [.get 0, .look 0 true, .increment 0, .get 1, .look 1 true, .increment 1]
    (fun s => decide (s.point 1 = .merged ∧ s.mounts = 0)) (b := true) (by decide +kernel)
  obtain ⟨hp, hm⟩ := of_decide_eq_true hs
  refine ⟨s, h, fun hok => ?_⟩
  have hpos := of_decide_eq_true (hok 1 hp)
  rw [hm] at hpos
  exact Nat.lt_irrefl 0 hpos

end System

end Overlay2

end Moby.Graphdriver
