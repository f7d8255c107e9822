import Moby.Xfer.Transfer

/-!
# The watchers of the transfers

A transfer is cancelled when its last watcher is released, unless the manager
has closed it by then, and its channel `released` is closed once it is closed
and has no watcher. `Tracked` is what connects the calls of the manager, its
map and the transfers in every state. From it follow what a caller that got a
transfer can rely on until it releases its watcher, and, in a run whose
threads all get their turn, that a transfer that has ended and lost its
watchers is released (`released_of_fair`).
-/

namespace Moby.Xfer

open Framework

/-- The transfer that the call watches. -/
def Call.watches : Call → Option ℕ
  | .finds _ x => some x
  | .drops _ x => some x
  | .returned x => some x
  | _ => none

/-- The call holds `tm.mu`. -/
def Call.holdsMu : Call → Bool
  | .finds .. | .drops .. | .unlocks .. => true
  | _ => false

/-- What a call that holds `tm.mu` does next. -/
def Call.next (c : ℕ) : Call → Option Event
  | .finds .. => some (.check c)
  | .drops .. => some (.drop c)
  | .unlocks .. => some (.unlock c)
  | _ => none

namespace Manager

/-- A transfer that a call has found is in the map, as long as the call holds
`tm.mu`, and one that was returned is not cancelled. -/
def CallOk (s : Manager) : Call → Prop
  | .finds key x => s.transfers.lookup key = some x
  | .drops key x => s.transfers.lookup key = some x
  | .returned x => x < s.count ∧ (s.jobs x).xfer.cancelled = false
  | _ => True

theorem CallOk.imp {s s' : Manager} {p : Call} (h : s.CallOk p)
    (hmap : p.holdsMu = true → ∀ key x, s.transfers.lookup key = some x → s'.transfers.lookup key = some x)
    (hret : ∀ x < s.count, p = .returned x → (s.jobs x).xfer.cancelled = false →
      x < s'.count ∧ (s'.jobs x).xfer.cancelled = false) : s'.CallOk p := by
  cases p with
  | finds key x => exact hmap rfl key x h
  | drops key x => exact hmap rfl key x h
  | returned x => exact hret x h.1 rfl h.2
  | _ => trivial

/-- The channel `released` of a transfer is closed when the transfer is closed
and has no watcher, and a transfer that is not closed and has no watcher is
cancelled. -/
structure XferOk (t : Transfer) : Prop where
  released : t.released.closes = if t.closed = true ∧ t.watchers = ∅ then 1 else 0
  cancelled : t.watchers = ∅ → t.closed = false → t.cancelled = true

namespace XferOk

variable {t : Transfer} {w : ℕ}

theorem watch (h : XferOk t) (hc : t.closed = false) : XferOk (t.watch w) := by
  have := h.released
  exact ⟨by simpa [hc] using this, fun hw => absurd hw (Finset.insert_ne_empty _ _)⟩

theorem release (h : XferOk t) (hw : w ∈ t.watchers) : XferOk (t.release w) := by
  have hr := h.released
  rw [if_neg fun hc => Finset.ne_empty_of_mem hw hc.2] at hr
  have hopen : ¬ t.released.IsClosed := by simp [hr]
  unfold Transfer.release
  rw [if_neg hopen]
  split_ifs with hempty hclosed
  · exact ⟨by simp [hempty, hclosed, hr, Chan.close], fun _ hc => absurd (hclosed.symm.trans hc) (by simp)⟩
  · exact ⟨by simp [hclosed, hr], fun _ _ => rfl⟩
  · exact ⟨by simp [hempty, hr], fun hc => absurd hc hempty⟩

theorem close (h : XferOk t) (hc : t.closed = false) : XferOk t.close := by
  have hr := h.released
  rw [if_neg (by simp [hc])] at hr
  unfold Transfer.close
  split_ifs with hempty
  · exact ⟨by simp [hempty, hr, Chan.close], fun _ hc => absurd hc (by simp)⟩
  · exact ⟨by simp [hempty, hr], fun hc => absurd hc hempty⟩

end XferOk

theorem release_cancelled {t : Transfer} {w : ℕ} (h : ∃ d ≠ w, d ∈ t.watchers) :
    (t.release w).cancelled = t.cancelled := by
  obtain ⟨d, hd, hm⟩ := h
  unfold Transfer.release
  rw [if_neg (Finset.ne_empty_of_mem (Finset.mem_erase.mpr ⟨hd, hm⟩))]

/-- What connects the calls, the map and the transfers. -/
structure Tracked (s : Manager) : Prop where
  watchers : ∀ x c, c ∈ (s.jobs x).xfer.watchers ↔ (s.calls c).watches = some x
  mu : ∀ c, s.mu = some c ↔ (s.calls c).holdsMu = true
  map : ∀ key x, s.transfers.lookup key = some x ↔
    x < s.count ∧ (s.jobs x).key = key ∧ (s.jobs x).phase = .waits
  calls : ∀ c, s.CallOk (s.calls c)
  closed : ∀ x < s.count, ((s.jobs x).xfer.closed = true ↔ (s.jobs x).phase = .ends)
  xfers : ∀ x < s.count, XferOk (s.jobs x).xfer

namespace Tracked

variable {s s' : Manager} {e : Event} {c x : ℕ} {p : Call}

theorem init (limit : ℤ) : (newTransferManager limit).Tracked where
  watchers x c := by simp [newTransferManager, Call.watches]
  mu c := by simp [newTransferManager, Call.holdsMu]
  map key x := by simp [newTransferManager]
  calls _ := trivial
  closed x hx := absurd hx (Nat.not_lt_zero x)
  xfers x hx := absurd hx (Nat.not_lt_zero x)

theorem lt_count (h : s.Tracked) (hc : (s.calls c).watches = some x) : x < s.count := by
  have hok := h.calls c
  cases hcall : s.calls c <;> rw [hcall] at hc hok <;> cases hc
  · exact ((h.map _ _).mp hok).1
  · exact ((h.map _ _).mp hok).1
  · exact hok.1

/-! ## The events of a call -/

/-- A call that moves on keeps `tm.mu`, or stays without it. -/
theorem mu_keep (h : s.Tracked) (hp : p.holdsMu = (s.calls c).holdsMu) (d : ℕ) :
    s.mu = some d ↔ ((s.setCall c p).calls d).holdsMu = true := by
  rw [h.mu, setCall_calls]
  split_ifs with hd
  · rw [hp, hd]
  · rfl

/-- A call gives `tm.mu` back. -/
theorem mu_free (h : s.Tracked) (hc : (s.calls c).holdsMu = true) (hp : p.holdsMu = false) (d : ℕ) :
    none = some d ↔ ((s.setCall c p).calls d).holdsMu = true := by
  have hmu := (h.mu c).mpr hc
  rw [setCall_calls]
  split_ifs with hd
  · simp [hp]
  · rw [← h.mu, hmu, Option.some.injEq]
    simpa using Ne.symm hd

/-- A call takes `tm.mu`. -/
theorem mu_take (h : s.Tracked) (hmu : s.mu = none) (hp : p.holdsMu = true) (d : ℕ) :
    some c = some d ↔ ((s.setCall c p).calls d).holdsMu = true := by
  rw [setCall_calls]
  split_ifs with hd
  · simp [hp, hd]
  · rw [← h.mu, hmu, Option.some.injEq]
    simpa using Ne.symm hd

/-- A call moves on, and keeps watching what it watched. -/
theorem call (h : s.Tracked) {mu : Option ℕ} (hw : p.watches = (s.calls c).watches) (hp : s.CallOk p)
    (hmu : ∀ d, mu = some d ↔ ((s.setCall c p).calls d).holdsMu = true) :
    Tracked { s.setCall c p with mu } where
  watchers y d := by
    rw [show ((s.setCall c p).calls d).watches = (s.calls d).watches by
      rw [setCall_calls]; split_ifs with hd <;> [rw [hw, hd]; rfl]]
    exact h.watchers y d
  mu := hmu
  map := h.map
  calls d := by
    show s.CallOk ((s.setCall c p).calls d)
    rw [setCall_calls]
    split_ifs <;> [exact hp; exact h.calls d]
  closed := h.closed
  xfers := h.xfers

/-- A call moves on, and changes the watchers of a transfer. -/
theorem watch (h : s.Tracked) {mu : Option ℕ} {f : Transfer → Transfer} (hx : x < s.count)
    (hw : ∀ d, d ∈ (f (s.jobs x).xfer).watchers ↔ ((s.setCall c p).calls d).watches = some x)
    (hw' : ∀ y ≠ x, p.watches = some y ↔ (s.calls c).watches = some y)
    (hp : (s.setXfer x f).CallOk p) (hmu : ∀ d, mu = some d ↔ ((s.setCall c p).calls d).holdsMu = true)
    (hclosed : (f (s.jobs x).xfer).closed = (s.jobs x).xfer.closed) (ht : XferOk (f (s.jobs x).xfer))
    (hkeep : (∃ d ≠ c, d ∈ (s.jobs x).xfer.watchers) → (s.jobs x).xfer.cancelled = false →
      (f (s.jobs x).xfer).cancelled = false) :
    Tracked { (s.setXfer x f).setCall c p with mu } where
  watchers y d := by
    rcases eq_or_ne y x with rfl | hy
    · simpa [setXfer] using hw d
    · have : ((s.setCall c p).calls d).watches = some y ↔ (s.calls d).watches = some y := by
        rw [setCall_calls]
        split_ifs with hd <;> [rw [hw' y hy, hd]; rfl]
      simpa [setXfer, hy] using (h.watchers y d).trans this.symm
  mu := hmu
  map key y := by
    refine (h.map key y).trans ?_
    rcases eq_or_ne y x with rfl | hy <;> simp [setXfer, *]
  calls d := by
    show (s.setXfer x f).CallOk ((s.setCall c p).calls d)
    rw [setCall_calls]
    split_ifs with hd
    · exact hp
    refine (h.calls d).imp (fun _ _ _ => id) fun y hlt hcall hcan => ⟨hlt, ?_⟩
    rcases eq_or_ne y x with rfl | hy
    · -- another call that holds this transfer is why it is not cancelled
      have hmem : d ∈ (s.jobs y).xfer.watchers := (h.watchers y d).mpr (by rw [hcall]; rfl)
      simpa [setXfer] using hkeep ⟨d, hd, hmem⟩ hcan
    · simpa [setXfer, hy] using hcan
  closed y hy := by
    rcases eq_or_ne y x with rfl | hyx
    · simpa [setXfer, hclosed] using h.closed y hy
    · simpa [setXfer, hyx] using h.closed y hy
  xfers y hy := by
    rcases eq_or_ne y x with rfl | hyx
    · simpa [setXfer] using ht
    · simpa [setXfer, hyx] using h.xfers y hy

/-- A call watches a transfer that is in the map. -/
theorem find {key : String} (h : s.Tracked) (hc : s.calls c = .locks key) (hmu : s.mu = none)
    (hx : s.transfers.lookup key = some x) :
    Tracked { (s.setXfer x (·.watch c)).setCall c (.finds key x) with mu := some c } := by
  obtain ⟨hlt, -, hphase⟩ := (h.map key x).mp hx
  have hclosed : (s.jobs x).xfer.closed = false :=
    Bool.eq_false_iff.mpr fun hcl => by rw [(h.closed x hlt).mp hcl] at hphase; cases hphase
  refine h.watch hlt (fun d => ?_) (fun y hy => ?_) hx (h.mu_take hmu rfl) rfl ((h.xfers x hlt).watch hclosed)
    fun _ => id
  · rw [Transfer.watch_watchers, Finset.mem_insert, h.watchers, setCall_calls]
    split_ifs with hd <;> simp [hd, Call.watches]
  · simpa [hc, Call.watches] using Ne.symm hy

/-- A call releases its watcher. -/
theorem release (h : s.Tracked) (hc : (s.calls c).watches = some x) (hw : p.watches = none)
    (hmu : p.holdsMu = (s.calls c).holdsMu) (hp : (s.setXfer x (·.release c)).CallOk p) :
    ((s.setXfer x (·.release c)).setCall c p).Tracked := by
  have hlt := h.lt_count hc
  have hmem : c ∈ (s.jobs x).xfer.watchers := (h.watchers x c).mpr hc
  refine h.watch hlt (fun d => ?_) (fun y hy => ?_) hp (h.mu_keep hmu) (Transfer.release_closed _ _)
    ((h.xfers x hlt).release hmem) fun hd hcan => (release_cancelled hd).trans hcan
  · rw [Transfer.release_watchers, Finset.mem_erase, h.watchers, setCall_calls]
    split_ifs with hd <;> simp [hd, hw]
  · rw [hw, hc]
    simpa using Ne.symm hy

/-! ## The events of a transfer -/

/-- Events that change nothing that is tracked. -/
theorem frame (h : s.Tracked) (hmu : s'.mu = s.mu) (hcalls : s'.calls = s.calls)
    (htransfers : s'.transfers = s.transfers) (hcount : s'.count = s.count)
    (hj : ∀ x, (s'.jobs x).key = (s.jobs x).key ∧ (s'.jobs x).phase = (s.jobs x).phase ∧
      (s'.jobs x).xfer.watchers = (s.jobs x).xfer.watchers ∧
      (s'.jobs x).xfer.cancelled = (s.jobs x).xfer.cancelled ∧
      (s'.jobs x).xfer.released = (s.jobs x).xfer.released ∧
      (s'.jobs x).xfer.closed = (s.jobs x).xfer.closed) : s'.Tracked where
  watchers x c := by rw [(hj x).2.2.1, hcalls]; exact h.watchers x c
  mu c := by rw [hmu, hcalls]; exact h.mu c
  map key x := by rw [htransfers, hcount, (hj x).1, (hj x).2.1]; exact h.map key x
  calls c := by
    rw [hcalls]
    refine (h.calls c).imp (fun _ key x => ?_) fun x hx _ hcan => ⟨hcount ▸ hx, (hj x).2.2.2.1.trans hcan⟩
    rw [htransfers]; exact id
  closed x hx := by rw [(hj x).2.1, (hj x).2.2.2.2.2]; exact h.closed x (hcount ▸ hx)
  xfers x hx := by
    obtain ⟨-, -, hw, hcan, hrel, hcl⟩ := hj x
    obtain ⟨h₁, h₂⟩ := h.xfers x (hcount ▸ hx)
    exact ⟨by rw [hrel, hcl, hw]; exact h₁, by rw [hw, hcl, hcan]; exact h₂⟩

theorem inactivate (h : s.Tracked) (x : ℕ) : (s.inactivate x).Tracked := by
  refine h.frame (by simp) (by simp) (by simp) (by simp) fun y => ?_
  obtain ⟨start, hy⟩ := s.inactivate_jobs x y
  rw [hy]
  exact ⟨rfl, rfl, rfl, rfl, rfl, rfl⟩

theorem job (h : s.Tracked) (x : ℕ) {f : Job → Job}
    (hf : ∀ j, (f j).key = j.key ∧ (f j).phase = j.phase ∧ (f j).xfer.watchers = j.xfer.watchers ∧
      (f j).xfer.cancelled = j.xfer.cancelled ∧ (f j).xfer.released = j.xfer.released ∧
      (f j).xfer.closed = j.xfer.closed) : (s.setJob x f).Tracked := by
  refine h.frame rfl rfl rfl rfl fun y => ?_
  rw [setJob_jobs]
  split_ifs with hy
  · rw [hy]; exact hf _
  · exact ⟨rfl, rfl, rfl, rfl, rfl, rfl⟩

theorem not_holdsMu (h : s.Tracked) (hmu : s.mu = none) (c : ℕ) : (s.calls c).holdsMu = false :=
  Bool.eq_false_iff.mpr fun hh => by rw [← h.mu, hmu] at hh; cases hh

/-- The goroutine of a transfer removes it from the map. -/
theorem remove (h : s.Tracked) (hmu : s.mu = none) (hx : x < s.count) (hp : (s.jobs x).phase = .waits) :
    Tracked { s.setJob x fun j => { j with phase := .closes } with
      transfers := s.transfers.erase (s.jobs x).key } := by
  have hxfer : ∀ y, ((s.setJob x fun j => { j with phase := .closes }).jobs y).xfer = (s.jobs y).xfer := by
    intro y; rw [setJob_jobs]; split_ifs with hy <;> [rw [hy]; rfl]
  have hopen : (s.jobs x).xfer.closed = false :=
    Bool.eq_false_iff.mpr fun hc => by rw [(h.closed x hx).mp hc] at hp; cases hp
  refine ⟨fun y d => ?_, h.mu, fun key y => ?_, fun c => ?_, fun y hy => ?_, fun y hy => ?_⟩
  · rw [hxfer]; exact h.watchers y d
  · show (s.transfers.erase _).lookup key = some y ↔ y < s.count ∧ _
    rw [Finmap.lookup_erase', setJob_jobs]
    by_cases hyx : y = x
    · -- `x` was under its own key only
      subst hyx
      have hm := h.map key y
      rw [if_pos rfl]
      by_cases hk : key = (s.jobs y).key
      · simp [hk]
      · simp [hk, hm, Ne.symm hk]
    · rw [if_neg hyx, ← h.map]
      by_cases hk : key = (s.jobs x).key
      · have hxm := (h.map (s.jobs x).key x).mpr ⟨hx, rfl, hp⟩
        rw [if_pos hk, hk, hxm]
        simpa using Ne.symm hyx
      · rw [if_neg hk]
  · refine (h.calls c).imp (fun hh => absurd (h.not_holdsMu hmu c) (by simp [hh])) fun y hlt _ hcan => ⟨hlt, ?_⟩
    rw [hxfer]; exact hcan
  · rw [hxfer, setJob_jobs]
    split_ifs with hyx
    · rw [hyx, hopen]; simp
    · exact h.closed y hy
  · rw [hxfer]; exact h.xfers y hy

/-- The goroutine of a transfer closes it. -/
theorem close (h : s.Tracked) (hx : x < s.count) (hp : (s.jobs x).phase = .closes) :
    (s.setJob x fun j => { j with xfer := j.xfer.close, phase := .ends }).Tracked := by
  have hopen : (s.jobs x).xfer.closed = false :=
    Bool.eq_false_iff.mpr fun hc => by rw [(h.closed x hx).mp hc] at hp; cases hp
  refine ⟨fun y d => ?_, h.mu, fun key y => ?_, fun c => ?_, fun y hy => ?_, fun y hy => ?_⟩
  · rw [setJob_calls, ← h.watchers y d, setJob_jobs]
    split_ifs with hyx <;> [rw [Transfer.close_watchers, hyx]; rfl]
  · refine (h.map key y).trans ?_
    rw [setJob_jobs]
    split_ifs with hyx
    · simp [hyx, hp]
    · rfl
  · refine (h.calls c).imp (fun _ _ _ => id) fun y hlt _ hcan => ⟨hlt, ?_⟩
    rw [setJob_jobs]
    split_ifs with hyx
    · rw [Transfer.close_cancelled, ← hyx]; exact hcan
    · exact hcan
  · rw [setJob_jobs]
    split_ifs with hyx
    · simp
    · exact h.closed y hy
  · rw [setJob_jobs]
    split_ifs with hyx
    · exact (h.xfers x hx).close hopen
    · exact h.xfers y hy

/-- A new transfer. -/
theorem begin {key : String} (h : s.Tracked) (hc : s.calls c = .locks key)
    (hx : s.transfers.lookup key = none) : (s.begin c key).Tracked := by
  have hnew : ∀ d, (s.calls d).watches ≠ some s.count := fun d hd => (h.lt_count hd).ne rfl
  refine ⟨fun y d => ?_, fun d => ?_, fun k y => ?_, fun d => ?_, fun y hy => ?_, fun y hy => ?_⟩
  · rcases eq_or_ne y s.count with rfl | hy
    · by_cases hd : d = c
      · simp [hd, Call.watches]
      · simp [hd, hnew d]
    · have hw := h.watchers y d
      by_cases hd : d = c
      · subst hd; simpa [hy, hc, Call.watches, Ne.symm hy] using hw
      · simpa [hy, hd] using hw
  · rw [begin_mu, h.mu, begin_calls]
    split_ifs with hd <;> [(rw [hd, hc]; rfl); rfl]
  · rw [begin_transfers, begin_count, begin_jobs, Finmap.lookup_insert']
    rcases eq_or_ne y s.count with rfl | hy
    · have hnot : s.transfers.lookup k ≠ some s.count := fun hk => ((h.map k _).mp hk).1.ne rfl
      by_cases hk : k = key
      · simp [hk]
      · simp [hk, hnot, Ne.symm hk]
    · rw [Function.update_of_ne hy, show y < s.count + 1 ↔ y < s.count by omega, ← h.map]
      by_cases hk : k = key
      · rw [if_pos hk, hk, hx]
        simpa using Ne.symm hy
      · rw [if_neg hk]
  · rw [begin_calls]
    split_ifs with hd
    · exact ⟨by simp, by simp⟩
    refine (h.calls d).imp (fun _ k y hy => ?_) fun y hlt _ hcan => ?_
    · rw [begin_transfers, Finmap.lookup_insert', if_neg (by rintro rfl; rw [hx] at hy; cases hy), hy]
    · rw [begin_count, begin_jobs, Function.update_of_ne hlt.ne]
      exact ⟨Nat.lt_succ_of_lt hlt, hcan⟩
  · rcases eq_or_ne y s.count with rfl | hyn
    · simp
    · rw [begin_count] at hy
      rw [begin_jobs, Function.update_of_ne hyn]
      exact h.closed y (by omega)
  · rcases eq_or_ne y s.count with rfl | hyn
    · rw [begin_jobs, Function.update_self]
      exact ⟨by simp, fun hw => absurd hw (Finset.insert_ne_empty _ _)⟩
    · rw [begin_count] at hy
      rw [begin_jobs, Function.update_of_ne hyn]
      exact h.xfers y (by omega)

theorem step (h : s.Tracked) (he : Step s e s') : s'.Tracked := by
  cases he with
  | transfer hc => exact h.call (by rw [hc]; rfl) trivial (h.mu_keep (by rw [hc]; rfl))
  | find hc hmu hx => exact h.find hc hmu hx
  | begin hc _ hx => exact h.begin hc hx
  | @cancelled c x key hc =>
    have hx : s.CallOk (.finds key x) := hc ▸ h.calls c
    exact h.call (by rw [hc]; rfl) hx (h.mu_keep (by rw [hc]; rfl))
  | @found c x key hc hcan =>
    have hx : s.CallOk (.finds key x) := hc ▸ h.calls c
    exact h.call (by rw [hc]; rfl) ⟨((h.map key x).mp hx).1, hcan⟩ (h.mu_free (by rw [hc]; rfl) rfl)
  | drop hc => exact h.release (by rw [hc]; rfl) rfl (by rw [hc]; rfl) trivial
  | unlock hc => exact h.call (by rw [hc]; rfl) trivial (h.mu_free (by rw [hc]; rfl) rfl)
  | wake hc => exact h.call (by rw [hc]; rfl) trivial (h.mu_keep (by rw [hc]; rfl))
  | release hc => exact h.release (by rw [hc]; rfl) rfl (by rw [hc]; rfl) trivial
  | setConcurrency => exact h.frame rfl rfl rfl rfl fun _ => ⟨rfl, rfl, rfl, rfl, rfl, rfl⟩
  | closeInactive | complete => exact h.job _ fun _ => ⟨rfl, rfl, rfl, rfl, rfl, rfl⟩
  | @inactive x => exact (h.inactivate x).job x fun _ => ⟨rfl, rfl, rfl, rfl, rfl, rfl⟩
  | @done x hmu hx hp =>
    unfold finish
    split_ifs
    · exact h.remove hmu hx hp
    · obtain ⟨start, hj⟩ := s.inactivate_jobs x x
      have := (h.inactivate x).remove (x := x) (by simpa using hmu) (by simpa using hx) (by rw [hj]; exact hp)
      rwa [hj] at this
  | close hx hp => exact h.close hx hp

end Tracked

theorem tracked_of_reaches {limit : ℤ} {s : Manager} (h : Reaches exec (newTransferManager limit) s) :
    s.Tracked :=
  h.inv (.init limit) fun _ _ _ _ ih _ he => ih.step (exec_step he)

/-! ## Progress -/

section

variable {s s' : Manager} {e : Event} {c x : ℕ}

/-- Nothing else happens to a call that holds `tm.mu`. -/
theorem Step.call_eq {e₀ : Event} (he : Step s e s') (hn : (s.calls c).next c = some e₀) :
    s'.calls c = s.calls c ∨ e = e₀ := by
  cases he
  case transfer d _ hd | find d _ _ hd _ _ | begin d _ hd _ _ | cancelled d _ _ hd _ | found d _ _ hd _ |
      drop d _ _ hd | unlock d _ _ hd | wake d _ _ hd _ | release d _ hd =>
    rcases eq_or_ne c d with rfl | hcd
    · rw [hd] at hn; cases hn <;> exact .inr rfl
    · exact .inl (by simp [setXfer, hcd])
  all_goals exact .inl (by simp [setXfer])

theorem release_cancelled_of_cancelled {t : Transfer} (w : ℕ) (h : t.cancelled = true) :
    (t.release w).cancelled = true := by
  unfold Transfer.release; split_ifs <;> first | exact h | rfl

/-- What an event `e` can make of the transfer `x`. -/
structure Goes (x : ℕ) (e : Event) (j j' : Job) : Prop where
  running : j.xfer.running.IsClosed → j'.xfer.running.IsClosed
  cancelled : j.xfer.cancelled = true → j'.xfer.cancelled = true
  phase : j'.phase = j.phase ∨ e = .done x ∨ e = .close x
  completes : j'.xfer.running = j.xfer.running ∨ e = .complete x
  released : j.xfer.released.IsClosed → j'.xfer.released.IsClosed

theorem Goes.refl (j : Job) : Goes x e j j := ⟨id, id, .inl rfl, .inl rfl, id⟩

theorem Goes.setJob {f : Job → Job} {y : ℕ} (h : x = y → Goes x e (s.jobs x) (f (s.jobs x))) :
    Goes x e (s.jobs x) ((s.setJob y f).jobs x) := by
  rw [setJob_jobs]
  split_ifs with hxy
  · rw [← hxy]; exact h hxy
  · exact .refl _

theorem Goes.setXfer {f : Transfer → Transfer} (hr : ∀ t, (f t).running = t.running)
    (hc : ∀ t, t.cancelled = true → (f t).cancelled = true)
    (hl : ∀ t, t.released.IsClosed → (f t).released.IsClosed) (y : ℕ) :
    Goes x e (s.jobs x) ((s.setXfer y f).jobs x) :=
  .setJob fun _ => ⟨fun h => (by rw [hr]; exact h), hc _, .inl rfl, .inl (hr _), hl _⟩

theorem Goes.of_inactivate {y : ℕ} {j : Job} (h : Goes x e ((s.inactivate y).jobs x) j) :
    Goes x e (s.jobs x) j := by
  obtain ⟨start, hj⟩ := s.inactivate_jobs y x
  rw [hj] at h
  exact ⟨h.running, h.cancelled, h.phase, h.completes, h.released⟩

theorem release_released (t : Transfer) (w : ℕ) (h : t.released.IsClosed) : (t.release w).released.IsClosed := by
  unfold Transfer.release
  rw [if_pos h]
  split_ifs <;> exact h

theorem close_released (t : Transfer) (h : t.released.IsClosed) : t.close.released.IsClosed := by
  unfold Transfer.close; split_ifs <;> [exact Nat.succ_pos _; exact h]

theorem Step.goes (he : Step s e s') (hx : x < s.count) :
    x < s'.count ∧ Goes x e (s.jobs x) (s'.jobs x) := by
  have hrelease : ∀ e y d, Goes x e (s.jobs x) ((s.setXfer y (·.release d)).jobs x) := fun _ y d =>
    .setXfer (by simp) (fun _ => release_cancelled_of_cancelled d) (fun t => release_released t d) y
  cases he with
  | transfer | cancelled | found | unlock | wake | setConcurrency => exact ⟨hx, .refl _⟩
  | begin =>
    rw [begin_jobs, begin_count, Function.update_of_ne hx.ne]
    exact ⟨by omega, .refl _⟩
  | @find d y => exact ⟨hx, Goes.setXfer (f := (·.watch d)) (fun _ => rfl) (fun _ => id) (fun _ => id) y⟩
  | drop => exact ⟨hx, hrelease _ _ _⟩
  | release => exact ⟨hx, hrelease _ _ _⟩
  | closeInactive => exact ⟨hx, .setJob fun _ => ⟨id, id, .inl rfl, .inl rfl, id⟩⟩
  | complete =>
    exact ⟨hx, .setJob fun hxy => ⟨fun _ => Nat.succ_pos _, id, .inl rfl, .inr (by rw [hxy]), id⟩⟩
  | inactive =>
    exact ⟨by simpa using hx, .of_inactivate (.setJob fun _ => ⟨id, id, .inl rfl, .inl rfl, id⟩)⟩
  | @done y =>
    obtain ⟨start, hj⟩ := s.finish_jobs y x
    refine ⟨by simpa using hx, ?_⟩
    rw [hj]
    refine ⟨id, id, ?_, .inl rfl, id⟩
    rcases eq_or_ne x y with rfl | hxy
    · exact .inr (.inl rfl)
    · exact .inl (if_neg hxy)
  | close =>
    exact ⟨hx, .setJob fun hxy =>
      ⟨by simp, by simp, .inr (.inr (by rw [hxy])), .inl (by simp), close_released _⟩⟩

end

/-- The threads that hold `tm.mu`, and the goroutines of the transfers, get
their turn. -/
structure FairThreads {limit : ℤ} (b : Behavior exec (newTransferManager limit)) : Prop where
  check : ∀ c, b.Fair (.check c)
  drop : ∀ c, b.Fair (.drop c)
  unlock : ∀ c, b.Fair (.unlock c)
  done : ∀ x, b.Fair (.done x)
  close : ∀ x, b.Fair (.close x)

section

variable {limit : ℤ} {b : Behavior exec (newTransferManager limit)}

/-- The next event of a call that holds `tm.mu` happens. -/
theorem next_happens {c : ℕ} {p : Call} {e₀ : Event} (hp : p.next c = some e₀) (hfair : b.Fair e₀)
    {Q : Manager → Prop} (hQ : ∀ s s' : Manager, s.calls c = p → s.exec e₀ = some s' → Q s')
    (hen : ∀ s : Manager, s.calls c = p → (s.exec e₀).isSome) : b.LeadsTo (fun s => s.calls c = p) Q := by
  refine hfair.leadsTo_of_enabled (fun s e s' _ hs he => ?_) (fun s s' _ hs he => hQ s s' hs he)
    fun s _ hs => hen s hs
  have hn : (s.calls c).next c = some e₀ := by rw [hs, hp]
  rcases (exec_step he).call_eq hn with h | rfl
  · exact .inl (h.trans hs)
  · exact .inr (hQ s s' hs he)

/-- `tm.mu` is given back. -/
theorem mu_freed (hfair : FairThreads b) : b.LeadsTo (fun _ => True) fun s => s.mu = none := by
  have hunlocks : ∀ c key x, b.LeadsTo (fun s => s.calls c = .unlocks key x) fun s => s.mu = none := by
    intro c key x
    refine next_happens rfl (hfair.unlock c) (fun s s' hs he => ?_) fun s hs => by simp [exec, hs]
    have he' : s.exec (.unlock c) = some s' := he
    simp only [exec, hs, Option.some.injEq] at he'
    subst he'; rfl
  have hdrops : ∀ c key x, b.LeadsTo (fun s => s.calls c = .drops key x) fun s => s.mu = none := by
    intro c key x
    refine (next_happens rfl (hfair.drop c) (fun s s' hs he => ?_) fun s hs => by simp [exec, hs]).trans
      (hunlocks c key x)
    simp only [exec, hs, Option.some.injEq] at he
    subst he; simp
  have hfinds : ∀ c key x, b.LeadsTo (fun s => s.calls c = .finds key x) fun s => s.mu = none := by
    intro c key x
    have hchecked : b.LeadsTo (fun s => s.calls c = .finds key x) fun s => s.calls c = .drops key x ∨ s.mu = none := by
      refine next_happens rfl (hfair.check c) (fun s s' hs he => ?_) fun s hs => ?_
      · simp only [exec, hs] at he
        split_ifs at he <;> cases he
        · exact .inl (by simp)
        · exact .inr rfl
      · simp only [exec, hs]; split_ifs <;> rfl
    intro n hn
    obtain ⟨m, hm, hd | hmu⟩ := hchecked n hn
    · obtain ⟨k, hk, hmu⟩ := hdrops c key x m hd
      exact ⟨k, le_trans hm hk, hmu⟩
    · exact ⟨m, hm, hmu⟩
  intro n _
  cases hmu : (b.states n).mu with
  | none => exact ⟨n, le_refl n, hmu⟩
  | some c =>
    have hc := ((tracked_of_reaches (b.reaches n)).mu c).mp hmu
    cases hcall : (b.states n).calls c <;> rw [hcall] at hc <;> cases hc
    · exact hfinds c _ _ n hcall
    · exact hdrops c _ _ n hcall
    · exact hunlocks c _ _ n hcall

/-- The goroutine of a transfer that has ended removes it from the map. -/
theorem removed_of_fair (hfair : FairThreads b) (x : ℕ) :
    b.LeadsTo
      (fun s => x < s.count ∧ (s.jobs x).xfer.running.IsClosed ∧ (s.jobs x).xfer.cancelled = true ∧
        (s.jobs x).phase = .waits)
      fun s => x < s.count ∧ (s.jobs x).xfer.cancelled = true ∧ (s.jobs x).phase = .closes := by
  have hdone : ∀ s s' : Manager, x < s.count → (s.jobs x).xfer.cancelled = true → s.exec (.done x) = some s' →
      x < s'.count ∧ (s'.jobs x).xfer.cancelled = true ∧ (s'.jobs x).phase = .closes := by
    intro s s' hx hcan he
    cases exec_step he
    obtain ⟨start, hj⟩ := s.finish_jobs x x
    rw [finish_count, hj]
    exact ⟨hx, hcan, if_pos rfl⟩
  refine (hfair.done x).leadsTo (fun s e s' _ hs he => ?_) (fun s s' _ hs he => hdone s s' hs.1 hs.2.2.1 he) ?_
  · obtain ⟨hx, hrun, hcan, hp⟩ := hs
    obtain ⟨hx', hg⟩ := (exec_step he).goes hx
    rcases hg.phase with h | rfl | rfl
    · exact .inl ⟨hx', hg.running hrun, hg.cancelled hcan, h.trans hp⟩
    · exact .inr (hdone s s' hx hcan he)
    · cases exec_step he with
      | close _ hc => rw [hp] at hc; cases hc
  · -- the goroutine has to wait for `tm.mu`
    intro n
    obtain ⟨m, hm, hmu⟩ := mu_freed hfair n trivial
    refine ⟨m, hm, fun hs => ?_⟩
    simp [exec, hmu, hs.1, hs.2.1, hs.2.2.2]

/-- Nothing watches a cancelled transfer that is not in the map. -/
theorem watchers_eq_empty {s : Manager} {x : ℕ} (h : s.Tracked) (hcan : (s.jobs x).xfer.cancelled = true)
    (hp : (s.jobs x).phase ≠ .waits) : (s.jobs x).xfer.watchers = ∅ := by
  refine Finset.eq_empty_of_forall_notMem fun c hc => ?_
  rw [h.watchers] at hc
  have hok := h.calls c
  cases hcall : s.calls c <;> rw [hcall] at hc hok <;> cases hc
  · exact hp ((h.map _ x).mp hok).2.2
  · exact hp ((h.map _ x).mp hok).2.2
  · exact absurd hcan (by simp [hok.2])

/-- The goroutine of a transfer that it removed closes it. -/
theorem closed_of_fair (hfair : FairThreads b) (x : ℕ) :
    b.LeadsTo (fun s => x < s.count ∧ (s.jobs x).xfer.cancelled = true ∧ (s.jobs x).phase = .closes)
      fun s => (s.jobs x).xfer.released.IsClosed := by
  have hclose : ∀ s s' : Manager, Reaches exec (newTransferManager limit) s →
      (s.jobs x).xfer.cancelled = true → s.exec (.close x) = some s' →
      (s'.jobs x).xfer.released.IsClosed := by
    intro s s' hr hcan he
    have ht := tracked_of_reaches hr
    cases exec_step he with
    | close hx hp =>
      have hw := watchers_eq_empty ht hcan (by rw [hp]; rintro ⟨⟩)
      simp [Transfer.close, hw, Chan.close]
  refine (hfair.close x).leadsTo_of_enabled (fun s e s' hr hs he => ?_)
    (fun s s' hr hs he => hclose s s' hr hs.2.1 he) fun s _ hs => by simp [exec, hs.1, hs.2.2]
  obtain ⟨hx, hcan, hp⟩ := hs
  obtain ⟨hx', hg⟩ := (exec_step he).goes hx
  rcases hg.phase with h | rfl | rfl
  · exact .inl ⟨hx', hg.cancelled hcan, h.trans hp⟩
  · cases exec_step he with
    | done _ _ hw => rw [hp] at hw; cases hw
  · exact .inr (hclose s s' hr hcan he)

/-- A transfer that has ended and has lost its watchers is released. -/
theorem released_of_fair (hfair : FairThreads b) {n x : ℕ} (hx : x < (b.states n).count)
    (hrun : ((b.states n).jobs x).xfer.running.IsClosed) (hw : ((b.states n).jobs x).xfer.watchers = ∅) :
    ∃ m ≥ n, ((b.states m).jobs x).xfer.released.IsClosed := by
  have ht := tracked_of_reaches (b.reaches n)
  obtain ⟨hrel, hcan⟩ := ht.xfers x hx
  cases hc : ((b.states n).jobs x).xfer.closed with
  | true => exact ⟨n, le_refl n, by simp [hrel, hc, hw]⟩
  | false =>
    have hcan := hcan hw hc
    cases hp : ((b.states n).jobs x).phase with
    | waits => exact ((removed_of_fair hfair x).trans (closed_of_fair hfair x)) n ⟨hx, hrun, hcan, hp⟩
    | closes => exact closed_of_fair hfair x n ⟨hx, hcan, hp⟩
    | ends => rw [(ht.closed x hx).mpr hp] at hc; cases hc

end

/-- In every state: a transfer that was returned with a watcher that is not
yet released is not cancelled, nor released; no channel `released` is closed
twice; and the map holds, under each key, the one transfer with that key that
its goroutine has not removed, which is the entry the goroutine deletes. In a
fair run, a transfer that has ended and has lost its watchers is released. -/
theorem transfer_lifecycle (limit : ℤ) :
    (∀ s, Reaches exec (newTransferManager limit) s →
      (∀ c x, s.calls c = .returned x → (s.jobs x).xfer.cancelled = false ∧ ¬ (s.jobs x).xfer.released.IsClosed) ∧
      (∀ x < s.count, (s.jobs x).xfer.released.closes ≤ 1) ∧
      (∀ key x, s.transfers.lookup key = some x ↔
        x < s.count ∧ (s.jobs x).key = key ∧ (s.jobs x).phase = .waits) ∧
      ∀ x s', s.exec (.done x) = some s' →
        s.transfers.lookup (s.jobs x).key = some x ∧ s'.transfers = s.transfers.erase (s.jobs x).key) ∧
    ∀ b : Behavior exec (newTransferManager limit), FairThreads b → ∀ n x, x < (b.states n).count →
      ((b.states n).jobs x).xfer.running.IsClosed → ((b.states n).jobs x).xfer.watchers = ∅ →
        ∃ m ≥ n, ((b.states m).jobs x).xfer.released.IsClosed := by
  refine ⟨fun s hr => ?_, fun b hfair n x hx hrun hw => released_of_fair hfair hx hrun hw⟩
  have ht := tracked_of_reaches hr
  refine ⟨fun c x hc => ?_, fun x hx => ?_, ht.map, fun x s' he => ?_⟩
  · have hok : s.CallOk (.returned x) := hc ▸ ht.calls c
    have hmem : c ∈ (s.jobs x).xfer.watchers := (ht.watchers x c).mpr (by rw [hc]; rfl)
    refine ⟨hok.2, ?_⟩
    rw [Chan.IsClosed, (ht.xfers x hok.1).released, if_neg fun h => Finset.ne_empty_of_mem hmem h.2]
    exact Nat.not_lt_zero 0
  · rw [(ht.xfers x hx).released]; split_ifs <;> omega
  · cases exec_step he with
    | done _ hx hp => exact ⟨(ht.map _ x).mpr ⟨hx, rfl, hp⟩, finish_transfers s x⟩

/-- A transfer that is released, ends, is removed and is closed. -/
def oneTransfer : List Event := [.transfer 0 "a", .lookup 0, .release 0, .complete 0, .done 0, .close 0]

theorem transfer_lifecycle_one :
    ∃ m ≥ 4, (((Behavior.ofList exec (newTransferManager 1) oneTransfer).states m).jobs 0).xfer.released.IsClosed := by
  refine (transfer_lifecycle 1).2 _ ⟨?_, ?_, ?_, ?_, ?_⟩ 4 0 (by decide) (by decide) (by decide)
  all_goals
    intro c
    refine Behavior.ofList_fair ?_
    cases c <;> rfl

end Manager

end Moby.Xfer
