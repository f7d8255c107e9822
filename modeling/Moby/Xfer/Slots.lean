import Moby.Framework.Pool
import Moby.Xfer.Transfer
import Mathlib.Data.Finset.Lattice.Fold
import Mathlib.Data.List.Range

/-!
# The slots of the transfer manager

The manager keeps a count of the transfers that are active and a list of
start channels. `pool` reads off the transfers themselves who holds a slot
and who waits for one, and every event that changes the pool is a move of it: a
transfer that begins arrives (`pool_begin`), and one that is inactivated leaves
(`pool_inactivate`).
-/

namespace Moby.Xfer

open Framework

/-- The transfer holds a slot: its start channel is closed, and it has not
been inactivated. -/
abbrev Job.Active (j : Job) : Prop := j.start.IsClosed ∧ ¬ j.Inactivated

namespace Manager

/-- The transfers that hold a slot and those that wait for one. -/
def pool (s : Manager) : Pool ℕ where
  limit := s.concurrencyLimit
  active := (Finset.range s.count).filter fun x => (s.jobs x).Active
  queue := (List.range s.count).filter fun x => ¬ (s.jobs x).start.IsClosed

theorem mem_active {s : Manager} {x : ℕ} : x ∈ s.pool.active ↔ x < s.count ∧ (s.jobs x).Active := by
  simp only [pool, Finset.mem_filter, Finset.mem_range]

theorem mem_queue {s : Manager} {x : ℕ} :
    x ∈ s.pool.queue ↔ x < s.count ∧ ¬ (s.jobs x).start.IsClosed := by
  simp only [pool, List.mem_filter, List.mem_range, decide_eq_true_eq]

theorem pool_sound (s : Manager) : s.pool.Sound :=
  ⟨List.nodup_range.filter _, fun _ hx ha => (mem_queue.mp hx).2 (mem_active.mp ha).2.1⟩

/-- Events that change nothing about slots. -/
theorem pool_eq {s s' : Manager} (hl : s'.concurrencyLimit = s.concurrencyLimit) (hc : s'.count = s.count)
    (hj : ∀ x, (s'.jobs x).start = (s.jobs x).start ∧ ((s'.jobs x).Active ↔ (s.jobs x).Active)) :
    s'.pool = s.pool := by
  refine Pool.ext hl (Finset.ext fun x => ?_) ?_
  · rw [mem_active, mem_active, hc, (hj x).2]
  · simp only [pool, hc, (hj _).1]

theorem filter_range_update (f : ℕ → Job) (n : ℕ) (j : Job) (p : Job → Prop) [DecidablePred p] :
    (List.range (n + 1)).filter (fun x => p (Function.update f n j x)) =
      (List.range n).filter (fun x => p (f x)) ++ if p j then [n] else [] := by
  have hold : (List.range n).filter (fun x => p (Function.update f n j x)) =
      (List.range n).filter (fun x => p (f x)) :=
    List.filter_congr fun x hx => by rw [Function.update_of_ne (List.mem_range.mp hx).ne]
  rw [List.range_succ, List.filter_append, hold, List.filter_singleton, Function.update_self]
  split_ifs <;> simp_all

/-! ## The count and the list are those of the pool -/

/-- The functions of the transfers wait for their start channel, before they
close `inactive` or complete, and `L` allows the limits that are set. -/
def Allows (L : Manager → ℤ → Prop) (s : Manager) : Event → Prop
  | .closeInactive x => (s.jobs x).start.IsClosed
  | .complete x => (s.jobs x).start.IsClosed
  | .setConcurrency n => L s n
  | _ => True

instance (L : Manager → ℤ → Prop) [∀ s n, Decidable (L s n)] (s : Manager) (e : Event) :
    Decidable (Allows L s e) :=
  match e with
  | .closeInactive x => inferInstanceAs (Decidable (s.jobs x).start.IsClosed)
  | .complete x => inferInstanceAs (Decidable (s.jobs x).start.IsClosed)
  | .setConcurrency n => inferInstanceAs (Decidable (L s n))
  | .transfer .. | .lookup _ | .check _ | .drop _ | .unlock _ | .wake _ | .release _ | .inactive _ | .done _
  | .close _ => .isTrue trivial

structure Counted (s : Manager) : Prop where
  active : s.activeTransfers = s.pool.active.card
  waiting : s.waitingTransfers = s.pool.queue
  start_le : ∀ x, (s.jobs x).start.closes ≤ 1
  started : ∀ x, (s.jobs x).inactive.IsClosed ∨ (s.jobs x).xfer.running.IsClosed ∨ (s.jobs x).Inactivated →
    (s.jobs x).start.IsClosed

namespace Counted

variable {s s' : Manager}

theorem free_iff (h : s.Counted) :
    s.pool.Free ↔ s.concurrencyLimit = 0 ∨ s.activeTransfers < s.concurrencyLimit := by
  rw [h.active]; rfl

/-- A transfer that begins arrives. -/
theorem pool_begin (h : s.Counted) (c : ℕ) (key : String) : (s.begin c key).pool = s.pool.arrive s.count := by
  have hq : (s.begin c key).pool.queue =
      s.pool.queue ++ if ¬ ((s.begin c key).jobs s.count).start.IsClosed then [s.count] else [] := by
    simp only [pool, begin_jobs, begin_count, Function.update_self]
    exact filter_range_update s.jobs s.count _ fun j => ¬ j.start.IsClosed
  have ha : ∀ x, x ∈ (s.begin c key).pool.active ↔
      x ∈ s.pool.active ∨ x = s.count ∧ ((s.begin c key).jobs s.count).Active := by
    intro x
    rw [mem_active, mem_active, begin_jobs, begin_count]
    rcases eq_or_ne x s.count with rfl | hx
    · simp
    · have hlt : x < s.count + 1 ↔ x < s.count := by omega
      simp only [Function.update_of_ne hx, hx, hlt, false_and, or_false]
  unfold Pool.arrive
  simp only [h.free_iff]
  split_ifs with hf <;> refine Pool.ext (begin_concurrencyLimit ..) (Finset.ext fun x => ?_) ?_
  · simp [ha, hf, Job.Active, Job.Inactivated, or_comm]
  · simp [hq, hf]
  · simp [ha, hf, Job.Active]
  · simp [hq, hf]

/-- A transfer that is inactivated leaves. -/
theorem pool_inactivate (h : s.Counted) {x : ℕ} (hx : x < s.count) (ha : (s.jobs x).Active) {f : Job → Job}
    (hf : ∀ j, (f j).start = j.start ∧ (f j).Inactivated) :
    ((s.inactivate x).setJob x f).pool = s.pool.leave x := by
  cases hq : s.pool.queue with
  | nil =>
    rw [Pool.leave_nil hq, inactivate_nil ha.1 (h.waiting.trans hq)]
    refine Pool.ext rfl (Finset.ext fun z => ?_) ?_
    · rw [mem_active, Finset.mem_erase, mem_active]
      rcases eq_or_ne z x with rfl | hz
      · simp [(hf _).2]
      · simp [hz]
    · simp only [pool, setJob_jobs, setJob_count]
      refine List.filter_congr fun z _ => ?_
      rcases eq_or_ne z x with rfl | hz
      · simp [hf]
      · simp [hz]
  | cons y rest =>
    have hy : y ∈ s.pool.queue := by rw [hq]; exact List.mem_cons_self
    rw [mem_queue] at hy
    have hyx : y ≠ x := by rintro rfl; exact hy.2 ha.1
    rw [Pool.leave_cons hq, inactivate_cons ha.1 (h.waiting.trans hq)]
    refine Pool.ext rfl (Finset.ext fun z => ?_) ?_
    · rw [mem_active, Finset.mem_insert, Finset.mem_erase, mem_active]
      have hj : (s.jobs y).Active ↔ False := ⟨fun h => hy.2 h.1, False.elim⟩
      have hi := fun hi => hy.2 (h.started y (.inr (.inr hi)))
      rcases eq_or_ne z x with rfl | hz
      · simp [(hf _).2, hyx.symm]
      rcases eq_or_ne z y with rfl | hzy
      · simp_all [Job.Active, Chan.close]
      · simp [hz, hzy]
    · -- the head of the queue is the one that is no longer in it
      have hn : (y :: rest).Nodup := hq ▸ s.pool_sound.nodup
      calc _ = s.pool.queue.filter (· ≠ y) := ?_
        _ = rest := ?_
      · simp only [pool, List.filter_filter, setJob_jobs, setJob_count]
        refine List.filter_congr fun z _ => ?_
        rcases eq_or_ne z x with rfl | hz
        · simp [hf, ha.1, hyx.symm]
        rcases eq_or_ne z y with rfl | hzy
        · simp [hz, Chan.close]
        · simp [hz, hzy]
      · rw [hq, List.filter_cons_of_neg (by simp), List.filter_eq_self]
        intro z hz
        simpa using fun e : z = y => (List.nodup_cons.mp hn).1 (e ▸ hz)

theorem init (concurrencyLimit : ℤ) : (newTransferManager concurrencyLimit).Counted where
  active := rfl
  waiting := rfl
  start_le _ := Nat.zero_le 1
  started x := by simp [newTransferManager, Job.Inactivated]

theorem begin (h : s.Counted) (c : ℕ) (key : String) : (s.begin c key).Counted := by
  have hp := h.pool_begin c key
  refine ⟨?_, ?_, fun x => ?_, fun x => ?_⟩
  · rw [hp, Pool.arrive, Manager.begin]
    simp only [h.free_iff]
    split_ifs
    · rw [Finset.card_insert_of_notMem (by simp [mem_active])]
      simp [h.active]
    · exact h.active
  · rw [hp, Pool.arrive, Manager.begin]
    simp only [h.free_iff]
    split_ifs
    · exact h.waiting
    · simp [h.waiting]
  · rcases eq_or_ne x s.count with rfl | hx
    · simp only [begin_jobs, Function.update_self]; split_ifs <;> simp
    · simpa [hx] using h.start_le x
  · rcases eq_or_ne x s.count with rfl | hx
    · simp [Job.Inactivated]
    · simpa [hx] using h.started x

theorem inactivate (h : s.Counted) {x : ℕ} (hx : x < s.count) (ha : (s.jobs x).Active) {f : Job → Job}
    (hf : ∀ j, (f j).start = j.start ∧ (f j).Inactivated) : ((s.inactivate x).setJob x f).Counted := by
  have hp := h.pool_inactivate hx ha hf
  have hm : x ∈ s.pool.active := mem_active.mpr ⟨hx, ha⟩
  cases hq : s.pool.queue with
  | nil =>
    rw [Pool.leave_nil hq] at hp
    have hi := inactivate_nil ha.1 (h.waiting.trans hq)
    rw [hi] at hp ⊢
    refine ⟨?_, ?_, fun z => ?_, fun z => ?_⟩
    · rw [hp]
      show s.activeTransfers - 1 = ((s.pool.active.erase x).card : ℤ)
      have := Finset.card_erase_add_one hm
      have := h.active
      omega
    · rw [hp]; exact h.waiting
    · rcases eq_or_ne z x with rfl | hz
      · simpa [hf] using h.start_le z
      · simpa [hz] using h.start_le z
    · rcases eq_or_ne z x with rfl | hz
      · simp [hf, ha.1]
      · simpa [hz] using h.started z
  | cons y rest =>
    rw [Pool.leave_cons hq] at hp
    have hi := inactivate_cons ha.1 (h.waiting.trans hq)
    have hy : y ∈ s.pool.queue := by rw [hq]; exact List.mem_cons_self
    have hyx : x ≠ y := by rintro rfl; exact (mem_queue.mp hy).2 ha.1
    rw [hi] at hp ⊢
    refine ⟨?_, ?_, fun z => ?_, fun z => ?_⟩
    · rw [hp, s.pool_sound.card_handover hq hm]; exact h.active
    · rw [hp]; rfl
    · rcases eq_or_ne z x with rfl | hz
      · simpa [hf, hyx] using h.start_le z
      rcases eq_or_ne z y with rfl | hzy
      · have := (mem_queue.mp hy).2
        simp only [Chan.IsClosed, not_lt, Nat.le_zero] at this
        simp [hz, Chan.close, this]
      · simpa [hz, hzy] using h.start_le z
    · rcases eq_or_ne z x with rfl | hz
      · simp [hf, hyx, ha.1]
      rcases eq_or_ne z y with rfl | hzy
      · simp [hz, Chan.close]
      · simpa [hz, hzy] using h.started z

variable {G : Pool ℕ → ℤ → Prop}

/-- Events that change nothing about slots. -/
theorem frame (h : s.Counted) (hl : s'.concurrencyLimit = s.concurrencyLimit) (hc : s'.count = s.count)
    (ha : s'.activeTransfers = s.activeTransfers) (hw : s'.waitingTransfers = s.waitingTransfers)
    (hj : ∀ x, (s'.jobs x).start = (s.jobs x).start ∧ ((s'.jobs x).Active ↔ (s.jobs x).Active))
    (hs : ∀ x, (s'.jobs x).inactive.IsClosed ∨ (s'.jobs x).xfer.running.IsClosed ∨ (s'.jobs x).Inactivated →
      (s.jobs x).start.IsClosed) : s'.Counted ∧ Pool.Move G s.pool s'.pool := by
  have hp := pool_eq hl hc hj
  refine ⟨⟨?_, ?_, fun x => ?_, fun x hx => ?_⟩, hp ▸ .rest _⟩
  · rw [ha, hp, h.active]
  · rw [hw, hp, h.waiting]
  · rw [(hj x).1]; exact h.start_le x
  · rw [(hj x).1]; exact hs x hx

/-- The calls, the mutex and the map say nothing about slots. -/
theorem rest (h : s.Counted) (calls : ℕ → Call) (mu : Option ℕ) (transfers : Map String ℕ) :
    Counted { s with calls, mu, transfers } := ⟨h.active, h.waiting, h.start_le, h.started⟩

/-- Events of one transfer. -/
theorem frame_job (h : s.Counted) (x : ℕ) (f : Job → Job)
    (hj : (f (s.jobs x)).start = (s.jobs x).start ∧ ((f (s.jobs x)).Inactivated ↔ (s.jobs x).Inactivated))
    (hs : (f (s.jobs x)).inactive.IsClosed ∨ (f (s.jobs x)).xfer.running.IsClosed →
      (s.jobs x).start.IsClosed) :
    (s.setJob x f).Counted ∧ Pool.Move G s.pool (s.setJob x f).pool := by
  refine h.frame rfl rfl rfl rfl (fun z => ?_) (fun z => ?_) <;> rcases eq_or_ne z x with rfl | hz
  · simp [Job.Active, hj]
  · simp [hz]
  · simp only [setJob_jobs, if_pos, hj.2]
    rintro (hi | hi | hi)
    · exact hs (.inl hi)
    · exact hs (.inr hi)
    · exact h.started z (.inr (.inr hi))
  · simpa [hz] using h.started z

/-- Every event keeps the count and the list those of the pool, and is a move
of the pool. -/
theorem step {L : Manager → ℤ → Prop} {e : Event} (h : s.Counted) (hw : Allows L s e) (he : Step s e s') :
    s'.Counted ∧ Pool.Move (fun p n => p = s.pool ∧ L s n) s.pool s'.pool := by
  have keeps : ∀ x (f : Transfer → Transfer), (∀ t, (f t).running = t.running) →
      (s.setXfer x f).Counted ∧
        Pool.Move (fun p n => p = s.pool ∧ L s n) s.pool (s.setXfer x f).pool :=
    fun x f hf => h.frame_job x _ ⟨rfl, Iff.rfl⟩ fun hi =>
      h.started x (hi.imp id fun hr => .inl (by rwa [hf] at hr))
  cases he with
  | transfer | cancelled | found | unlock | wake => exact ⟨h.rest _ _ _, .rest _⟩
  | @find c x => exact (keeps x (·.watch c) fun _ => rfl).imp (·.rest _ _ _) id
  | @drop c x => exact (keeps x (·.release c) (by simp)).imp (·.rest _ _ _) id
  | @release c x => exact (keeps x (·.release c) (by simp)).imp (·.rest _ _ _) id
  | begin => exact ⟨h.begin _ _, h.pool_begin _ _ ▸ .arrive (by simp [mem_active]) (by simp [mem_queue])⟩
  | setConcurrency => exact ⟨⟨h.active, h.waiting, h.start_le, h.started⟩, .setLimit ⟨rfl, hw⟩⟩
  | @closeInactive x hx hi => exact h.frame_job x _ ⟨rfl, Iff.rfl⟩ fun _ => hw
  | @complete x hx hi => exact h.frame_job x _ ⟨rfl, Iff.rfl⟩ fun _ => hw
  | @close x hx hp =>
    have hi : (s.jobs x).Inactivated := .inr (by rw [hp]; rintro ⟨⟩)
    exact h.frame_job x _ ⟨rfl, by simp [Job.Inactivated, hp]⟩ fun _ => h.started x (.inr (.inr hi))
  | @inactive x _ hx hp hn hi =>
    have ha : (s.jobs x).Active := ⟨h.started x (.inl hi), by simp [hp, hn]⟩
    have hf : ∀ j : Job, ({ j with inactiveNil := true } : Job).start = j.start ∧
      ({ j with inactiveNil := true } : Job).Inactivated := fun j => ⟨rfl, .inl rfl⟩
    exact ⟨h.inactivate hx ha hf, h.pool_inactivate hx ha hf ▸ .leave (mem_active.mpr ⟨hx, ha⟩)⟩
  | @done x _ hx hp hr =>
    have hf : ∀ j : Job, ({ j with phase := .closes } : Job).start = j.start ∧
      ({ j with phase := .closes } : Job).Inactivated := fun j => ⟨rfl, .inr (by rintro ⟨⟩)⟩
    unfold finish
    split_ifs with hn
    · -- it was inactivated before
      refine (h.frame_job x (fun j => { j with phase := .closes }) ⟨rfl, ?_⟩ fun _ => ?_).imp (·.rest _ _ _) id
      · simp [Job.Inactivated, hn]
      · exact h.started x (.inr (.inl hr))
    · have ha : (s.jobs x).Active := ⟨h.started x (.inr (.inl hr)), by simp [hp, hn]⟩
      refine ⟨(h.inactivate hx ha hf).rest _ _ _, ?_⟩
      exact h.pool_inactivate hx ha hf ▸ .leave (mem_active.mpr ⟨hx, ha⟩)

/-- A transfer whose start channel an event closes gets a slot by it. -/
theorem mem_active_of_starts {L : Manager → ℤ → Prop} {e : Event} {x : ℕ} (h : s.Counted)
    (hw : Allows L s e) (he : Step s e s') (hx : x < s'.count) (hopen : ¬ (s.jobs x).start.IsClosed)
    (hclosed : (s'.jobs x).start.IsClosed) :
    x ∈ s'.pool.active := by
  rcases lt_or_ge x s.count with hold | hnew
  · exact (h.step hw he).2.mem_active (mem_queue.mpr ⟨hold, hopen⟩) fun hq => (mem_queue.mp hq).2 hclosed
  · have hb : ∃ c key, s' = s.begin c key := by
      cases he
      case begin => exact ⟨_, _, rfl⟩
      all_goals
        simp [setXfer] at hx
        omega
    obtain ⟨c, key, rfl⟩ := hb
    rw [begin_count] at hx
    obtain rfl : x = s.count := by omega
    refine mem_active.mpr ⟨by simp, hclosed, ?_⟩
    simp [Job.Inactivated]

end Counted

/-! ## Runs -/

theorem counted_of_reaches {L : Manager → ℤ → Prop} {limit : ℤ} {s : Manager}
    (h : ReachesIf exec (Allows L) (newTransferManager limit) s) : s.Counted :=
  h.inv (.init limit) fun _ _ _ _ ih hg he => (ih.step hg (exec_step he)).1

/-- The count is the number of transfers that hold a slot, the list is that
of the start channels that are open, in the order the transfers came, no
start channel is closed twice, and a transfer waits only if another one holds
a slot. -/
theorem transfers_counted {limit : ℤ} {s : Manager}
    (h : ReachesIf exec (Allows fun _ n => 0 ≤ n) (newTransferManager limit) s) :
    s.activeTransfers = ((Finset.range s.count).filter fun x => (s.jobs x).Active).card ∧
      s.waitingTransfers = (List.range s.count).filter (fun x => ¬ (s.jobs x).start.IsClosed) ∧
      s.waitingTransfers.Nodup ∧ (∀ x, (s.jobs x).start.closes ≤ 1) ∧
      (0 ≤ limit → s.waitingTransfers ≠ [] → 1 ≤ s.activeTransfers) := by
  have hc := counted_of_reaches h
  refine ⟨hc.active, hc.waiting, hc.waiting ▸ s.pool_sound.nodup, hc.start_le, fun hl hw => ?_⟩
  have hb : s.pool.Busy := by
    refine h.inv (I := fun s => s.pool.Busy) ⟨hl, fun h => absurd rfl h⟩ fun s e s' hr ih hg he => ?_
    exact ih.move s.pool_sound (fun _ _ hn => hn.2) ((counted_of_reaches hr).step hg (exec_step he)).2
  have := hb.card_pos (hc.waiting ▸ hw)
  rw [hc.active]
  exact_mod_cast this

/-- Two transfers, one of which has to wait. -/
def twoTransfers : List Event := [.transfer 0 "a", .lookup 0, .transfer 1 "b", .lookup 1]

theorem transfers_counted_two : ∃ s : Manager, ReachesIf exec (Allows fun _ n => 0 ≤ n) (newTransferManager 1) s ∧
    s.waitingTransfers = [1] ∧ 1 ≤ s.activeTransfers := by
  obtain ⟨s, hr, hs⟩ := ReachesIf.of_view exec (Allows fun _ n => 0 ≤ n) (newTransferManager 1) twoTransfers
    waitingTransfers (b := [1]) (by decide +kernel)
  exact ⟨s, hr, hs, (transfers_counted hr).2.2.2.2 (by decide) (by rw [hs]; simp)⟩

/-- A limit that is set is not zero, leaves no transfer with a slot beyond it,
and leaves no slot free while a transfer waits. -/
abbrev KeepsLimit : Manager → Event → Prop := Allows fun s n => s.pool.Fits n

theorem tight_step {s s' : Manager} {e : Event} (hc : s.Counted) (ht : s.pool.Tight) (hk : s.KeepsLimit e)
    (he : s.exec e = some s') : s'.pool.Tight := by
  refine ht.move s.pool_sound ?_ (hc.step hk (exec_step he)).2
  rintro _ n ⟨rfl, hn⟩
  exact hn

/-- In the runs whose limits are set so, a transfer that is started gets one
of the slots that the limit allows, and a transfer waits only if there is
none. -/
theorem limit_kept {limit : ℤ} (hl : limit ≠ 0) {s : Manager}
    (h : ReachesIf exec KeepsLimit (newTransferManager limit) s) :
    (s.waitingTransfers ≠ [] → s.concurrencyLimit ≤ s.pool.active.card) ∧
      ∀ e s', s.KeepsLimit e → s.exec e = some s' → ∀ x < s'.count, ¬ (s.jobs x).start.IsClosed →
        (s'.jobs x).start.IsClosed → x ∈ s'.pool.active ∧ (s'.pool.active.card : ℤ) ≤ s'.concurrencyLimit := by
  have hc := counted_of_reaches h
  have ht : s.pool.Tight := by
    refine h.inv (I := fun s => s.pool.Tight) ⟨hl, .inr rfl, fun h => absurd rfl h⟩ fun s e s' hr ih hg he => ?_
    exact tight_step (counted_of_reaches hr) ih hg he
  refine ⟨fun hw => ht.le_card (hc.waiting ▸ hw), fun e s' hg he x hx hopen hclosed => ?_⟩
  have hm := hc.mem_active_of_starts hg (exec_step he) hx hopen hclosed
  exact ⟨hm, (tight_step hc ht hg he).card_le_of_mem hm⟩

theorem limit_kept_two : ∃ s : Manager, ReachesIf exec KeepsLimit (newTransferManager 1) s ∧
    s.waitingTransfers = [1] ∧ s.concurrencyLimit ≤ s.pool.active.card := by
  obtain ⟨s, hr, hs⟩ := ReachesIf.of_view exec KeepsLimit (newTransferManager 1) twoTransfers
    waitingTransfers (b := [1]) (by decide +kernel)
  exact ⟨s, hr, hs, (limit_kept (by decide) hr).1 (by rw [hs]; simp)⟩

/-- Raising the limit starts no transfer that waits; and after the limit has
been lowered, a transfer that ends still hands its slot over. -/
theorem limit_not_kept :
    (∃ s, ReachesIf exec (Allows fun _ n => n ≠ 0) (newTransferManager 1) s ∧
      s.waitingTransfers ≠ [] ∧ (s.pool.active.card : ℤ) < s.concurrencyLimit) ∧
    ∃ s s' x, ReachesIf exec (Allows fun _ n => n ≠ 0) (newTransferManager 2) s ∧ s.exec (.done 0) = some s' ∧
      x < s'.count ∧ ¬ (s.jobs x).start.IsClosed ∧ (s'.jobs x).start.IsClosed ∧
        s'.concurrencyLimit < s'.pool.active.card := by
  constructor
  · obtain ⟨s, hr, hs⟩ := ReachesIf.of_view exec (Allows fun _ n => n ≠ 0) (newTransferManager 1)
      (twoTransfers ++ [.setConcurrency 2])
      (fun s => decide (s.waitingTransfers ≠ [] ∧ (s.pool.active.card : ℤ) < s.concurrencyLimit))
      (b := true) (by decide +kernel)
    exact ⟨s, hr, of_decide_eq_true hs⟩
  · obtain ⟨s, hr, hs⟩ := ReachesIf.of_view exec (Allows fun _ n => n ≠ 0) (newTransferManager 2)
      (twoTransfers ++ [.transfer 2 "c", .lookup 2, .setConcurrency 1, .complete 0])
      (fun s => (decide (¬ (s.jobs 2).start.IsClosed), (s.exec (.done 0)).map fun s' : Manager => decide
        (2 < s'.count ∧ (s'.jobs 2).start.IsClosed ∧ s'.concurrencyLimit < s'.pool.active.card)))
      (b := (true, some true)) (by decide +kernel)
    simp only [Prod.mk.injEq, Option.map_eq_some_iff, decide_eq_true_eq] at hs
    obtain ⟨hopen, s', he, hx, hclosed, hlt⟩ := hs
    exact ⟨s, s', 2, hr, he, hx, hopen, hclosed, hlt⟩

end Manager

end Moby.Xfer
