import Moby.Xfer.Progress

/-!
# The delivery of progress

What a watcher writes is a subsequence of what the broadcaster received, and
ends with the last item that was received before the watcher was released, or
a later one (`progress_delivered`).
-/

namespace Moby.Xfer.Bus

open Framework

variable {P : Type}

/-! ## The broadcaster -/

/-- How many items are the given one, or older. -/
def seen : Option (Item P) → ℕ
  | none => 0
  | some i => i.seq + 1

/-- How many of the items that were received are the last one, or older. -/
def stored (s : Bus P) : ℕ := seen s.lastProgress

structure BroadcasterOk (s : Bus P) : Prop where
  last : ∀ i, s.lastProgress = some i → s.received[i.seq]? = some i.p
  got : ∀ i, s.broadcaster = .got i →
    i.seq = s.stored ∧ s.received.length = s.stored + 1 ∧ s.received[i.seq]? = some i.p
  caught_up : (∀ i, s.broadcaster ≠ .got i) → s.received.length = s.stored
  closed : s.broadcastDone = true ∨ s.broadcaster = .gotNone → s.masterClosed = true
  returned : s.running = false → s.broadcaster = .returned

/-- What a watcher sees of the broadcaster, from `s` to `s'`. -/
structure Grows (s s' : Bus P) : Prop where
  received : s.received <+: s'.received
  stored : s.stored ≤ s'.stored
  running : s.running = false → s'.running = false ∧ s'.received = s.received

namespace BroadcasterOk

variable {s s' : Bus P}

theorem init : BroadcasterOk ({} : Bus P) where
  last := by rintro _ ⟨⟩
  got := by rintro _ ⟨⟩
  caught_up _ := rfl
  closed := by rintro (h | h) <;> cases h
  returned := by rintro ⟨⟩

theorem length_eq_of_returned (h : s.BroadcasterOk) (hr : s.running = false) :
    s.received.length = s.stored :=
  h.caught_up fun i hi => by rw [h.returned hr] at hi; cases hi

/-- The broadcaster moves on without an item. -/
theorem goto (h : s.BroadcasterOk) {b : Broadcaster P} {d r : Bool} (hold : ∀ i, s.broadcaster ≠ .got i)
    (hb : ∀ i, b ≠ .got i) (hc : d = true ∨ b = .gotNone → s.masterClosed = true)
    (hr : r = false → b = .returned) (hmono : s.running = false → r = false) :
    BroadcasterOk { s with broadcaster := b, broadcastDone := d, running := r } ∧
      Grows s { s with broadcaster := b, broadcastDone := d, running := r } :=
  ⟨⟨h.last, fun i hi => absurd hi (hb i), fun _ => h.caught_up hold, hc, hr⟩,
    ⟨List.prefix_refl _, le_refl _, fun h => ⟨hmono h, rfl⟩⟩⟩

theorem step (h : s.BroadcasterOk) (hs : BroadcastStep s s') : s'.BroadcasterOk ∧ Grows s s' := by
  have hrunning : ∀ {b}, s.broadcaster = b → b ≠ .returned → s.running = true := by
    intro b hb hne
    by_contra hr
    exact hne (hb ▸ h.returned (by simpa using hr))
  cases hs with
  | @send p hb hm =>
    have hlen : s.received.length = s.stored :=
      h.caught_up fun i hi => by rw [hi] at hb; rcases hb with h | h <;> cases h
    have hrun : s.running = true := by rcases hb with hb | hb <;> exact hrunning hb (by rintro ⟨⟩)
    refine ⟨⟨fun i hi => ?_, ?_, fun hn => absurd rfl (hn _), fun hd => ?_, fun hr => ?_⟩,
      ⟨List.prefix_append _ _, le_refl _, fun hr => ?_⟩⟩
    · have hlt := (List.getElem?_eq_some_iff.mp (h.last i hi)).1
      rw [List.getElem?_append_left hlt]
      exact h.last i hi
    · rintro _ ⟨⟩
      exact ⟨hlen, by rw [List.length_append, hlen]; rfl, by simp⟩
    · exact h.closed (.inl (hd.resolve_right (by rintro ⟨⟩)))
    · rw [hrun] at hr; cases hr
    · rw [hrun] at hr; cases hr
  | closeMaster =>
    exact ⟨⟨h.last, h.got, h.caught_up, fun _ => rfl, h.returned⟩,
      ⟨List.prefix_refl _, le_refl _, fun hr => ⟨hr, rfl⟩⟩⟩
  | deplete hb =>
    have hrun := hrunning hb (by rintro ⟨⟩)
    refine h.goto (fun i hi => ?_) (by rintro _ ⟨⟩) (fun hd => ?_) (by simp [hrun]) id
    · rw [hb] at hi; cases hi
    · exact h.closed (.inl (hd.resolve_right (by rintro ⟨⟩)))
  | receiveNone hb hm =>
    have hrun : s.running = true := by rcases hb with hb | hb <;> exact hrunning hb (by rintro ⟨⟩)
    refine h.goto (fun i hi => ?_) (by rintro _ ⟨⟩) (fun _ => hm) (by simp [hrun]) id
    rw [hi] at hb; rcases hb with h | h <;> cases h
  | storeNone hb =>
    have hrun := hrunning hb (by rintro ⟨⟩)
    refine h.goto (fun i hi => ?_) (by rintro _ ⟨⟩) (fun _ => h.closed (.inr hb)) (by simp [hrun]) id
    rw [hb] at hi; cases hi
  | closeRunning hb =>
    refine h.goto (fun i hi => ?_) (by rintro _ ⟨⟩) (fun hd => ?_) (fun _ => rfl) fun _ => rfl
    · rw [hb] at hi; cases hi
    · exact h.closed (.inl (hd.resolve_right (by rintro ⟨⟩)))

/-- The broadcaster stores the item it received. -/
theorem store (h : s.BroadcasterOk) {i : Item P} (hb : s.broadcaster = .got i) (ws : ℕ → Watcher P) :
    BroadcasterOk { s with lastProgress := some i, broadcaster := .receives, watchers := ws } ∧
      Grows s { s with lastProgress := some i, broadcaster := .receives, watchers := ws } ∧
      i.seq = s.stored := by
  obtain ⟨hseq, hlen, hi⟩ := h.got i hb
  have hrun : s.running = true := by
    by_contra hr
    have := h.returned (by simpa using hr)
    rw [hb] at this; cases this
  refine ⟨⟨?_, by rintro _ ⟨⟩, fun _ => ?_, fun hd => ?_, fun hr => ?_⟩,
    ⟨List.prefix_refl _, ?_, fun hr => ⟨hr, rfl⟩⟩, hseq⟩
  · rintro _ ⟨⟩; exact hi
  · show s.received.length = i.seq + 1
    omega
  · exact h.closed (.inl (hd.resolve_right (by rintro ⟨⟩)))
  · exact absurd (hrun.symm.trans hr) (by simp)
  · show s.stored ≤ i.seq + 1
    omega

end BroadcasterOk

/-! ## A watcher -/

/-- How many items had been received when the watcher was released: so many
have to be delivered. -/
def due (s : Bus P) (v : Watcher P) : ℕ :=
  match v.release with
  | .notCalled => s.received.length
  | .called n | .detached n | .waits n | .returned n => n

/-- What the goroutine of a watcher has read: it is not older than what it has
written, and newer unless it is about to return. -/
structure ReadOk (s : Bus P) (v : Watcher P) (last : Option (Item P)) : Prop where
  item : ∀ i, last = some i → s.received[i.seq]? = some i.p ∧ i.seq < s.stored
  newer : ∀ i, last = some i → ∀ j ∈ v.output, j.seq ≤ i.seq ∧ (v.done = false → j.seq < i.seq)
  empty : last = none → v.output = []
  due_le : v.done = true → s.due v ≤ seen last

/-- What has to be delivered has been: the last item of the output is one of
those that were received at the end of what was due, or later. -/
def Delivered (s : Bus P) (v : Watcher P) : Prop :=
  s.due v = 0 ∨ ∃ i n, v.output.getLast? = some i ∧ s.due v ≤ n + 1 ∧ s.received[n]? = some i.p

/-- What holds at each point of the goroutine of a watcher. -/
def PointOk (s : Bus P) (v : Watcher P) : Watching P → Prop
  | .reads => (v.done = true → s.due v ≤ s.stored) ∧ (v.done = false → ∀ i ∈ v.output, i.seq + 1 < s.stored)
  | .writes last => s.ReadOk v last
  | .selects => v.done = false
  | .syncs => v.done = true ∧ v.release ≠ .notCalled
  | .returned => v.early = true → v.done = true ∧ s.Delivered v

structure OutputOk (s : Bus P) (v : Watcher P) : Prop where
  items : ∀ i ∈ v.output, s.received[i.seq]? = some i.p ∧ i.seq < s.stored
  sorted : v.output.Pairwise fun i j => i.seq < j.seq
  last : v.lastWritten = v.output.getLast?
  due_le : s.due v ≤ s.received.length
  quits : v.done = true → v.release = .notCalled → s.running = false

/-- The goroutine has returned. -/
def Stopped (v : Watcher P) : Prop := v.running = false ∨ ∃ n, v.release = .returned n

structure WatcherOk (s : Bus P) (v : Watcher P) : Prop extends OutputOk s v where
  stopped : Stopped v → v.goroutine = .returned
  point : s.PointOk v v.goroutine

namespace OutputOk

variable {s : Bus P} {v : Watcher P}

/-- The output does not depend on the point of the goroutine. -/
theorem goroutine (h : s.OutputOk v) {g : Watching P} {r : Bool} :
    s.OutputOk { v with goroutine := g, running := r } :=
  ⟨h.items, h.sorted, h.last, h.due_le, h.quits⟩

theorem loop (h : s.OutputOk v) (hs : ¬ Stopped v) (hd : v.done = true → s.Delivered v) :
    s.WatcherOk v.loop := by
  unfold Watcher.loop
  split_ifs with hdone
  · exact ⟨h.goroutine, fun _ => rfl, fun _ => ⟨hdone, hd hdone⟩⟩
  · exact ⟨h.goroutine, fun h => absurd h hs, Bool.eq_false_iff.mpr hdone⟩

/-- An item that is newer than all that were written. -/
theorem append (h : s.OutputOk v) {i : Item P} (hi : s.received[i.seq]? = some i.p ∧ i.seq < s.stored)
    (hnew : ∀ j ∈ v.output, j.seq < i.seq) :
    s.OutputOk { v with output := v.output ++ [i], lastWritten := some i } where
  items j hj := by
    rcases List.mem_append.mp hj with hj | hj
    · exact h.items j hj
    · rw [List.mem_singleton.mp hj]; exact hi
  sorted := List.pairwise_append.mpr ⟨h.sorted, List.pairwise_singleton _ _, fun j hj k hk => by
    rw [List.mem_singleton.mp hk]; exact hnew j hj⟩
  last := by simp
  due_le := h.due_le
  quits := h.quits

variable [DecidableEq P]

/-- The goroutine writes what it has read. -/
theorem write (h : s.OutputOk v) {last : Option (Item P)} (hp : s.ReadOk v last) :
    s.OutputOk (v.write last) ∧ ((v.write last).done = true → s.Delivered (v.write last)) := by
  cases last with
  | none => exact ⟨h, fun hd => .inl (Nat.le_zero.mp (hp.due_le hd))⟩
  | some i =>
    have hi := hp.item i rfl
    unfold Watcher.write
    simp only
    split_ifs with hw
    · refine ⟨h.append hi fun j hj => ?_, fun hd => .inr ⟨i, i.seq, by simp, hp.due_le hd, hi.1⟩⟩
      obtain ⟨hle, hlt⟩ := hp.newer i rfl j hj
      refine hw.elim hlt fun hne => lt_of_le_of_ne hle fun he => hne ?_
      -- if `i` had been written, it would be the last of the output
      obtain ⟨ys, k, hk⟩ := (List.eq_nil_or_concat v.output).resolve_left (List.ne_nil_of_mem hj)
      rw [List.concat_eq_append] at hk
      have hkm : k ∈ v.output := by rw [hk]; simp
      have hkj : ¬ j.seq < k.seq := by
        have := (hp.newer i rfl k hkm).1
        omega
      have hjk : j = k := by
        have hs := h.sorted
        rw [hk, List.pairwise_append] at hs
        rw [hk, List.mem_append, List.mem_singleton] at hj
        exact hj.resolve_left fun hj => hkj (hs.2.2 j hj k (List.mem_singleton_self k))
      rw [h.last, hk, List.getLast?_append_cons, List.getLast?_singleton, Option.map_some, ← hjk, ← hi.1, ← he]
      exact (h.items j hj).1.symm
    · simp only [not_or, not_not] at hw
      obtain ⟨k, hk, hkp⟩ := Option.map_eq_some_iff.mp hw.2
      refine ⟨h, fun hd => .inr ⟨k, i.seq, h.last ▸ hk, hp.due_le hd, hkp ▸ hi.1⟩⟩

end OutputOk

namespace WatcherOk

variable {s s' : Bus P} {v v' : Watcher P}

/-- A new watcher. -/
theorem new (hv : v.output = []) (hl : v.lastWritten = none) (hd : v.done = false) (hr : v.release = .notCalled)
    (hp : v.goroutine = .reads ∧ v.running = true ∨ v.goroutine = .returned ∧ v.early = false) :
    s.WatcherOk v where
  items := by simp [hv]
  sorted := by simp [hv]
  last := by simp [hv, hl]
  due_le := by simp [due, hr]
  quits := by simp [hd]
  stopped hs := by
    rcases hp with ⟨_, hrun⟩ | ⟨hg, _⟩
    · simp [Stopped, hrun, hr] at hs
    · exact hg
  point := by
    rcases hp with ⟨hg, _⟩ | ⟨hg, he⟩ <;> rw [hg]
    · exact ⟨by simp [hd], by simp [hv]⟩
    · intro h; rw [he] at h; cases h

theorem not_stopped (h : s.WatcherOk v) (hg : v.goroutine ≠ .returned) : ¬ Stopped v :=
  fun hs => hg (h.stopped hs)

theorem grows (h : s.WatcherOk v) (hg : s.Grows s') : s'.WatcherOk v := by
  have hrec : ∀ (n : ℕ) p, s.received[n]? = some p → s'.received[n]? = some p := by
    intro n p hn
    obtain ⟨l, hl⟩ := hg.received
    rw [← hl, List.getElem?_append_left (List.getElem?_eq_some_iff.mp hn).1, hn]
  -- once the goroutine is about to return, nothing more becomes due
  have hdue : v.done = true → s'.due v = s.due v := by
    intro hd
    cases hr : v.release <;> simp only [due, hr]
    rw [(hg.running (h.quits hd hr)).2]
  refine ⟨⟨fun i hi => ?_, h.sorted, h.last, ?_, fun hd hr => (hg.running (h.quits hd hr)).1⟩, h.stopped, ?_⟩
  · exact ⟨hrec _ _ (h.items i hi).1, lt_of_lt_of_le (h.items i hi).2 hg.stored⟩
  · have := h.due_le
    have := hg.received.length_le
    cases hr : v.release <;> simp only [due, hr] at * <;> omega
  · have hp := h.point
    cases hgo : v.goroutine <;> rw [hgo] at hp
    case reads =>
      refine ⟨fun hd => ?_, fun hd i hi => lt_of_lt_of_le (hp.2 hd i hi) hg.stored⟩
      rw [hdue hd]; exact le_trans (hp.1 hd) hg.stored
    case writes last =>
      refine ⟨fun i hi => ?_, hp.newer, hp.empty, fun hd => ?_⟩
      · exact ⟨hrec _ _ (hp.item i hi).1, lt_of_lt_of_le (hp.item i hi).2 hg.stored⟩
      · rw [hdue hd]; exact hp.due_le hd
    case selects => exact hp
    case syncs => exact hp
    case returned =>
      intro he
      obtain ⟨hd, hdel⟩ := hp he
      refine ⟨hd, ?_⟩
      unfold Delivered
      rw [hdue hd]
      refine hdel.imp id ?_
      rintro ⟨i, n, hi, hn, hr⟩
      exact ⟨i, n, hi, hn, hrec n _ hr⟩

/-- A watcher that is signalled reads a new item next. -/
theorem signal (h : s.WatcherOk v) (hv : v.goroutine = .selects) (hs : s.stored < s'.stored)
    (hg : s.Grows s') : s'.WatcherOk { v with goroutine := .reads } := by
  have hd : v.done = false := by have := h.point; rwa [hv] at this
  have h' := h.grows hg
  refine ⟨h'.toOutputOk.goroutine, fun hst => ?_, by simp [hd], fun _ i hi => ?_⟩
  · exact absurd hst (h.not_stopped (by rw [hv]; rintro ⟨⟩))
  have := (h.items i hi).2
  omega

/-- The call of `Release`. -/
theorem releases (h : s.WatcherOk v) {r : Releasing} {a : Bool}
    (hr : s.due { v with release := r } = s.due v) (hn : r ≠ .notCalled)
    (hret : ∀ n, r = .returned n → v.running = false) : s.WatcherOk { v with attached := a, release := r } := by
  have hdue : s.due { v with attached := a, release := r } = s.due v := hr
  refine ⟨⟨h.items, h.sorted, h.last, hdue ▸ h.due_le, fun _ h => absurd h hn⟩,
    fun hs => h.stopped (.inl (hs.elim id fun hn => hn.elim hret)), ?_⟩
  have hp := h.point
  cases hgo : v.goroutine <;> rw [hgo] at hp
  case reads => exact ⟨hdue ▸ hp.1, hp.2⟩
  case writes last => exact ⟨hp.item, hp.newer, hp.empty, hdue ▸ hp.due_le⟩
  case selects => exact hp
  case syncs => exact ⟨hp.1, hn⟩
  case returned =>
    intro he
    refine ⟨(hp he).1, ?_⟩
    unfold Delivered
    rw [hgo] at hdue
    rw [hdue]
    exact (hp he).2

/-- The goroutine looks at the last progress. -/
theorem reads (hb : s.BroadcasterOk) (h : s.WatcherOk v) (hg : v.goroutine = .reads) :
    s.WatcherOk { v with goroutine := .writes s.lastProgress } := by
  have hp := h.point
  rw [hg] at hp
  refine ⟨h.toOutputOk.goroutine, fun hst => ?_, fun i hi => ?_, fun i hi j hj => ?_, fun hn => ?_, hp.1⟩
  · exact absurd hst (h.not_stopped (by rw [hg]; rintro ⟨⟩))
  · exact ⟨hb.last i hi, by simp [stored, hi, seen]⟩
  · have hst : s.stored = i.seq + 1 := by simp [stored, hi, seen]
    have := (h.items j hj).2
    exact ⟨by omega, fun hd => by have := hp.2 hd j hj; omega⟩
  · have hst : s.stored = 0 := by simp [stored, hn, seen]
    refine List.eq_nil_iff_forall_not_mem.mpr fun j hj => ?_
    have := (h.items j hj).2
    omega

/-- The goroutine is about to return, and the broadcaster has caught up. -/
theorem quit (h : s.WatcherOk v) (hg : v.goroutine ≠ .returned) (hr : v.release = .notCalled → s.running = false)
    (hs : s.received.length = s.stored) : s.WatcherOk { v with done := true, goroutine := .reads } :=
  ⟨⟨h.items, h.sorted, h.last, h.due_le, fun _ => hr⟩, fun hst => absurd hst (h.not_stopped hg),
    fun _ => hs ▸ h.due_le, by rintro ⟨⟩⟩

variable [DecidableEq P]

theorem stopped_write {last : Option (Item P)} : Stopped (v.write last) ↔ Stopped v := by
  cases last with
  | none => rfl
  | some i => simp only [Watcher.write]; split_ifs <;> rfl

theorem step (hb : s.BroadcasterOk) (h : s.WatcherOk v) (hs : WatcherStep s v v') : s.WatcherOk v' := by
  have hp := h.point
  have hlive := h.not_stopped
  cases hs with
  | read hg => exact h.reads hb hg
  | write hg =>
    rw [hg] at hp hlive
    exact (h.write hp).1.loop (fun hst => hlive (by rintro ⟨⟩) (stopped_write.mp hst)) (h.write hp).2
  | onRelease hg hr =>
    have hn : v.release ≠ .notCalled := by rw [hr]; rintro ⟨⟩
    exact ⟨⟨h.items, h.sorted, h.last, h.due_le, fun _ h => absurd h hn⟩,
      fun hst => absurd hst (hlive (by rw [hg]; rintro ⟨⟩)), rfl, hn⟩
  | onRunning hg hr => exact h.quit (by rw [hg]; rintro ⟨⟩) (fun _ => hr) (hb.length_eq_of_returned hr)
  | syncs hg hs =>
    rw [hg] at hp
    have hq := h.quit (by rw [hg]; rintro ⟨⟩) (fun hn => absurd hn hp.2) (hs.elim
      (fun hi => hb.caught_up fun i h => by rw [hi] at h; cases h) hb.length_eq_of_returned)
    rwa [← hp.1] at hq
  | release hr => exact h.releases (by simp [due, hr]) (by rintro ⟨⟩) (by rintro _ ⟨⟩)
  | detach hr => exact h.releases (by simp [due, hr]) (by rintro ⟨⟩) (by rintro _ ⟨⟩)
  | closeRelease hr => exact h.releases (by simp [due, hr]) (by rintro ⟨⟩) (by rintro _ ⟨⟩)
  | returns hr hw => exact h.releases (by simp [due, hr]) (by rintro ⟨⟩) fun _ _ => hw

end WatcherOk

/-! ## Runs -/

structure Delivers (s : Bus P) : Prop where
  broadcaster : s.BroadcasterOk
  watchers : ∀ w, s.WatcherOk (s.watchers w)

namespace Delivers

variable {s s' : Bus P}

theorem init : Delivers ({} : Bus P) :=
  ⟨.init, fun _ => .new rfl rfl rfl rfl (.inl ⟨rfl, rfl⟩)⟩

theorem broadcastStep_watchers (h : BroadcastStep s s') : s'.watchers = s.watchers := by
  cases h <;> rfl

/-- A step of one watcher, or a new one. -/
theorem set (h : s.Delivers) {w : ℕ} {v : Watcher P} (hv : s.WatcherOk v) {n : ℕ} :
    Delivers { s with watchers := Function.update s.watchers w v, count := n } := by
  have hg : s.Grows { s with watchers := Function.update s.watchers w v, count := n } :=
    ⟨List.prefix_refl _, le_refl _, fun hr => ⟨hr, rfl⟩⟩
  obtain ⟨hb, hw⟩ := h
  refine ⟨⟨hb.last, hb.got, hb.caught_up, hb.closed, hb.returned⟩, fun u => ?_⟩
  rcases eq_or_ne u w with rfl | hu
  · simpa using hv.grows hg
  · simpa [hu] using (hw u).grows hg

variable [DecidableEq P]

theorem step (h : s.Delivers) (hs : Step s s') : s'.Delivers := by
  cases hs with
  | broadcast hs =>
    obtain ⟨hb, hg⟩ := h.broadcaster.step hs
    exact ⟨hb, fun w => by rw [broadcastStep_watchers hs]; exact (h.watchers w).grows hg⟩
  | @store i ws hb hw =>
    obtain ⟨hok, hg, hseq⟩ := h.broadcaster.store hb (s.signal ws).watchers
    refine ⟨hok, fun w => ?_⟩
    simp only [signal]
    split_ifs with hm
    · exact (h.watchers w).signal (hw w hm) (hseq ▸ Nat.lt_succ_self _) hg
    · exact (h.watchers w).grows hg
  | watch =>
    refine h.set (.new ?_ ?_ ?_ ?_ ?_) <;> split_ifs with hd <;> try rfl
    · exact .inr ⟨rfl, by simp [h.broadcaster.closed (.inl hd)]⟩
    · exact .inl ⟨rfl, rfl⟩
  | watcher hv => exact h.set ((h.watchers _).step h.broadcaster hv)
  | @sync w hg hb =>
    have h' := h.set (w := w) (n := s.count) ((h.watchers w).step h.broadcaster (.syncs hg (.inl hb)))
    have hrun : s.running = true := by
      by_contra hr
      rw [h.broadcaster.returned (by simpa using hr)] at hb
      cases hb
    obtain ⟨hok, hgr⟩ := h'.broadcaster.goto (b := .receives) (d := s.broadcastDone) (r := s.running)
      (fun i hi => by rw [show s.broadcaster = _ from hi] at hb; cases hb) (by rintro _ ⟨⟩)
      (fun hd => h.broadcaster.closed (.inl (hd.resolve_right (by rintro ⟨⟩)))) (by simp [hrun]) id
    exact ⟨hok, fun u => (h'.watchers u).grows hgr⟩

end Delivers

variable [DecidableEq P]

theorem delivers_of_reaches {s : Bus P} (h : Reaches exec {} s) : s.Delivers :=
  h.inv .init fun _ _ _ _ ih _ he => ih.step (exec_step he)

omit [DecidableEq P] in
/-- Items in the order of their numbers, at the places these numbers say. -/
theorem sublist_of_sorted {xs : List P} {n : ℕ} {l : List (Item P)} (hs : l.Pairwise fun i j => i.seq < j.seq)
    (hl : ∀ i ∈ l, n ≤ i.seq ∧ xs[i.seq - n]? = some i.p) : (l.map Item.p).Sublist xs := by
  induction xs generalizing n l with
  | nil =>
    cases l with
    | nil => exact List.Sublist.refl _
    | cons i l => simpa using (hl i List.mem_cons_self).2
  | cons x xs ih =>
    cases l with
    | nil => exact List.nil_sublist _
    | cons i l =>
      obtain ⟨hi, hs⟩ := List.pairwise_cons.mp hs
      have hlater : ∀ j : Item P, n < j.seq → (x :: xs)[j.seq - n]? = some j.p →
          n + 1 ≤ j.seq ∧ xs[j.seq - (n + 1)]? = some j.p := by
        intro j hj hx
        rw [show j.seq - n = (j.seq - (n + 1)) + 1 by omega, List.getElem?_cons_succ] at hx
        exact ⟨hj, hx⟩
      obtain ⟨hn, hx⟩ := hl i List.mem_cons_self
      rcases hn.eq_or_lt with he | hlt
      · obtain rfl : x = i.p := by simpa [he] using hx
        refine List.Sublist.cons_cons _ (ih hs fun j hj => hlater j ?_ (hl j (List.mem_cons_of_mem _ hj)).2)
        rw [he]; exact hi j hj
      · refine (ih (List.pairwise_cons.mpr ⟨hi, hs⟩) fun j hj => hlater j ?_ (hl j hj).2).cons _
        rcases List.mem_cons.mp hj with rfl | hj
        · exact hlt
        · exact hlt.trans (hi j hj)

/-- What a watcher writes are items that were received, in the order they came
and each at most once. When the call that releases a watcher returns, and the
watcher was attached before the master channel was closed, the last item that
it wrote is the last one that had been received when the call was made, or a
later one. -/
theorem progress_delivered {s : Bus P} (h : Reaches exec {} s) (w : ℕ) :
    ((s.watchers w).output.Pairwise fun i j => i.seq < j.seq) ∧
      (∀ i ∈ (s.watchers w).output, s.received[i.seq]? = some i.p) ∧
      ((s.watchers w).output.map Item.p).Sublist s.received ∧
      ∀ n, (s.watchers w).release = .returned n → (s.watchers w).early = true → 0 < n →
        ∃ i m, (s.watchers w).output.getLast? = some i ∧ n ≤ m + 1 ∧ s.received[m]? = some i.p := by
  have hw := (delivers_of_reaches h).watchers w
  have hitems := fun i hi => (hw.items i hi).1
  refine ⟨hw.sorted, hitems, sublist_of_sorted hw.sorted fun i hi => ⟨Nat.zero_le _, hitems i hi⟩, ?_⟩
  intro n hr he hn
  have hp := hw.point
  rw [hw.stopped (.inr ⟨n, hr⟩)] at hp
  have hdue : s.due (s.watchers w) = n := by simp only [due, hr]
  have hdel := (hp he).2
  unfold Delivered at hdel
  rw [hdue] at hdel
  exact hdel.resolve_left hn.ne'

/-- A watcher that is released after one item has come, for which it got no
signal. -/
def oneItem : List (Act ℕ) :=
  [.watch, .read 0, .write 0, .send 7, .release 0, .store ∅, .detach 0, .closeRelease 0, .onRelease 0, .deplete,
    .sync 0, .read 0, .write 0, .releaseReturns 0]

theorem progress_delivered_one : ∃ s : Bus ℕ, Reaches exec {} s ∧ s.received = [7] ∧
    (s.watchers 0).release = .returned 1 ∧
    ∃ i m, (s.watchers 0).output.getLast? = some i ∧ 1 ≤ m + 1 ∧ s.received[m]? = some i.p := by
  obtain ⟨s, hr, hs⟩ := ReachesIf.of_view exec (fun _ _ => True) ({} : Bus ℕ) oneItem
    (fun s => (s.received, (s.watchers 0).release, (s.watchers 0).early)) (b := ([7], .returned 1, true))
    (by decide +kernel)
  simp only [Prod.mk.injEq] at hs
  exact ⟨s, hr, hs.1, hs.2.1, (progress_delivered hr 0).2.2.2 1 hs.2.1 hs.2.2 Nat.one_pos⟩

end Moby.Xfer.Bus
