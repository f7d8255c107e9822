import Moby.Layer.Store

/-!
# What holds a layer

`RefInv`: the reference count of every layer of the map is the number of its
references, of the layers and mounts on it, and of those that have it in
hand, given as a multiset; all that they hold is in the map. Each operation
on the counters and the maps passes a layer from one kind of holder to
another.
-/

namespace Moby.Layer

open Moby.Framework Moby.Digest

namespace LayerStore

/-- `l` is in the layer map. -/
def Live (s : LayerStore) (l : RoLayer) : Prop := s.layerMap.lookup l.chainID = some l

/-- The number of layers in the map whose parent is `l`. -/
def children (s : LayerStore) (l : RoLayer) : Nat :=
  s.layerMap.values.countP fun c => c.parent = some l

/-- The number of mounts whose parent is `l`. -/
def mountsOn (s : LayerStore) (l : RoLayer) : Nat :=
  s.mounts.values.countP fun m => m.parent = some l

end LayerStore

/-- The reference counts are those of the holders, where the layers `H` are
in hand. -/
structure RefInv (s : LayerStore) (H : Multiset RoLayer) : Prop where
  key : ∀ k l, s.layerMap.lookup k = some l → l.chainID = k
  ptr_lt : ∀ l, s.Live l → l.ptr < s.nextPtr
  ptr_inj : ∀ l l', s.Live l → s.Live l' → l.ptr = l'.ptr → l = l'
  parent : ∀ l p, s.Live l → l.parent = some p → s.Live p
  mount : ∀ n m p, s.mounts.lookup n = some m → m.parent = some p → s.Live p
  held : ∀ l ∈ H, s.Live l
  count : ∀ l, s.Live l →
    s.referenceCount l = (s.references l).card + s.children l + s.mountsOn l + H.count l
  refs : ∀ l, s.Live l → ∀ r ∈ s.references l, r < s.nextRef
  noPanic : s.panicked = none

namespace RefInv

variable {s : LayerStore} {H : Multiset RoLayer} {l : RoLayer}

theorem empty : RefInv {} 0 where
  key _ _ h := by cases h
  ptr_lt _ h := by cases h
  ptr_inj _ _ h := by cases h
  parent _ _ h := by cases h
  mount _ _ _ h := by cases h
  held _ h := absurd h (Multiset.notMem_zero _)
  count _ h := by cases h
  refs _ h := by cases h
  noPanic := rfl

theorem live_of_lookup (h : RefInv s H) {k : ChainID} (hl : s.layerMap.lookup k = some l) :
    s.Live l := by
  rw [LayerStore.Live, h.key k l hl]; exact hl

/-! ## Counters -/

/-- A change of the counter of `l`, and of what is in hand of `l`, that keeps
its sum. -/
theorem modify (h : RefInv s H) (hl : s.Live l) {f : Counter → Counter} {n : Nat}
    {H' : Multiset RoLayer} (hn : s.nextRef ≤ n) (hH : ∀ l', l' ≠ l → H'.count l' = H.count l')
    (hr : ∀ r ∈ (f (s.counters l.ptr)).references, r < n)
    (hc : (f (s.counters l.ptr)).referenceCount =
      (f (s.counters l.ptr)).references.card + s.children l + s.mountsOn l + H'.count l) :
    RefInv { s.modify l f with nextRef := n } H' := by
  have self : { s.modify l f with nextRef := n }.counters l.ptr = f (s.counters l.ptr) := by
    simp [LayerStore.modify]
  have other {l'} (h' : s.Live l') (hne : l' ≠ l) :
      { s.modify l f with nextRef := n }.counters l'.ptr = s.counters l'.ptr := by
    simp only [LayerStore.modify]
    exact Function.update_of_ne (fun e => hne (h.ptr_inj _ _ h' hl e)) _ _
  refine ⟨h.key, h.ptr_lt, h.ptr_inj, h.parent, h.mount, fun l' h' => ?_, fun l' h' => ?_,
    fun l' h' r hr' => ?_, h.noPanic⟩
  · by_cases e : l' = l
    · rw [e]; exact hl
    · have := Multiset.count_pos.mpr h'
      rw [hH l' e] at this
      exact h.held l' (Multiset.count_pos.mp this)
  · by_cases e : l' = l
    · subst e
      rw [LayerStore.referenceCount, LayerStore.references, self]
      exact hc
    · rw [LayerStore.referenceCount, LayerStore.references, other h' e, hH l' e]
      exact h.count l' h'
  · by_cases e : l' = l
    · subst e
      rw [LayerStore.references, self] at hr'
      exact hr r hr'
    · rw [LayerStore.references, other h' e] at hr'
      exact Nat.lt_of_lt_of_le (h.refs l' h' r hr') hn

/-- A layer of the map is taken into the hand. -/
theorem retain (h : RefInv s H) (hl : s.Live l) : RefInv (s.retain l) (l ::ₘ H) := by
  refine h.modify (f := fun c => { c with referenceCount := c.referenceCount + 1 }) hl (Nat.le_refl _)
    (fun l' hne => Multiset.count_cons_of_ne hne _) (h.refs l hl) ?_
  have := h.count l hl
  simp only [LayerStore.referenceCount, LayerStore.references] at this
  simp only [this, Multiset.count_cons_self]
  omega

/-- A layer in hand is let go. -/
theorem unretain (h : RefInv s (l ::ₘ H)) : RefInv (s.unretain l) H := by
  have hl := h.held l (Multiset.mem_cons_self ..)
  refine h.modify (f := fun c => { c with referenceCount := c.referenceCount - 1 }) hl (Nat.le_refl _)
    (fun l' hne => (Multiset.count_cons_of_ne hne _).symm) (h.refs l hl) ?_
  have := h.count l hl
  simp only [LayerStore.referenceCount, LayerStore.references, Multiset.count_cons_self] at this
  simp only [this]
  omega

/-- A layer in hand becomes a reference. -/
theorem getReference (h : RefInv s (l ::ₘ H)) : RefInv (s.getReference l).2 H := by
  have hl := h.held l (Multiset.mem_cons_self ..)
  have hnew : s.nextRef ∉ s.references l := fun hr => Nat.lt_irrefl _ (h.refs l hl _ hr)
  refine h.modify hl (Nat.le_succ _) (fun l' hne => (Multiset.count_cons_of_ne hne _).symm)
    (fun r hr => ?_) ?_
  · rcases Finset.mem_insert.mp hr with rfl | hr
    · exact Nat.lt_succ_self _
    · exact Nat.lt_succ_of_lt (h.refs l hl r hr)
  · have := h.count l hl
    simp only [LayerStore.referenceCount, LayerStore.references, Multiset.count_cons_self] at this hnew
    simp only [this, Finset.card_insert_of_notMem hnew]
    omega

/-- A reference is taken back into the hand. -/
theorem deleteReference (h : RefInv s H) (hl : s.Live l) {r : Nat} (hr : r ∈ s.references l) :
    RefInv (s.deleteReference l r) (l ::ₘ H) := by
  refine h.modify (f := fun c => { c with references := c.references.erase r }) hl (Nat.le_refl _)
    (fun l' hne => Multiset.count_cons_of_ne hne _)
    (fun r' hr' => h.refs l hl r' (Finset.mem_of_mem_erase hr')) ?_
  have := h.count l hl
  have hpos := Finset.card_pos.mpr ⟨r, hr⟩
  simp only [LayerStore.referenceCount, LayerStore.references] at this hr hpos
  simp only [this, Multiset.count_cons_self, Finset.card_erase_of_mem hr]
  omega

/-! ## The layer map -/

/-- A new layer, on a parent in hand if it has one, is in hand with a count
of one. -/
theorem addLayer {i : LayerInfo} {p : Option RoLayer} (h : RefInv s (holds p + H))
    (hi : s.layerMap.lookup i.chainID = none) :
    RefInv (s.addLayer i p).2 ((s.addLayer i p).1 ::ₘ H) := by
  set n := RoLayer.make s.nextPtr i p with hn
  have hmap : (s.addLayer i p).2.layerMap = s.layerMap.insert i.chainID n := rfl
  have hval : (s.addLayer i p).2.layerMap.values = n ::ₘ s.layerMap.values :=
    Finmap.values_insert (Finmap.lookup_eq_none.mp hi)
  have hnew : (s.addLayer i p).1 = n := rfl
  have hid : n.chainID = i.chainID := by simp [hn, RoLayer.chainID]
  -- the layers of the new map: the old ones, and the new one
  have live {l'} : (s.addLayer i p).2.Live l' ↔ s.Live l' ∨ l' = n := by
    simp only [LayerStore.Live, hmap, Finmap.lookup_insert']
    split
    · rename_i e
      rw [e, hi]
      simp [eq_comm]
    · rename_i e
      exact ⟨.inl, fun o => o.resolve_right fun e' => e (by rw [e', hid])⟩
  have old {l'} (h' : s.Live l') : l' ≠ n := fun e => by
    rw [e, LayerStore.Live, hid, hi] at h'
    cases h'
  have ptr_lt {l'} (h' : s.Live l') : l'.ptr < s.nextPtr := h.ptr_lt l' h'
  have hptr : n.ptr = s.nextPtr := by simp [hn]
  have held {l'} (h' : l' ∈ H) : s.Live l' := h.held l' (Multiset.mem_add.mpr (.inr h'))
  have counter {l'} (h' : s.Live l') :
      (s.addLayer i p).2.counters l'.ptr = s.counters l'.ptr :=
    Function.update_of_ne (Nat.ne_of_lt (ptr_lt h')) _ _
  have self : (s.addLayer i p).2.counters n.ptr = ⟨1, ∅⟩ := by
    rw [hptr]; exact Function.update_self ..
  refine ⟨fun k l' h' => ?_, fun l' h' => ?_, fun l₁ l₂ h₁ h₂ e => ?_, fun l' q h' hq => ?_,
    fun nm m q h' hq => live.mpr (.inl (h.mount nm m q h' hq)), fun l' h' => ?_, fun l' h' => ?_,
    fun l' h' r hr => ?_, h.noPanic⟩
  · rw [hmap, Finmap.lookup_insert'] at h'
    split at h'
    · rename_i e; rw [← Option.some.inj h', e, hid]
    · exact h.key k l' h'
  · rcases live.mp h' with h' | rfl
    · exact Nat.lt_succ_of_lt (ptr_lt h')
    · rw [hptr]; exact Nat.lt_succ_self _
  · rcases live.mp h₁ with h₁ | rfl <;> rcases live.mp h₂ with h₂ | rfl
    · exact h.ptr_inj _ _ h₁ h₂ e
    · exact absurd (e.trans hptr) (Nat.ne_of_lt (ptr_lt h₁))
    · exact absurd (e.symm.trans hptr) (Nat.ne_of_lt (ptr_lt h₂))
    · rfl
  · rcases live.mp h' with h' | rfl
    · exact live.mpr (.inl (h.parent l' q h' hq))
    · rw [hn, RoLayer.parent_make] at hq
      refine live.mpr (.inl (h.held q (Multiset.mem_add.mpr (.inl ?_))))
      rw [hq]; exact Multiset.mem_singleton_self q
  · rw [hnew] at h'
    rcases Multiset.mem_cons.mp h' with rfl | h'
    · exact live.mpr (.inr rfl)
    · exact live.mpr (.inl (held h'))
  · have hch : (s.addLayer i p).2.children l' = s.children l' + (holds p).count l' := by
      simp only [LayerStore.children, hval, Multiset.countP_cons, count_holds, hn,
        RoLayer.parent_make]
    have hmt : (s.addLayer i p).2.mountsOn l' = s.mountsOn l' := rfl
    rw [hch, hmt, hnew]
    rcases live.mp h' with h' | rfl
    · have := h.count l' h'
      simp only [LayerStore.referenceCount, LayerStore.references, counter h', Multiset.count_add,
        Multiset.count_cons_of_ne (old h')] at this ⊢
      omega
    · -- nothing holds the new layer yet but the hand
      have dead : ¬ s.Live n := fun h' => old h' rfl
      have hc : s.children n = 0 := Multiset.countP_eq_zero.mpr fun c hc hp => by
        obtain ⟨k, hk⟩ := Finmap.mem_values.mp hc
        exact dead (h.parent c n (h.live_of_lookup hk) (by simpa using hp))
      have hm : s.mountsOn n = 0 := Multiset.countP_eq_zero.mpr fun m hm hp => by
        obtain ⟨k, hk⟩ := Finmap.mem_values.mp hm
        exact dead (h.mount k m n hk (by simpa using hp))
      have hh : (holds p + H).count n = 0 :=
        Multiset.count_eq_zero.mpr fun hn' => dead (h.held n hn')
      rw [Multiset.count_add] at hh
      simp only [LayerStore.referenceCount, LayerStore.references, self, hc, hm,
        Multiset.count_cons_self, Finset.card_empty]
      omega
  · rcases live.mp h' with h' | rfl
    · rw [LayerStore.references, counter h'] at hr
      exact h.refs l' h' r hr
    · rw [LayerStore.references, self] at hr
      exact absurd hr (Finset.notMem_empty r)

/-- A layer of the map that nothing holds. -/
theorem holders_eq_zero (h : RefInv s H) (hl : s.Live l) (hc : s.referenceCount l = 0) :
    s.references l = ∅ ∧ s.children l = 0 ∧ s.mountsOn l = 0 ∧ H.count l = 0 := by
  have := h.count l hl
  refine ⟨Finset.card_eq_zero.mp ?_, ?_, ?_, ?_⟩ <;> omega

/-- A layer of the map that nothing holds is removed, and its parent is in
hand. -/
theorem removeLayer (h : RefInv s H) (hl : s.Live l) (hc : s.referenceCount l = 0) :
    RefInv (s.removeLayer l) (holds l.parent + H) := by
  obtain ⟨-, hch, hmt, hH⟩ := h.holders_eq_zero hl hc
  have hmap : (s.removeLayer l).layerMap = s.layerMap.erase l.chainID := rfl
  have hval : s.layerMap.values = l ::ₘ (s.removeLayer l).layerMap.values :=
    Finmap.values_of_lookup hl
  have live {l'} : (s.removeLayer l).Live l' ↔ s.Live l' ∧ l' ≠ l := by
    simp only [LayerStore.Live, hmap, Finmap.lookup_erase']
    split
    · rename_i e
      refine ⟨nofun, fun ⟨h', hne⟩ => absurd ?_ hne⟩
      have hl' : s.layerMap.lookup l.chainID = some l := hl
      rw [e, hl'] at h'
      exact (Option.some.inj h').symm
    · rename_i e
      exact ⟨fun h' => ⟨h', fun e' => e (by rw [e'])⟩, fun h' => h'.1⟩
  have child {c q} (h' : s.Live c) (hq : c.parent = some q) (hne : c ≠ l) : q ≠ l := by
    rintro rfl
    have hmem : c ∈ s.layerMap.values := Finmap.mem_values.mpr ⟨_, h'⟩
    exact Multiset.countP_eq_zero.mp hch c hmem (by simpa using hq)
  refine ⟨fun k l' h' => ?_, fun l' h' => h.ptr_lt l' (live.mp h').1,
    fun l₁ l₂ h₁ h₂ e => h.ptr_inj _ _ (live.mp h₁).1 (live.mp h₂).1 e, fun l' q h' hq => ?_,
    fun n m q h' hq => ?_, fun l' h' => ?_, fun l' h' => ?_,
    fun l' h' r hr => h.refs l' (live.mp h').1 r hr, h.noPanic⟩
  · rw [hmap, Finmap.lookup_erase'] at h'
    split at h'
    · cases h'
    · exact h.key k l' h'
  · obtain ⟨h', hne⟩ := live.mp h'
    exact live.mpr ⟨h.parent l' q h' hq, child h' hq hne⟩
  · refine live.mpr ⟨h.mount n m q h' hq, ?_⟩
    rintro rfl
    have hmem : m ∈ s.mounts.values := Finmap.mem_values.mpr ⟨n, h'⟩
    exact Multiset.countP_eq_zero.mp hmt m hmem (by simpa using hq)
  · rcases Multiset.mem_add.mp h' with h' | h'
    · cases hp : l.parent with
      | none => rw [hp] at h'; exact absurd h' (Multiset.notMem_zero l')
      | some q =>
        rw [hp] at h'
        obtain rfl := Multiset.mem_singleton.mp h'
        exact live.mpr ⟨h.parent l _ hl hp, RoLayer.ne_of_parent hp⟩
    · exact live.mpr ⟨h.held l' h', fun e => Multiset.count_eq_zero.mp hH (e ▸ h')⟩
  · obtain ⟨h', hne⟩ := live.mp h'
    have hsum : s.children l' = (s.removeLayer l).children l' + (holds l.parent).count l' := by
      simp only [LayerStore.children, hval, Multiset.countP_cons, count_holds]
    have := h.count l' h'
    rw [hsum] at this
    rw [Multiset.count_add]
    show s.referenceCount l' = (s.references l').card + _ + s.mountsOn l' + _
    omega

/-! ## The mounts -/

section

variable {m : MountedLayer}

/-- The mounts are those of `ms`, and what is in hand makes up for the
difference. -/
theorem setMounts {ms : Map String MountedLayer} {H' : Multiset RoLayer} (h : RefInv s H)
    (hm : ∀ n m p, ms.lookup n = some m → m.parent = some p → s.Live p) (hH : ∀ l ∈ H', s.Live l)
    (hc : ∀ l, ms.values.countP (fun m => m.parent = some l) + H'.count l =
      s.mountsOn l + H.count l) : RefInv { s with mounts := ms } H' := by
  refine ⟨h.key, h.ptr_lt, h.ptr_inj, h.parent, hm, hH, fun l hl => ?_, h.refs, h.noPanic⟩
  have := h.count l hl
  have e := hc l
  show s.referenceCount l = (s.references l).card + s.children l +
    ms.values.countP (fun m => m.parent = some l) + H'.count l
  omega

/-- A layer in hand becomes the parent of a new mount. -/
theorem publishMount (h : RefInv s (holds m.parent + H)) (hn : s.mounts.lookup m.name = none) :
    RefInv { s with mounts := s.mounts.insert m.name m } H := by
  refine h.setMounts (fun n m' p h' hp => ?_) (fun l hl => h.held l (Multiset.mem_add.mpr (.inr hl)))
    fun l => ?_
  · rw [Finmap.lookup_insert'] at h'
    split at h'
    · obtain rfl := Option.some.inj h'
      refine h.held p (Multiset.mem_add.mpr (.inl ?_))
      rw [hp]; exact Multiset.mem_singleton_self p
    · exact h.mount n m' p h' hp
  · rw [Finmap.values_insert (Finmap.lookup_eq_none.mp hn), Multiset.countP_cons, Multiset.count_add,
      count_holds, LayerStore.mountsOn]
    omega

/-- A mount is removed, and its parent is in hand. -/
theorem deleteMount (h : RefInv s H) (hn : s.mounts.lookup m.name = some m) :
    RefInv { s with mounts := s.mounts.erase m.name } (holds m.parent + H) := by
  refine h.setMounts (fun n m' p h' hp => ?_) (fun l hl => ?_) fun l => ?_
  · rw [Finmap.lookup_erase'] at h'
    split at h'
    · cases h'
    · exact h.mount n m' p h' hp
  · rcases Multiset.mem_add.mp hl with hl | hl
    · cases hp : m.parent with
      | none => rw [hp] at hl; exact absurd hl (Multiset.notMem_zero l)
      | some q =>
        rw [hp] at hl
        obtain rfl := Multiset.mem_singleton.mp hl
        exact h.mount m.name m _ hn hp
    · exact h.held l hl
  · rw [LayerStore.mountsOn, Finmap.values_of_lookup hn, Multiset.countP_cons, Multiset.count_add,
      count_holds]
    omega

/-- A mount changes, but not its parent. -/
theorem updateMount (h : RefInv s H) {m₀ : MountedLayer} (hn : s.mounts.lookup m.name = some m₀)
    (hp : m.parent = m₀.parent) : RefInv { s with mounts := s.mounts.insert m.name m } H := by
  refine h.setMounts (fun n m' p h' hp' => ?_) h.held fun l => ?_
  · rw [Finmap.lookup_insert'] at h'
    split at h'
    · obtain rfl := Option.some.inj h'
      exact h.mount m.name m₀ p hn (hp ▸ hp')
    · exact h.mount n m' p h' hp'
  · rw [Finmap.values_insert', LayerStore.mountsOn, Finmap.values_of_lookup hn, Multiset.countP_cons,
      Multiset.countP_cons, hp]

end

/-- The counters and the layer map do not depend on the lock or on the next
reference. -/
theorem of_eq {s' : LayerStore} (h : RefInv s H) (h₁ : s'.layerMap = s.layerMap)
    (h₂ : s'.mounts = s.mounts) (h₃ : s'.counters = s.counters) (h₄ : s'.nextPtr = s.nextPtr)
    (h₅ : s.nextRef ≤ s'.nextRef) (h₆ : s'.panicked = s.panicked) : RefInv s' H := by
  obtain ⟨lm, ms, lk, cs, np, nr, pk⟩ := s'
  obtain rfl : lm = s.layerMap := h₁
  obtain rfl : ms = s.mounts := h₂
  obtain rfl : cs = s.counters := h₃
  obtain rfl : np = s.nextPtr := h₄
  obtain rfl : pk = s.panicked := h₆
  exact ⟨h.key, h.ptr_lt, h.ptr_inj, h.parent, h.mount, h.held, h.count,
    fun l hl r hr => Nat.lt_of_lt_of_le (h.refs l hl r hr) h₅, h.noPanic⟩

end RefInv

/-! ## Releasing a layer -/

namespace World

variable {w : World} {l : RoLayer}

/-- `deleteLayer`: the removal from the driver fails, without or with its
effect, the one from the metadata store fails after it, or both succeed. -/
theorem deleteLayer_cases (w : World) (l : RoLayer) :
    (w.answer .driverRemove).ok = false ∧
      w.deleteLayer l = (.error (.failed .driverRemove), w.tick) ∨
    ((w.answer .driverRemove).ok = false ∧ (w.answer .driverRemove).done = true) ∧ w.deleteLayer l =
      (.error (.failed .driverRemove), { w.tick with driver := w.driver.erase l.cacheID }) ∨
    (w.tick.answer .storeRemove).ok = false ∧ w.deleteLayer l =
      (.error (.failed .storeRemove), { w.tick.tick with driver := w.driver.erase l.cacheID }) ∨
    w.deleteLayer l = (.ok ⟨l.chainID, l.info.diffID, l.totalSize, l.info.size⟩,
      { w.tick.tick with
        driver := w.driver.erase l.cacheID
        store := { w.store with layers := w.store.layers.erase l.chainID } }) := by
  simp only [answer, tick]
  cases h₁ : (w.env w.clock .driverRemove).ok with
  | false =>
    cases h₂ : (w.env w.clock .driverRemove).done with
    | false => simp [deleteLayer, driverRemove, answer, tick, h₁, h₂]
    | true => simp [deleteLayer, driverRemove, answer, tick, h₁, h₂]
  | true =>
    cases h₂ : (w.env (w.clock + 1) .storeRemove).ok with
    | false => simp [deleteLayer, driverRemove, storeRemove, request, answer, tick, h₁, h₂]
    | true => simp [deleteLayer, driverRemove, storeRemove, request, answer, tick, h₁, h₂]

theorem deleteLayer_ls (w : World) (l : RoLayer) : (w.deleteLayer l).2.ls = w.ls := by
  rcases deleteLayer_cases w l with ⟨_, e⟩ | ⟨_, e⟩ | ⟨_, e⟩ | e <;> rw [e] <;> rfl

theorem deleteLayer_driver (w : World) (l : RoLayer) : (w.deleteLayer l).2.driver ⊆ w.driver := by
  rcases deleteLayer_cases w l with ⟨_, e⟩ | ⟨_, e⟩ | ⟨_, e⟩ | e <;> rw [e]
  · exact Finset.Subset.refl _
  · exact Finset.erase_subset _ _
  · exact Finset.erase_subset _ _
  · exact Finset.erase_subset _ _

/-- What no release of a layer changes. -/
def rest (w : World) :=
  (w.env, w.ls.mounts, w.ls.mountL, w.store.tmp, w.store.mounts, w.issued)

theorem deleteLayer_rest (w : World) (l : RoLayer) : (w.deleteLayer l).2.rest = w.rest := by
  rcases deleteLayer_cases w l with ⟨_, e⟩ | ⟨_, e⟩ | ⟨_, e⟩ | e <;> rw [e] <;> rfl

/-- `l.referenceCount--`, in a world. -/
def unretain (w : World) (l : RoLayer) : World := { w with ls := w.ls.unretain l }

@[simp] theorem unretain_ls (w : World) (l : RoLayer) : (w.unretain l).ls = w.ls.unretain l := rfl

theorem referenceCount_unretain (s : LayerStore) (l : RoLayer) :
    (s.unretain l).referenceCount l = s.referenceCount l - 1 := by
  simp [LayerStore.unretain, LayerStore.modify, LayerStore.referenceCount]

/-- One round of the loop, of a layer in hand: it is let go, and it is
removed if nothing else holds it. No panic is reached. -/
theorem releaseOne_cases {H : Multiset RoLayer} (h : RefInv w.ls (l ::ₘ H)) {depth : Nat}
    {removed : List Metadata} (hd : removed.length = 0 → depth = 0) :
    1 < w.ls.referenceCount l ∧ w.releaseOne l depth removed = (.inl (.ok removed), w.unretain l) ∨
    w.ls.referenceCount l = 1 ∧
      w.releaseOne l depth removed = match (w.unretain l).deleteLayer l with
        | (.error e, w') => (.inl (.error e), w')
        | (.ok metadata, w') =>
          (.inr (removed ++ [metadata]), { w' with ls := w'.ls.removeLayer l }) := by
  have hl := h.held l (Multiset.mem_cons_self ..)
  have hc := h.count l hl
  rw [Multiset.count_cons_self] at hc
  have hu := referenceCount_unretain w.ls l
  rcases Nat.lt_or_ge 1 (w.ls.referenceCount l) with h1 | h1
  · refine .inl ⟨h1, ?_⟩
    unfold releaseOne
    rw [if_neg (by omega), if_pos (by simp only [ne_eq]; omega)]
    rfl
  · have h1 : w.ls.referenceCount l = 1 := by omega
    refine .inr ⟨h1, ?_⟩
    have hr : (w.ls.unretain l).references l = ∅ :=
      (h.unretain.holders_eq_zero hl (by omega)).1
    unfold releaseOne
    rw [if_neg (by omega)]
    simp only [hu, h1, hr, Nat.sub_self, ne_eq, not_true_eq_false, if_false]
    rw [if_neg (fun h0 => by have := hd h0.1; omega),
      if_neg (Finset.not_nonempty_iff_eq_empty.mpr rfl)]
    rfl

/-- A layer in hand that nothing else holds is deleted, whichever of the two
removals fails. -/
theorem deleteLayer_refInv {H : Multiset RoLayer} (h : RefInv w.ls (l ::ₘ H))
    (hc : w.ls.referenceCount l = 1) :
    match (w.unretain l).deleteLayer l with
      | (.error _, w') => RefInv w'.ls H
      | (.ok _, w') => RefInv (w'.ls.removeLayer l) (holds l.parent + H) := by
  have hu := referenceCount_unretain w.ls l
  have hd := deleteLayer_ls (w.unretain l) l
  split <;> rename_i w' e <;> rw [e] at hd <;> simp only at hd ⊢ <;> rw [hd]
  · exact h.unretain
  · exact h.unretain.removeLayer (h.held l (Multiset.mem_cons_self ..)) (by omega)

section

variable {J : World → Prop}
  (unretain : ∀ w l H, RefInv w.ls (l ::ₘ H) → 1 < w.ls.referenceCount l → J w → J (w.unretain l))
  (delete : ∀ w l H, RefInv w.ls (l ::ₘ H) → w.ls.referenceCount l = 1 → J w →
    match (w.unretain l).deleteLayer l with
      | (.error _, w') => J w'
      | (.ok _, w') => J { w' with ls := w'.ls.removeLayer l })

include unretain delete

/-- One round of the loop keeps what a release and a removal keep. -/
theorem releaseOne_rule {H : Multiset RoLayer} {depth : Nat} {removed : List Metadata}
    (hd : removed.length = 0 → depth = 0) (h : RefInv w.ls (l ::ₘ H)) (hJ : J w) :
    match w.releaseOne l depth removed with
      | (.inl _, w') => RefInv w'.ls H ∧ J w'
      | (.inr removed', w') => RefInv w'.ls (holds l.parent + H) ∧ J w' ∧ removed'.length ≠ 0 := by
  rcases releaseOne_cases h hd with ⟨hc, e⟩ | ⟨hc, e⟩
  · rw [e]; exact ⟨h.unretain, unretain w l H h hc hJ⟩
  · have h₁ := deleteLayer_refInv h hc
    have h₂ := delete w l H h hc hJ
    rw [e]
    split at h₂ <;> rename_i e' <;> simp only [e'] at h₁ ⊢
    · exact ⟨h₁, h₂⟩
    · exact ⟨h₁, h₂, by simp⟩

/-- The layer in hand is released. What every round of the loop keeps, the
loop keeps. -/
theorem releaseLoop_rule {H : Multiset RoLayer} {depth : Nat} {removed : List Metadata}
    (hd : removed.length = 0 → depth = 0) (h : RefInv w.ls (l ::ₘ H)) (hJ : J w) :
    RefInv (w.releaseLoop depth removed l).2.ls H ∧ J (w.releaseLoop depth removed l).2 := by
  induction l generalizing w depth removed with
  | base a i =>
    have := releaseOne_rule unretain delete hd h hJ
    rcases e : w.releaseOne (.base a i) depth removed with ⟨r | removed', w'⟩ <;>
      simp only [releaseLoop, e] at this ⊢
    · exact this
    · obtain ⟨h', hJ', -⟩ := this
      rw [show holds (RoLayer.base a i).parent = 0 from rfl, zero_add] at h'
      exact ⟨h', hJ'⟩
  | child a i p ih =>
    have := releaseOne_rule unretain delete hd h hJ
    rcases e : w.releaseOne (.child a i p) depth removed with ⟨r | removed', w'⟩ <;>
      simp only [releaseLoop, e] at this ⊢
    · exact this
    · obtain ⟨h', hJ', hr⟩ := this
      exact ih (fun h0 => absurd h0 hr) h' hJ'

theorem releaseLayer_rule {H : Multiset RoLayer} (h : RefInv w.ls (l ::ₘ H)) (hJ : J w) :
    RefInv (w.releaseLayer l).2.ls H ∧ J (w.releaseLayer l).2 :=
  releaseLoop_rule unretain delete (fun _ => rfl) h hJ

end

theorem releaseLayer_rest {H : Multiset RoLayer} (h : RefInv w.ls (l ::ₘ H)) :
    (w.releaseLayer l).2.rest = w.rest := by
  refine (releaseLayer_rule (J := fun w' => w'.rest = w.rest) (fun w' l' _ _ _ hJ => hJ)
    (fun w' l' _ _ _ hJ => ?_) h rfl).2
  have hd := deleteLayer_rest (w'.unretain l') l'
  split <;> rename_i e <;> rw [e] at hd <;> exact hd.trans hJ

end World

theorem RefInv.releaseLayer {w : World} {l : RoLayer} {H : Multiset RoLayer}
    (h : RefInv w.ls (l ::ₘ H)) : RefInv (w.releaseLayer l).2.ls H :=
  (World.releaseLayer_rule (J := fun _ => True) (fun _ _ _ _ _ _ => trivial)
    (fun _ _ _ _ _ _ => by split <;> trivial) h trivial).1

end Moby.Layer
