import Moby.Layer.Load

/-!
# Building a layer store from its metadata

The store that `NewStoreFromGraphDriver` builds from the metadata of a layer
store has the same layers and the same mounts, in whatever order they are
listed (`newStoreFromGraphDriver_restores`): every state of a run without
failures has its metadata on disk while `mountL` is free
(`Persisted.of_reaches`), the loop over the layers loads each once, with its
parents (`Loading`), and the loop over the mounts finds the layers there
(`Mounting`).
-/

namespace Moby.Layer

open Moby.Framework Moby.Digest

/-! ## Loading the layers -/

/-- The layers of the store `s` that are loaded into `t`, where the parents of
the layers `done` have been counted. -/
structure Loading (s : LayerStore) (done : List ChainID) (t : LayerStore) : Prop where
  same : ∀ k l', t.layerMap.lookup k = some l' → ∃ l, s.layerMap.lookup k = some l ∧
    l'.info = l.info.stored ∧ l'.parent.map RoLayer.chainID = l.parent.map RoLayer.chainID
  key : ∀ k l, t.layerMap.lookup k = some l → l.chainID = k
  ptr_lt : ∀ l, t.Live l → l.ptr < t.nextPtr
  ptr_inj : ∀ l l', t.Live l → t.Live l' → l.ptr = l'.ptr → l = l'
  parent : ∀ l p, t.Live l → l.parent = some p → t.Live p
  loaded : ∀ k ∈ done, k ∈ t.layerMap
  count : ∀ l, t.Live l →
    t.referenceCount l = done.countP fun k => (t.layerMap.lookup k).bind RoLayer.parent = some l
  refs : ∀ l, t.Live l → t.references l = ∅
  mounts : t.mounts = ∅
  noPanic : t.panicked = none

namespace Loading

variable {H : Hash} {s t : LayerStore} {m : MetadataStore} {done : List ChainID} {l : RoLayer}

theorem empty : Loading s [] {} where
  same _ _ h := by cases h
  key _ _ h := by cases h
  ptr_lt _ h := by cases h
  ptr_inj _ _ h := by cases h
  parent _ _ h := by cases h
  loaded _ h := by cases h
  count _ h := by cases h
  refs _ h := by cases h
  mounts := rfl
  noPanic := rfl

theorem live_of_lookup (h : Loading s done t) {k : ChainID} (hl : t.layerMap.lookup k = some l) : t.Live l := by
  rw [LayerStore.Live, h.key k l hl]; exact hl

/-- A layer is loaded on its parent. -/
theorem loadedLayer (h : Loading s done t) (hl : s.Live l) (hnew : l.chainID ∉ t.layerMap)
    {p : Option RoLayer} (hp : p.map RoLayer.chainID = l.parent.map RoLayer.chainID)
    (hlive : ∀ q, p = some q → t.Live q) : Loading s done (t.loadedLayer l.info.stored p).2 := by
  set l' := RoLayer.make t.nextPtr l.info.stored p with hl'
  have hid : l'.chainID = l.chainID := by simp [l', RoLayer.chainID, LayerInfo.stored]
  have hlook (k : ChainID) : (t.loadedLayer l.info.stored p).2.layerMap.lookup k =
      if k = l.chainID then some l' else t.layerMap.lookup k := Finmap.lookup_insert' ..
  have live {x : RoLayer} (hx : (t.loadedLayer l.info.stored p).2.Live x) : x = l' ∨ t.Live x := by
    rw [LayerStore.Live, hlook] at hx
    split at hx
    · exact .inl (Option.some.inj hx).symm
    · exact .inr hx
  have keep {x : RoLayer} (hx : t.Live x) : (t.loadedLayer l.info.stored p).2.Live x := by
    rw [LayerStore.Live, hlook, if_neg]
    · exact hx
    · intro e
      exact hnew (e ▸ Finmap.mem_of_lookup_eq_some hx)
  have other {x : RoLayer} (hx : t.Live x) : x.ptr ≠ t.nextPtr := by
    have := h.ptr_lt x hx
    omega
  refine ⟨fun k x hx => ?_, fun k x hx => ?_, fun x hx => ?_, fun x y hx hy e => ?_, fun x q hx hq => ?_,
    fun k hk => ?_, fun x hx => ?_, fun x hx => ?_, h.mounts, h.noPanic⟩
  · rw [hlook] at hx
    split at hx
    · rename_i e
      obtain rfl := Option.some.inj hx
      exact ⟨l, e ▸ hl, RoLayer.info_make .., by rw [hl', RoLayer.parent_make, hp]⟩
    · exact h.same k x hx
  · rw [hlook] at hx
    split at hx
    · rename_i e
      obtain rfl := Option.some.inj hx
      exact hid.trans e.symm
    · exact h.key k x hx
  · show x.ptr < t.nextPtr + 1
    rcases live hx with rfl | hx
    · rw [hl', RoLayer.ptr_make]; omega
    · have := h.ptr_lt x hx
      omega
  · rcases live hx with rfl | hx <;> rcases live hy with rfl | hy
    · rfl
    · exact absurd (e.symm.trans (RoLayer.ptr_make ..)) (other hy)
    · exact absurd (e.trans (RoLayer.ptr_make ..)) (other hx)
    · exact h.ptr_inj x y hx hy e
  · rcases live hx with rfl | hx
    · rw [hl', RoLayer.parent_make] at hq
      exact keep (hlive q hq)
    · exact keep (h.parent x q hx hq)
  · exact Finmap.mem_insert.mpr (.inr (h.loaded k hk))
  · have hdone : (done.countP fun k =>
        ((t.loadedLayer l.info.stored p).2.layerMap.lookup k).bind RoLayer.parent = some x) =
        done.countP fun k => (t.layerMap.lookup k).bind RoLayer.parent = some x := by
      refine List.countP_congr fun k hk => ?_
      have hne : k ≠ l.chainID := fun e => hnew (e ▸ h.loaded k hk)
      rw [hlook, if_neg hne]
    rw [hdone]
    rcases live hx with rfl | hx
    · -- no layer can be on one that is not loaded yet
      rw [List.countP_eq_zero.mpr fun k hk hpar => ?_]
      · simp [LayerStore.referenceCount, LayerStore.loadedLayer, hl']
      · obtain ⟨y, hy, hy'⟩ := Option.bind_eq_some_iff.mp (of_decide_eq_true hpar)
        have := h.ptr_lt _ (h.parent y _ (h.live_of_lookup hy) hy')
        rw [hl', RoLayer.ptr_make] at this
        omega
    · rw [← h.count x hx]
      simp [LayerStore.referenceCount, LayerStore.loadedLayer, Function.update_of_ne (other hx)]
  · rcases live hx with rfl | hx
    · simp [LayerStore.references, LayerStore.loadedLayer, hl']
    · rw [← h.refs x hx]
      simp [LayerStore.references, LayerStore.loadedLayer, Function.update_of_ne (other hx)]

/-- A layer of the store is loaded, with its parents, and with them only. -/
theorem loadLayer (hP : Persisted H s m) (hl : s.Live l) {fuel : Nat} (hf : l.depth ≤ fuel)
    (h : Loading s done t) : ∃ l' t', Layer.loadLayer m fuel l.chainID t = (.ok l', t') ∧
      Loading s done t' ∧ t'.layerMap.lookup l.chainID = some l' ∧
      ∀ k ∈ t'.layerMap, k ∈ t.layerMap ∨ ∃ q, s.Live q ∧ q.chainID = k ∧ q.depth ≤ l.depth := by
  obtain ⟨K, hK⟩ := hP.refs
  obtain ⟨n, rfl⟩ : ∃ n, fuel = n + 1 := ⟨fuel - 1, by have := l.one_le_depth; omega⟩
  induction l generalizing n with
  | base a i =>
    have hread := hP.readLayer hl
    rw [Layer.loadLayer]
    cases hlook : t.layerMap.lookup (RoLayer.base a i).chainID with
    | some cl => exact ⟨cl, t, rfl, h, hlook, fun k hk => .inl hk⟩
    | none =>
      have hnew := Finmap.lookup_eq_none.mp hlook
      rw [hread]
      refine ⟨_, _, rfl, h.loadedLayer hl hnew rfl nofun, Finmap.lookup_insert _, fun k hk => ?_⟩
      rcases Finmap.mem_insert.mp hk with rfl | hk
      · exact .inr ⟨_, hl, rfl, le_refl _⟩
      · exact .inl hk
  | child a i p ih =>
    have hread := hP.readLayer hl
    have hp : s.Live p := hK.parent _ p hl rfl
    have hne : p.chainID ≠ "" := by
      obtain ⟨b, hb⟩ := hP.chainID p hp
      rw [hb]; exact fromBytes_ne_empty H b
    have hdepth : (RoLayer.child a i p).depth = p.depth + 1 := rfl
    rw [Layer.loadLayer]
    cases hlook : t.layerMap.lookup (RoLayer.child a i p).chainID with
    | some cl => exact ⟨cl, t, rfl, h, hlook, fun k hk => .inl hk⟩
    | none =>
      have hnew := Finmap.lookup_eq_none.mp hlook
      have hpos := p.one_le_depth
      obtain ⟨n', rfl⟩ : ∃ n', n = n' + 1 := ⟨n - 1, by omega⟩
      obtain ⟨p', t', hload, h', hp', honly⟩ := ih hp n' (by omega)
      have hkey := h'.key _ _ hp'
      -- the layer itself is not among those loaded with its parent
      have hnew' : (RoLayer.child a i p).chainID ∉ t'.layerMap := by
        intro hmem
        rcases honly _ hmem with hmem | ⟨q, hq, hid, hle⟩
        · exact hnew hmem
        · rw [LayerStore.Live, hid] at hq
          obtain rfl : q = RoLayer.child a i p := Option.some.inj (hq.symm.trans hl)
          omega
      refine ⟨_, (t'.loadedLayer (RoLayer.child a i p).info.stored (some p')).2, ?_,
        h'.loadedLayer hl hnew' (by rw [Option.map_some, hkey]; rfl) ?_, Finmap.lookup_insert _, fun k hk => ?_⟩
      · rw [hread]
        simp only [show parentID (RoLayer.child a i p).parent = p.chainID from rfl, hne, if_false, hload]
        rfl
      · rintro q ⟨⟩
        exact h'.live_of_lookup hp'
      · rcases Finmap.mem_insert.mp hk with rfl | hk
        · exact .inr ⟨_, hl, rfl, le_refl _⟩
        · rcases honly k hk with hk | ⟨q, hq, hid, hle⟩
          · exact .inl hk
          · exact .inr ⟨q, hq, hid, by omega⟩

/-- The parent of a layer that is loaded is counted. -/
theorem counted (h : Loading s done t) {k : ChainID} (hl : t.layerMap.lookup k = some l) :
    Loading s (k :: done) (match l.parent with | none => t | some p => t.retain p) := by
  have hloaded : ∀ k' ∈ k :: done, k' ∈ t.layerMap := by
    intro k' hk'
    rcases List.mem_cons.mp hk' with rfl | hk'
    · exact Finmap.mem_of_lookup_eq_some hl
    · exact h.loaded k' hk'
  have hcount (x : RoLayer) (hx : t.Live x) :
      ((k :: done).countP fun k' => (t.layerMap.lookup k').bind RoLayer.parent = some x) =
        t.referenceCount x + if l.parent = some x then 1 else 0 := by
    rw [List.countP_cons, h.count x hx, hl]
    simp
  cases hp : l.parent with
  | none =>
    refine { h with loaded := hloaded, count := fun x hx => ?_ }
    rw [hcount x hx, hp]
    simp
  | some p =>
    have hlive := h.parent l p (h.live_of_lookup hl) hp
    refine ⟨h.same, h.key, h.ptr_lt, h.ptr_inj, h.parent, hloaded, fun x hx => ?_, fun x hx => ?_, h.mounts,
      h.noPanic⟩
    · have hptr : x.ptr = p.ptr ↔ p = x := ⟨fun e => h.ptr_inj p x hlive hx e.symm, fun e => by rw [e]⟩
      refine Eq.trans ?_ (hcount x hx).symm
      rw [hp]
      simp only [LayerStore.referenceCount, LayerStore.retain, LayerStore.modify, Function.update_apply, hptr,
        Option.some.injEq]
      split
      · rename_i e; rw [e]
      · rfl
    · rw [← h.refs x hx]
      simp only [LayerStore.references, LayerStore.retain, LayerStore.modify, Function.update_apply]
      split
      · rename_i e; rw [e]
      · rfl

/-- The loop over the layers loads them all and counts each one's parent. -/
theorem loadLayers (hP : Persisted H s m) {fuel : Nat} (hf : maxLayerDepth ≤ fuel) {ids : List ChainID}
    (hids : ∀ id ∈ ids, id ∈ s.layerMap) (h : Loading s done t) :
    Loading s (ids.reverse ++ done) (Layer.loadLayers m fuel ids t) := by
  obtain ⟨K, hK⟩ := hP.refs
  induction ids generalizing done t with
  | nil => exact h
  | cons id ids ih =>
    obtain ⟨l, hl⟩ := Option.isSome_iff_exists.mp (Finmap.lookup_isSome.mpr (hids id List.mem_cons_self))
    have hlive := hK.live_of_lookup hl
    obtain ⟨l', t', hload, h', hl', -⟩ := h.loadLayer hP hlive ((hP.depth l hlive).trans hf)
    rw [hK.key _ _ hl] at hload hl'
    rw [Layer.loadLayers, hload, List.reverse_cons, List.append_assoc]
    exact ih (fun id' hid' => hids id' (List.mem_cons_of_mem _ hid')) (h'.counted hl')

/-- When all the layers are loaded, each is held by its children. -/
theorem refInv (h : Loading s done t) (hn : done.Nodup) (hd : ∀ k, k ∈ done ↔ k ∈ t.layerMap) : RefInv t 0 where
  key := h.key
  ptr_lt := h.ptr_lt
  ptr_inj := h.ptr_inj
  parent := h.parent
  mount _ _ _ hm := by rw [h.mounts] at hm; cases hm
  held _ hl := absurd hl (Multiset.notMem_zero _)
  count l hl := by
    rw [h.count l hl, h.refs l hl, LayerStore.children, LayerStore.mountsOn, h.mounts,
      Finmap.values_eq_filterMap hn hd, Multiset.coe_countP, List.countP_filterMap]
    simp only [Finset.card_empty, Finmap.values_empty, Multiset.countP_zero, Multiset.count_zero, zero_add,
      add_zero]
    refine List.countP_congr fun k _ => ?_
    cases t.layerMap.lookup k <;> simp
  refs l hl r hr := by rw [h.refs l hl] at hr; cases hr
  noPanic := h.noPanic

end Loading

/-! ## Loading the mounts -/

/-- What of a mount reads back. -/
def MountedLayer.stored (x : MountedLayer) : String × String × String × Option ChainID :=
  (x.name, x.mountID, x.initID, x.parent.map RoLayer.chainID)

/-- The store `t` with all the layers of `s`, and the mounts `done` of it. -/
structure Mounting (s : LayerStore) (done : List String) (t : LayerStore) : Prop where
  inv : RefInv t 0
  refs : ∀ l, t.Live l → t.references l = ∅
  layers : ∀ k, (t.layerMap.lookup k).map (fun l => (l.info, l.parent.map RoLayer.chainID)) =
    (s.layerMap.lookup k).map fun l => (l.info.stored, l.parent.map RoLayer.chainID)
  mounts : ∀ n, (t.mounts.lookup n).map MountedLayer.stored =
    if n ∈ done then (s.mounts.lookup n).map MountedLayer.stored else none

namespace Mounting

variable {H : Hash} {s t : LayerStore} {m : MetadataStore} {done : List String}

/-- A mount is loaded on its parent, which is in hand. -/
theorem loadedMount (h : Mounting s done t) {x x' : MountedLayer} (hx : s.mounts.lookup x.name = some x)
    (hx' : x'.stored = x.stored) (hnew : x.name ∉ done) {u : LayerStore} (hu : RefInv u (holds x'.parent + 0))
    (hmap : u.layerMap = t.layerMap) (hmounts : u.mounts = t.mounts)
    (hrefs : ∀ l, t.Live l → u.references l = t.references l) : Mounting s (x.name :: done) (u.loadedMount x') := by
  have hname : x'.name = x.name := congrArg Prod.fst hx'
  have hnone : t.mounts.lookup x.name = none := by
    have := h.mounts x.name
    rw [if_neg hnew, Option.map_eq_none_iff] at this
    exact this
  have live {l : RoLayer} (hl : (u.loadedMount x').Live l) : t.Live l := by
    rw [LayerStore.Live, ← hmap]; exact hl
  refine ⟨hu.publishMount (by rw [hname, hmounts]; exact hnone), fun l hl => ?_, fun k => ?_, fun n => ?_⟩
  · exact (hrefs l (live hl)).trans (h.refs l (live hl))
  · rw [← h.layers k, ← hmap]; rfl
  · show ((u.mounts.insert x'.name x').lookup n).map _ = _
    rw [Finmap.lookup_insert', hname, hmounts]
    by_cases hn : n = x.name
    · rw [if_pos hn, if_pos (by simp [hn]), hn, hx]
      exact congrArg some hx'
    · rw [if_neg hn, h.mounts n]
      simp [hn]

theorem loadMount (hP : Persisted H s m) {fuel : Nat} (hf : 0 < fuel) {x : MountedLayer}
    (hx : s.mounts.lookup x.name = some x) (hnew : x.name ∉ done) (h : Mounting s done t) :
    Mounting s (x.name :: done) (Layer.loadMount m fuel x.name t).2 := by
  obtain ⟨K, hK⟩ := hP.refs
  have hnone : t.mounts.lookup x.name = none := by
    have := h.mounts x.name
    rw [if_neg hnew, Option.map_eq_none_iff] at this
    exact this
  simp only [Layer.loadMount, hnone, hP.readMount hx]
  cases hp : x.parent with
  | none =>
    rw [if_pos (show parentID none = "" from rfl)]
    refine h.loadedMount hx ?_ hnew (by simpa [holds] using h.inv) rfl rfl fun _ _ => rfl
    simp [MountedLayer.stored, hp]
  | some q =>
    have hq : s.Live q := hK.mount _ x q hx hp
    have hne : q.chainID ≠ "" := by
      obtain ⟨b, hb⟩ := hP.chainID q hq
      rw [hb]; exact fromBytes_ne_empty H b
    have hlayer := h.layers q.chainID
    rw [show s.layerMap.lookup q.chainID = some q from hq] at hlayer
    obtain ⟨q', hq', hinfo⟩ := Option.map_eq_some_iff.mp hlayer
    obtain ⟨n, rfl⟩ : ∃ n, fuel = n + 1 := ⟨fuel - 1, by omega⟩
    have hid : q'.chainID = q.chainID := h.inv.key _ _ hq'
    have hload : Layer.loadLayer m (n + 1) q.chainID t = (.ok q', t) := by simp only [Layer.loadLayer, hq']
    rw [show parentID (some q) = q.chainID from rfl, if_neg hne, hload]
    refine h.loadedMount hx ?_ hnew ?_ rfl rfl fun l _ => ?_
    · simp [MountedLayer.stored, hp, hid]
    · simpa only [holds, Multiset.singleton_add] using h.inv.retain (h.inv.live_of_lookup hq')
    · simp only [LayerStore.references, LayerStore.retain, LayerStore.modify, Function.update_apply]
      split
      · rename_i e; rw [e]
      · rfl

/-- The loop over the mounts loads them all. -/
theorem loadMounts (hP : Persisted H s m) {fuel : Nat} (hf : 0 < fuel) {mounts : List String}
    (hn : mounts.Nodup) (hm : ∀ n ∈ mounts, n ∈ s.mounts ∧ n ∉ done) (h : Mounting s done t) :
    Mounting s (mounts.reverse ++ done) (Layer.loadMounts m fuel mounts t) := by
  induction mounts generalizing done t with
  | nil => exact h
  | cons n mounts ih =>
    obtain ⟨hnot, hn'⟩ := List.nodup_cons.mp hn
    obtain ⟨hmem, hnew⟩ := hm n List.mem_cons_self
    obtain ⟨x, hx⟩ := Option.isSome_iff_exists.mp (Finmap.lookup_isSome.mpr hmem)
    obtain rfl : x.name = n := hP.name n x hx
    rw [Layer.loadMounts, List.reverse_cons, List.append_assoc]
    refine ih hn' (fun n' hmem' => ?_) (h.loadMount hP hf hx hnew)
    obtain ⟨h₁, h₂⟩ := hm n' (List.mem_cons_of_mem _ hmem')
    refine ⟨h₁, fun h' => ?_⟩
    rcases List.mem_cons.mp h' with rfl | h'
    · exact hnot hmem'
    · exact h₂ h'

end Mounting

/-! ## The store that is built -/

section

variable {H : Hash} {s t : LayerStore} {m : MetadataStore}

/-- When all the layers are loaded, the mounts can be. -/
theorem Loading.mounting {done : List ChainID} (h : Loading s done t) (hn : done.Nodup)
    (hd : ∀ k, k ∈ done ↔ k ∈ s.layerMap) : Mounting s [] t := by
  have hkeys : ∀ k, k ∈ done ↔ k ∈ t.layerMap := by
    refine fun k => ⟨h.loaded k, fun hk => ?_⟩
    obtain ⟨l', hl'⟩ := Option.isSome_iff_exists.mp (Finmap.lookup_isSome.mpr hk)
    obtain ⟨l, hl, -⟩ := h.same k l' hl'
    exact (hd k).mpr (Finmap.mem_of_lookup_eq_some hl)
  refine ⟨h.refInv hn hkeys, h.refs, fun k => ?_, fun n => by rw [h.mounts]; rfl⟩
  cases hk : t.layerMap.lookup k with
  | some l' =>
    obtain ⟨l, hl, hinfo, hparent⟩ := h.same k l' hk
    rw [hl, Option.map_some, Option.map_some, hinfo, hparent]
  | none =>
    have hk' : k ∉ s.layerMap := by rw [← hd, hkeys]; exact Finmap.lookup_eq_none.mp hk
    rw [Finmap.lookup_eq_none.mpr hk']
    rfl

/-- What `List` returns of the metadata of a layer store. -/
theorem Persisted.lists {ids : List ChainID} {mounts : List String} (h : Persisted H s m)
    (hl : m.Lists ids mounts) : (∀ k, k ∈ ids ↔ k ∈ s.layerMap) ∧ ∀ n, n ∈ mounts ↔ n ∈ s.mounts := by
  obtain ⟨K, hK⟩ := h.refs
  refine ⟨fun k => ?_, fun n => ?_⟩
  · rw [hl.1.2 k, ← Finmap.lookup_isSome, h.layers k, Option.isSome_map, Finmap.lookup_isSome]
    refine ⟨And.left, fun hk => ⟨hk, ?_⟩⟩
    obtain ⟨l, hlook⟩ := Option.isSome_iff_exists.mp (Finmap.lookup_isSome.mpr hk)
    obtain ⟨b, hb⟩ := h.chainID l (hK.live_of_lookup hlook)
    rw [← hK.key k l hlook, hb]
    exact ⟨algorithm_newDigestFromHex _, validate_fromBytes H b⟩
  · rw [hl.2.2 n, ← Finmap.lookup_isSome, h.mounts n, Option.isSome_map, Finmap.lookup_isSome]

/-- In a run without failures, the metadata store has the metadata of the
layer store while `mountL` is free. -/
theorem Persisted.of_reaches {env : Nat → Op → Answer} {x : Config World Call} (hx : Reaches H env x)
    (hok : ∀ n op, (env n op).ok = true) (hL : x.1.ls.mountL = false) : Persisted H x.1.ls x.1.store := by
  obtain ⟨hr, hl⟩ := reaches_inv hx
  have hid := reaches_idInv hx
  have hfs := reaches_fsInv hx hok
  have hrandom {id : String} (h : id ∈ idsWith x.1.ls (drawn x.calls)) : IsHex64 id :=
    (hid.random id (hid.issued id h)).1
  have hmountID {n : String} {y : MountedLayer} (hy : x.1.ls.mounts.lookup n = some y) : IsHex64 y.mountID :=
    hrandom (Multiset.mem_add.mpr (.inl (Multiset.mem_add.mpr
      (.inr (Multiset.mem_map_of_mem _ (Finmap.mem_values.mpr ⟨n, hy⟩))))))
  refine ⟨⟨_, hr⟩, hfs.layers.lookup, hfs.layers.diffID, hfs.layers.chainID, fun l hlive => hrandom ?_,
    reaches_depth hx, fun n => hfs.mounts n fun c hc v hv => ?_, hl.name,
    fun n y hy => MetadataStore.matchesStringID_iff.mpr (.inl (hmountID hy)), fun n y hy => ?_⟩
  · exact Multiset.mem_of_le (layers_le_idsWith _ _)
      (Multiset.mem_add.mpr (.inl (Multiset.mem_map_of_mem _ (mem_values_of_live hlive))))
  · rw [hl.none_of_unlocked hL c hc] at hv; cases hv
  · exact (hid.initID n y hy).imp_right fun hi =>
      MetadataStore.matchesStringID_iff.mpr (.inr ⟨_, hmountID hy, hi⟩)

/-- The store that is built of metadata that agrees with `s`. -/
theorem Persisted.mounting (hP : Persisted H s m) {ids : List ChainID} {mounts : List String}
    (hlist : m.Lists ids mounts) {fuel : Nat} (hf : maxLayerDepth ≤ fuel) :
    Mounting s mounts.reverse (newStoreFromGraphDriver fuel m ids mounts) := by
  obtain ⟨hids, hmounts⟩ := hP.lists hlist
  have hlayers := (Loading.empty (s := s)).loadLayers hP hf fun id hid => (hids id).mp hid
  rw [List.append_nil] at hlayers
  have hready := hlayers.mounting (List.nodup_reverse.mpr hlist.1.1) fun k => by rw [List.mem_reverse, hids k]
  have h := hready.loadMounts hP (Nat.lt_of_lt_of_le (by decide) hf) hlist.2.1 fun n hn =>
    ⟨(hmounts n).mp hn, List.not_mem_nil⟩
  rw [List.append_nil] at h
  exact h

/-- Every mount is in it. -/
theorem Persisted.mounts_restored (hP : Persisted H s m) {ids : List ChainID}
    {mounts : List String} (hlist : m.Lists ids mounts) {fuel : Nat} (hf : maxLayerDepth ≤ fuel) (n : String) :
    ((newStoreFromGraphDriver fuel m ids mounts).mounts.lookup n).map MountedLayer.stored =
      (s.mounts.lookup n).map MountedLayer.stored := by
  rw [(hP.mounting hlist hf).mounts n]
  split
  · rfl
  · rename_i hn
    rw [List.mem_reverse, (hP.lists hlist).2 n] at hn
    rw [Finmap.lookup_eq_none.mpr hn]
    rfl

/-- In every state of a run without failures in which `mountL` is free,
`NewStoreFromGraphDriver` over the metadata store builds a layer store with
the same layers, each with the same fields and the same parent, and the same
mounts, with the same IDs and the same parent; every layer is held by its
children and its mounts. -/
theorem newStoreFromGraphDriver_restores {env : Nat → Op → Answer} {x : Config World Call}
    (hx : Reaches H env x) (hok : ∀ n op, (env n op).ok = true) (hL : x.1.ls.mountL = false)
    {ids : List ChainID} {mounts : List String} (hlist : x.1.store.Lists ids mounts) {fuel : Nat}
    (hf : maxLayerDepth ≤ fuel) (ht : t = newStoreFromGraphDriver fuel x.1.store ids mounts) :
    (∀ k, (t.layerMap.lookup k).map (fun l => (l.info, l.parent.map RoLayer.chainID)) =
      (x.1.ls.layerMap.lookup k).map fun l => (l.info.stored, l.parent.map RoLayer.chainID)) ∧
    (∀ n, (t.mounts.lookup n).map MountedLayer.stored = (x.1.ls.mounts.lookup n).map MountedLayer.stored) ∧
    ∀ k l, t.layerMap.lookup k = some l → t.referenceCount l = t.children l + t.mountsOn l := by
  subst ht
  have hP := Persisted.of_reaches hx hok hL
  have h := hP.mounting hlist hf
  refine ⟨h.layers, hP.mounts_restored hlist hf, fun k l hl => ?_⟩
  have hlive := h.inv.live_of_lookup hl
  rw [h.inv.count l hlive, h.refs l hlive]
  simp

end

/-- A listing of the metadata of one layer and one mount. -/
theorem lists_sample {m : MetadataStore} (hlayers : m.layers.keys = {sampleID}) (hmounts : m.mounts.keys = {"web"}) :
    m.Lists [sampleID] ["web"] := by
  refine ⟨⟨List.nodup_singleton _, fun id => ?_⟩, List.nodup_singleton _, fun n => ?_⟩
  · rw [← Finmap.mem_keys, hlayers, List.mem_singleton, Finset.mem_singleton]
    exact ⟨fun e => ⟨e, by rw [e]; decide⟩, And.left⟩
  · rw [← Finmap.mem_keys, hmounts, List.mem_singleton, Finset.mem_singleton]

/-- A layer with a mount on it: the store that is built has both, and the
mount holds the layer. -/
theorem newStoreFromGraphDriver_restores_mount : ∃ x : Config World Call, ∃ l,
    Reaches sampleHash sampleEnv x ∧ x.1.store.Lists [sampleID] ["web"] ∧
    (newStoreFromGraphDriver maxLayerDepth x.1.store [sampleID] ["web"]).layerMap.lookup sampleID = some l ∧
    (newStoreFromGraphDriver maxLayerDepth x.1.store [sampleID] ["web"]).referenceCount l =
      (newStoreFromGraphDriver maxLayerDepth x.1.store [sampleID] ["web"]).children l +
        (newStoreFromGraphDriver maxLayerDepth x.1.store [sampleID] ["web"]).mountsOn l := by
  have hrun : ((runAll (Request.prog sampleHash) {}
      [.register [] "" {}, .createRWLayer "web" sampleID true] { env := sampleEnv }).any fun w =>
      w.ls.mountL = false ∧ w.store.layers.keys = {sampleID} ∧ w.store.mounts.keys = {"web"} ∧
        (w.ls.layerMap.lookup sampleID).isSome) = true := by decide +kernel
  simp only [Option.any_eq_true, decide_eq_true_eq] at hrun
  obtain ⟨w, hw, hL, hlayers, hmounts, hl⟩ := hrun
  have hx : Reaches sampleHash sampleEnv (w, 0) := Reachable.runAll .refl hw
  have hlist := lists_sample hlayers hmounts
  obtain ⟨hsame, -, hcount⟩ :=
    newStoreFromGraphDriver_restores hx sampleEnv_ok hL hlist (le_refl maxLayerDepth) rfl
  obtain ⟨l₀, hl₀⟩ := Option.isSome_iff_exists.mp hl
  have hk := hsame sampleID
  rw [hl₀] at hk
  obtain ⟨l, hl', -⟩ := Option.map_eq_some_iff.mp hk
  exact ⟨(w, 0), l, hx, hlist, hl', hcount _ _ hl'⟩

end Moby.Layer
