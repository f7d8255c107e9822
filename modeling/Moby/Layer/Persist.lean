import Moby.Layer.Depth

/-!
# What is on disk in a run without failures

`FsInv`, kept by every action of a run in which no call of the environment
fails: the metadata store has exactly the layers of the map, each with the
directory that its registration made; the open transactions are those of the
calls in flight; and it has exactly the mounts, with their directories, but
for the one whose name the holder of `mountL` has looked up
(`reaches_fsInv`).
-/

namespace Moby.Layer

open Moby.Framework Moby.Digest

/-- The transactions of the calls in flight. -/
def openTx (F : Multiset Call) : Multiset String := F.filterMap fun c => c.tx.map Prod.fst

theorem openTx_cons (c : Call) (F : Multiset Call) :
    openTx (c ::ₘ F) = holds (c.tx.map Prod.fst) + openTx F :=
  filterMap_cons _ c F

/-- The layers on disk are those of the map, with the digests that
registrations give them. -/
structure LayersStored (H : Hash) (w : World) : Prop where
  lookup : ∀ k, w.store.layers.lookup k =
    (w.ls.layerMap.lookup k).map fun l => layerDir l.info l.parent
  diffID : ∀ l, w.ls.Live l → ∃ b, l.info.diffID = H.fromBytes b
  chainID : ∀ l, w.ls.Live l → ∃ b, l.chainID = H.fromBytes b

/-- The calls in flight have transactions of their own, and know what is in
them. -/
structure TxStored (w : World) (F : Multiset Call) : Prop where
  dir : ∀ c ∈ F, ∀ tx d, c.tx = some (tx, d) → w.store.tmp.lookup tx = some d
  distinct : (openTx F).Nodup

/-- What is on disk in a run without failures, with the calls `F` in
flight. -/
structure FsInv (H : Hash) (w : World) (F : Multiset Call) : Prop where
  ok : ∀ n op, (w.env n op).ok = true
  layers : LayersStored H w
  txs : TxStored w F
  mounts : ∀ n, (∀ c ∈ F, ∀ v, c.mount = some v → v.name ≠ n) →
    w.store.mounts.lookup n = (w.ls.mounts.lookup n).map mountDir

section

variable {H : Hash} {ff : Prop} {w w' : World} {c c' : Call} {F : Multiset Call}

namespace LayersStored

theorem of_eq (h : LayersStored H w) (h₁ : w'.ls.layerMap = w.ls.layerMap)
    (h₂ : w'.store.layers = w.store.layers) : LayersStored H w' := by
  have live {l} (hl : w'.ls.Live l) : w.ls.Live l := by rw [LayerStore.Live, ← h₁]; exact hl
  refine ⟨fun k => ?_, fun l hl => h.diffID l (live hl), fun l hl => h.chainID l (live hl)⟩
  rw [h₁, h₂]
  exact h.lookup k

/-- A layer that nothing holds goes from the map and from the disk. -/
theorem remove {l : RoLayer} (h : LayersStored H w)
    (h₁ : w'.ls.layerMap = w.ls.layerMap.erase l.chainID)
    (h₂ : w'.store.layers = w.store.layers.erase l.chainID) : LayersStored H w' := by
  have live {l'} (hl : w'.ls.Live l') : w.ls.Live l' := by
    rw [LayerStore.Live, h₁, Finmap.lookup_erase'] at hl
    split at hl
    · cases hl
    · exact hl
  refine ⟨fun k => ?_, fun l hl => h.diffID l (live hl), fun l hl => h.chainID l (live hl)⟩
  rw [h₁, h₂, Finmap.lookup_erase', Finmap.lookup_erase', h.lookup k]
  split <;> rfl

/-- The release of a layer, where nothing fails. -/
theorem releaseLayer {l : RoLayer} {K : Multiset RoLayer} (hr : RefInv w.ls (l ::ₘ K))
    (hok : ∀ n op, (w.env n op).ok = true) (h : LayersStored H w) :
    LayersStored H (w.releaseLayer l).2 := by
  refine (World.releaseLayer_rule (J := fun w' => (∀ n op, (w'.env n op).ok = true) ∧ LayersStored H w')
    (fun w' l' _ _ _ hJ => ⟨hJ.1, hJ.2.of_eq rfl rfl⟩) (fun w' l' _ _ _ hJ => ?_) hr ⟨hok, h⟩).2.2
  obtain ⟨hok, h⟩ := hJ
  rcases World.deleteLayer_cases (w'.unretain l') l' with ⟨hf, -⟩ | ⟨⟨hf, -⟩, -⟩ | ⟨hf, -⟩ | e
  · rw [show ((w'.unretain l').answer .driverRemove).ok = true from hok _ _] at hf
    cases hf
  · rw [show ((w'.unretain l').answer .driverRemove).ok = true from hok _ _] at hf
    cases hf
  · rw [show ((w'.unretain l').tick.answer .storeRemove).ok = true from hok _ _] at hf
    cases hf
  · rw [e]
    exact ⟨hok, h.remove rfl rfl⟩

/-- A new layer, with the directory of its transaction. -/
theorem publish {i : LayerInfo} {p : Option RoLayer} (h : LayersStored H w)
    (h₁ : w'.ls.layerMap = w.ls.layerMap.insert i.chainID (.make w.ls.nextPtr i p))
    (h₂ : w'.store.layers = w.store.layers.insert i.chainID (layerDir i p))
    (hd : ∃ b, i.diffID = H.fromBytes b) (hc : ∃ b, i.chainID = H.fromBytes b) : LayersStored H w' := by
  have live {l} (hl : w'.ls.Live l) : l = .make w.ls.nextPtr i p ∨ w.ls.Live l := by
    rw [LayerStore.Live, h₁, Finmap.lookup_insert'] at hl
    split at hl
    · exact .inl (Option.some.inj hl).symm
    · exact .inr hl
  refine ⟨fun k => ?_, fun l hl => ?_, fun l hl => ?_⟩
  · rw [h₁, h₂, Finmap.lookup_insert', Finmap.lookup_insert', h.lookup k]
    split
    · simp
    · rfl
  · rcases live hl with rfl | hl
    · simpa using hd
    · exact h.diffID l hl
  · rcases live hl with rfl | hl
    · simpa [RoLayer.chainID] using hc
    · exact h.chainID l hl

end LayersStored

namespace TxStored

variable {tx : String} {e : Dir}

theorem mem_openTx {d : Call} (hd : d ∈ F) (he : d.tx = some (tx, e)) : tx ∈ openTx F :=
  (Multiset.mem_filterMap _ _).mpr ⟨d, hd, by rw [he]; rfl⟩

theorem mem_tmp (h : TxStored w (c ::ₘ F)) (ht : tx ∈ openTx F) : tx ∈ w.store.tmp := by
  obtain ⟨d, hd, he⟩ := (Multiset.mem_filterMap _ _).mp ht
  obtain ⟨⟨t, e⟩, hte, rfl⟩ := Option.map_eq_some_iff.mp he
  exact Finmap.mem_of_lookup_eq_some (h.dir d (Multiset.mem_cons_of_mem hd) t e hte)

theorem distinct_cons (h : TxStored w (c ::ₘ F)) (hc : c.tx = some (tx, e)) :
    tx ∉ openTx F ∧ (openTx F).Nodup := by
  have hn := h.distinct
  rw [openTx_cons, hc, Option.map_some, holds, Multiset.singleton_add, Multiset.nodup_cons] at hn
  exact hn

/-- A step that does not touch the transactions. -/
theorem of_eq (h : TxStored w (c ::ₘ F)) (ht : w'.store.tmp = w.store.tmp) (hc : c'.tx = c.tx) :
    TxStored w' (c' ::ₘ F) := by
  refine ⟨fun d hd tx e he => ?_, by rw [openTx_cons, hc, ← openTx_cons]; exact h.distinct⟩
  rw [ht]
  rcases Multiset.mem_cons.mp hd with rfl | hd
  · exact h.dir c (Multiset.mem_cons_self ..) tx e (hc ▸ he)
  · exact h.dir d (Multiset.mem_cons_of_mem hd) tx e he

/-- A step on the transaction of the call, which has the directory `e`
then. -/
theorem write (h : TxStored w (c ::ₘ F)) (hc : c'.tx = some (tx, e)) (hnew : tx ∉ openTx F)
    (ht : w'.store.tmp = w.store.tmp.insert tx e) : TxStored w' (c' ::ₘ F) := by
  have hd := h.distinct
  rw [openTx_cons] at hd
  refine ⟨fun d hd t e' he => ?_, ?_⟩
  · rw [ht]
    rcases Multiset.mem_cons.mp hd with rfl | hd
    · cases hc.symm.trans he; exact Finmap.lookup_insert _
    · have hne : t ≠ tx := fun he' => hnew (he' ▸ mem_openTx hd he)
      rw [Finmap.lookup_insert_of_ne _ hne]
      exact h.dir d (Multiset.mem_cons_of_mem hd) t e' he
  · rw [openTx_cons, hc, Option.map_some, holds, Multiset.singleton_add, Multiset.nodup_cons]
    exact ⟨hnew, (Multiset.nodup_add.mp hd).2.1⟩

/-- The transaction of the call ends. -/
theorem finish (h : TxStored w (c ::ₘ F)) (hc : c.tx = some (tx, e)) (hc' : c'.tx = none)
    (ht : w'.store.tmp = w.store.tmp.erase tx) : TxStored w' (c' ::ₘ F) := by
  obtain ⟨hnew, hd⟩ := h.distinct_cons hc
  refine ⟨fun d hd t e' he => ?_, by rw [openTx_cons, hc', Option.map_none, holds, zero_add]; exact hd⟩
  rcases Multiset.mem_cons.mp hd with rfl | hd
  · rw [hc'] at he; cases he
  · have hne : t ≠ tx := fun he' => hnew (he' ▸ mem_openTx hd he)
    rw [ht, Finmap.lookup_erase', if_neg hne]
    exact h.dir d (Multiset.mem_cons_of_mem hd) t e' he

end TxStored

namespace FsInv

/-- A step that does not touch the mounts. -/
theorem mounts_of_eq (h : FsInv H w (c ::ₘ F)) (h₁ : w'.ls.mounts = w.ls.mounts)
    (h₂ : w'.store.mounts = w.store.mounts) (hc : c'.mount = c.mount) (n : String)
    (hn : ∀ d ∈ c' ::ₘ F, ∀ v, d.mount = some v → v.name ≠ n) :
    w'.store.mounts.lookup n = (w'.ls.mounts.lookup n).map mountDir := by
  rw [h₁, h₂]
  refine h.mounts n fun d hd v hv => ?_
  rcases Multiset.mem_cons.mp hd with rfl | hd
  · exact hn c' (Multiset.mem_cons_self ..) v (hc ▸ hv)
  · exact hn d (Multiset.mem_cons_of_mem hd) v hv

/-- A step of the holder of `mountL` on its mount. -/
theorem mounts_step (h : FsInv H w (c ::ₘ F)) {v v' : MountView} (hc : c.mount = some v)
    (hc' : c'.mount = some v') (hv : v'.name = v.name)
    (h₁ : ∀ n, n ≠ v.name → w'.ls.mounts.lookup n = w.ls.mounts.lookup n)
    (h₂ : ∀ n, n ≠ v.name → w'.store.mounts.lookup n = w.store.mounts.lookup n) (n : String)
    (hn : ∀ d ∈ c' ::ₘ F, ∀ v, d.mount = some v → v.name ≠ n) :
    w'.store.mounts.lookup n = (w'.ls.mounts.lookup n).map mountDir := by
  have hne : v.name ≠ n := hv ▸ hn c' (Multiset.mem_cons_self ..) v' hc'
  rw [h₁ n hne.symm, h₂ n hne.symm]
  refine h.mounts n fun d hd u hu => ?_
  rcases Multiset.mem_cons.mp hd with rfl | hd
  · cases hc.symm.trans hu; exact hne
  · exact hn d (Multiset.mem_cons_of_mem hd) u hu

/-- A step that touches neither the layers, the transactions nor the
mounts. -/
theorem of_eq (h : FsInv H w (c ::ₘ F)) (he : w'.env = w.env) (hm : w'.ls.layerMap = w.ls.layerMap)
    (hms : w'.ls.mounts = w.ls.mounts) (hs : w'.store = w.store) (ht : c'.tx = c.tx)
    (hv : c'.mount = c.mount) : FsInv H w' (c' ::ₘ F) :=
  ⟨he ▸ h.ok, h.layers.of_eq hm (by rw [hs]), h.txs.of_eq (by rw [hs]) ht,
    h.mounts_of_eq hms (by rw [hs]) hv⟩

/-- The release of a layer that is in hand. -/
theorem released (h : FsInv H w (c ::ₘ F)) {v : World} {l : RoLayer} {K : Multiset RoLayer}
    (hr : RefInv v.ls (l ::ₘ K)) (e₁ : v.ls.layerMap = w.ls.layerMap) (e₂ : v.rest = w.rest)
    (e₃ : v.store.layers = w.store.layers) (ht : c'.tx = c.tx) (hv : c'.mount = c.mount) :
    FsInv H (v.releaseLayer l).2 (c' ::ₘ F) := by
  have hrest := (World.releaseLayer_rest hr).trans e₂
  simp only [World.rest, Prod.mk.injEq] at hrest e₂
  obtain ⟨he, hm, -, htmp, hmounts, -⟩ := hrest
  refine ⟨he ▸ h.ok, ?_, h.txs.of_eq htmp ht, h.mounts_of_eq hm hmounts hv⟩
  exact (h.layers.of_eq e₁ e₃).releaseLayer hr (e₂.1 ▸ h.ok)

end FsInv

theorem FsInv.action (ha : Action H True (w, c) (w', c')) (hr : RefInv w.ls (inHand (c ::ₘ F)))
    (hl : LockInv w (c ::ₘ F)) (h : FsInv H w (c ::ₘ F)) : FsInv H w' (c' ::ₘ F) := by
  rw [inHand_cons] at hr
  cases ha with
  | skip | tick | generateRandomID | driverCreate | driverCreateMount | driverRemoveCreated | getParent
  | reference | driverRemoveMount =>
    exact h.of_eq rfl rfl rfl rfl rfl rfl
  | startTransaction hc new =>
    exact ⟨h.ok, h.layers.of_eq rfl rfl, h.txs.write rfl (fun ht => new (h.txs.mem_tmp ht)) rfl,
      h.mounts_of_eq rfl rfl rfl⟩
  | writeTx hc =>
    rename_i tx d f x
    refine ⟨h.ok, h.layers.of_eq rfl (MetadataStore.layers_writeTmp ..),
      h.txs.write rfl (h.txs.distinct_cons hc).1 ?_, h.mounts_of_eq rfl (MetadataStore.mounts_writeTmp ..) rfl⟩
    show (w.store.writeTmp tx f x).tmp = _
    rw [MetadataStore.writeTmp, h.txs.dir c (Multiset.mem_cons_self ..) tx d hc]
  | cancel hc =>
    exact ⟨h.ok, h.layers.of_eq rfl rfl, h.txs.finish hc rfl rfl, h.mounts_of_eq rfl rfl rfl⟩
  | releaseParent hc =>
    rw [hc, holds, Multiset.singleton_add] at hr
    exact h.released hr rfl rfl rfl rfl rfl
  | release hl' hr' =>
    exact h.released (v := { w with ls := _ }) (hr.deleteReference (hr.live_of_lookup hl') hr')
      rfl rfl rfl rfl rfl
  | publish hid hcr htx depth diffID chainID new hd hn =>
    rename_i tx i d
    obtain rfl : layerDir i c.parent = d :=
      Option.some.inj ((h.txs.dir c (Multiset.mem_cons_self ..) _ _ htx).symm.trans hd)
    exact ⟨h.ok, h.layers.publish rfl rfl diffID chainID, h.txs.finish htx rfl rfl,
      h.mounts_of_eq rfl rfl rfl⟩
  | lockMount name hc hL =>
    refine ⟨h.ok, h.layers.of_eq rfl rfl, h.txs.of_eq rfl rfl, fun n hn => h.mounts n fun d hd v hv => ?_⟩
    rcases Multiset.mem_cons.mp hd with rfl | hd
    · rw [hc] at hv; cases hv
    · exact hn d (Multiset.mem_cons_of_mem hd) v hv
  | unlockMount hc hv =>
    rename_i v
    refine ⟨h.ok, h.layers.of_eq rfl rfl, h.txs.of_eq rfl rfl, fun n hn => ?_⟩
    by_cases he : v.name = n
    · have hself := hl.view_self hc
      show w.store.mounts.lookup n = (w.ls.mounts.lookup n).map mountDir
      rw [← he, ← hself.1, ← hself.2]
      exact hv trivial
    · refine h.mounts n fun d hd u hu => ?_
      rcases Multiset.mem_cons.mp hd with rfl | hd
      · cases hc.symm.trans hu; exact he
      · exact hn d (Multiset.mem_cons_of_mem hd) u hu
  | references rs hc hm hn =>
    have hself := hl.lookup_self hc hm
    refine ⟨h.ok, h.layers.of_eq rfl rfl, h.txs.of_eq rfl rfl,
      h.mounts_step hc rfl rfl (fun n hne => ?_) fun _ _ => rfl⟩
    exact Finmap.lookup_insert_of_ne _ (hself.2 ▸ hne)
  | writeMount hc hm =>
    refine ⟨h.ok, h.layers.of_eq rfl rfl, h.txs.of_eq rfl rfl,
      h.mounts_step hc rfl rfl (fun _ _ => rfl) fun n hne => ?_⟩
    exact Finmap.lookup_insert_of_ne _ hne
  | mkdirMount hc hm =>
    refine ⟨h.ok, h.layers.of_eq rfl (MetadataStore.layers_mkdirMount ..), h.txs.of_eq ?_ rfl,
      h.mounts_step hc rfl rfl (fun _ _ => rfl) fun n hne => ?_⟩
    · exact MetadataStore.tmp_mkdirMount ..
    · exact (MetadataStore.lookup_mkdirMount ..).trans (if_neg hne)
  | publishMount hc hm hn hp hid hcr hi hd =>
    refine ⟨h.ok, h.layers.of_eq rfl rfl, h.txs.of_eq rfl rfl,
      h.mounts_step hc rfl rfl (fun n hne => ?_) fun _ _ => rfl⟩
    exact Finmap.lookup_insert_of_ne _ (hn ▸ hne)
  | removeMount hc hm =>
    have hself := hl.lookup_self hc hm
    refine ⟨h.ok, h.layers.of_eq rfl rfl, h.txs.of_eq rfl rfl,
      h.mounts_step hc rfl rfl (fun _ _ => rfl) fun n hne => ?_⟩
    exact Finmap.lookup_erase_ne (hself.2 ▸ hne)
  | deleteMount hc hm hp hd =>
    have hself := hl.lookup_self hc hm
    refine ⟨h.ok, h.layers.of_eq rfl rfl, h.txs.of_eq rfl rfl,
      h.mounts_step hc rfl rfl (fun n hne => ?_) fun _ _ => rfl⟩
    exact Finmap.lookup_erase_ne (hself.2 ▸ hne)

end

/-- In a run without failures, what is on disk is what the maps say. -/
theorem reaches_fsInv {H : Hash} {env : Nat → Op → Answer} {x : Config World Call} (hx : Reaches H env x)
    (hok : ∀ n op, (env n op).ok = true) : FsInv H x.1 x.calls := by
  refine reachable_inv_of (A := Assumes True) (R := Action H True) (D := Call.At none none)
    (K := fun w F => RefInv w.ls (inHand F) ∧ LockInv w F) (I := FsInv H) Request.follows
    (fun x hx => reaches_inv hx) (fun w F hK h _ => ⟨h.ok, fun hL n => ?_⟩) ?_ ?_ ?_ ?_ hx
  · exact h.mounts n fun c hc v hv => by rw [hK.2.none_of_unlocked hL c hc] at hv; cases hv
  · refine ⟨hok, ⟨fun _ => rfl, fun _ h => (by cases h), fun _ h => (by cases h)⟩,
      ?_, fun _ _ => rfl⟩
    exact ⟨fun _ h => absurd h (Multiset.notMem_zero _), Multiset.nodup_zero⟩
  · intro w F h
    refine ⟨h.ok, h.layers, ⟨fun c hc tx d ht => ?_, ?_⟩, fun n hn => h.mounts n fun c hc => ?_⟩
    · rcases Multiset.mem_cons.mp hc with rfl | hc
      · cases ht
      · exact h.txs.dir c hc tx d ht
    · rw [openTx_cons, Option.map_none, holds, zero_add]
      exact h.txs.distinct
    · exact hn c (Multiset.mem_cons_of_mem hc)
  · intro w c F hD h
    refine ⟨h.ok, h.layers, ⟨fun d hd => h.txs.dir d (Multiset.mem_cons_of_mem hd), ?_⟩, fun n hn =>
      h.mounts n fun d hd v hv => ?_⟩
    · have := h.txs.distinct
      rw [openTx_cons] at this
      exact (Multiset.nodup_add.mp this).2.1
    · rcases Multiset.mem_cons.mp hd with rfl | hd
      · rw [hD.2] at hv; cases hv
      · exact hn d hd v hv
  · intro w c w' c' F hK _ ha h
    exact h.action ha hK.1 hK.2

end Moby.Layer
