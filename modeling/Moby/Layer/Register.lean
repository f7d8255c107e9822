import Moby.Layer.Failing

/-!
# What a failed registration leaves

A registration that runs alone while one step of it fails (`FailsOnly`), and
what it does then (`Registers`): it leaves everything as it was, except that a
driver layer stays if the step that fails comes before the clean-up is in place
(`LeavesLayer`), and that the release of a parent which nothing else holds
deletes it (`register_undone_iff`).
-/

namespace Moby.Layer

open Moby.Framework Moby.Digest

/-! ## The steps on a transaction -/

/-- The worlds differ in the clock and in the transaction `tx` only. -/
structure TmpOnly (tx : String) (w w' : World) : Prop where
  env : w'.env = w.env
  ls : w'.ls = w.ls
  driver : w'.driver = w.driver
  layers : w'.store.layers = w.store.layers
  mounts : w'.store.mounts = w.store.mounts
  tmp : w'.store.tmp.erase tx = w.store.tmp.erase tx
  mem : tx ∈ w.store.tmp → tx ∈ w'.store.tmp

namespace TmpOnly

variable {tx : String}

instance : WorldFrame (TmpOnly tx) where
  refl _ := ⟨rfl, rfl, rfl, rfl, rfl, rfl, fun h => h⟩
  trans _ _ _ h₁ h₂ := ⟨h₂.env.trans h₁.env, h₂.ls.trans h₁.ls, h₂.driver.trans h₁.driver,
    h₂.layers.trans h₁.layers, h₂.mounts.trans h₁.mounts, h₂.tmp.trans h₁.tmp, fun h => h₂.mem (h₁.mem h)⟩
  env _ _ h := h.env
  tick _ := ⟨rfl, rfl, rfl, rfl, rfl, rfl, fun h => h⟩

theorem writeTmp (w : World) (f : FileName) (x : File) :
    TmpOnly tx w { w.tick with store := w.store.writeTmp tx f x } := by
  refine ⟨rfl, rfl, rfl, MetadataStore.layers_writeTmp .., MetadataStore.mounts_writeTmp .., ?_,
    fun h => ?_⟩
  · unfold MetadataStore.writeTmp
    split
    · rfl
    · exact Finmap.erase_insert ..
  · unfold MetadataStore.writeTmp
    split
    · exact h
    · exact Finmap.mem_insert.mpr (.inl rfl)

end TmpOnly

/-- The steps of `storeLayer`. -/
def storeOps (parent : Option RoLayer) (descriptor : Descriptor) : List Op :=
  .setDiffID :: .setSize :: .setCacheID :: (if descriptor.digest ≠ "" then [.setDescriptor] else []) ++
    if parent.isSome then [.setParent] else []

/-- The steps on the transaction of a registration, but for its commit. -/
def transactionOps (parent : Option RoLayer) (descriptor : Descriptor) : List Op :=
  [.tarSplitWriter, .newInputTarStream, .applyDiff] ++ storeOps parent descriptor

theorem mem_transactionOps {parent : Option RoLayer} {descriptor : Descriptor} {o : Op} :
    o ∈ transactionOps parent descriptor ↔
      o ∈ [.tarSplitWriter, .newInputTarStream, .applyDiff] ∨ o ∈ storeOps parent descriptor :=
  List.mem_append

namespace Tries

variable {f : Option Op} {tx : String}

theorem writeTx {op : Op} {file : FileName} {x : File} :
    Tries (TmpOnly tx) f [op] (Layer.writeTx op tx file x) fun _ => True := by
  show Tries (TmpOnly tx) f ([op] ++ []) _ _
  refine bind (ask (fun w _ _ => TmpOnly.writeTmp w file x) fun w _ a => ?_) fun _ _ => pure trivial
  cases a.left with
  | nothing => exact WorldFrame.tick w
  | directory => exact WorldFrame.tick w
  | truncated t => exact TmpOnly.writeTmp w file (.text t)

theorem applyTar {H : Hash} {ts : List UInt8} :
    Tries (TmpOnly tx) f [.tarSplitWriter, .newInputTarStream, .applyDiff] (applyTar H tx ts)
      fun a => a.1 = H.fromBytes ts :=
  writeTx.bind fun _ _ => noEffect.bind fun _ _ => noEffect.bind fun _ _ => pure rfl

theorem storeParent {parent : Option RoLayer} : Tries (TmpOnly tx) f (if parent.isSome then [.setParent] else [])
    (match parent with
      | none => Pure.pure ()
      | some p => Layer.writeTx .setParent tx .parent (.text p.chainID)) fun _ => True := by
  cases parent with
  | none => exact pure trivial
  | some p => exact writeTx

theorem storeLayer {i : LayerInfo} {parent : Option RoLayer} :
    Tries (TmpOnly tx) f (storeOps parent i.descriptor) (storeLayer tx i parent) fun _ => True := by
  unfold Layer.storeLayer storeOps
  refine writeTx.bind fun _ _ => writeTx.bind fun _ _ => writeTx.bind fun _ _ => ?_
  by_cases hd : i.descriptor.digest = ""
  · simp only [hd, ne_eq, not_true_eq_false, if_false]
    exact storeParent
  · simp only [hd, ne_eq, not_false_eq_true, if_true]
    exact writeTx.bind fun _ _ => storeParent

end Tries

/-! ## A registration on its parent -/

/-- The step that fails leaves the driver layer of a registration: it has been
made, or it is made all the same, and is not removed. -/
def LeavesLayer (f : Option Op) (w : World) : Prop :=
  f = some .startTransaction ∨ f = some .driverCreate ∧ (w.tick.answer .driverCreate).done = true

/-- What a registration on `parent` does, and when, if the steps `f` fail. -/
inductive Registers (H : Hash) (f : Option Op) (ts : List UInt8) (parent : Option RoLayer)
    (descriptor : Descriptor) (w : World) : Except Err LayerRef → World → Prop
  | driverCreate {w'} (hf : f = some .driverCreate) (hd : (w.tick.answer .driverCreate).done = false) (hw : Same w w') :
    Registers H f ts parent descriptor w (.error (.failed .driverCreate)) w'
  | layerLeft {w' id o} (hf : LeavesLayer f w) (new : id ∉ w.driver)
    (hw : Same { w with driver := insert id w.driver } w') :
    Registers H f ts parent descriptor w (.error (.failed o)) w'
  | transaction {w' o} (hf : f = some o) (ho : o ∈ transactionOps parent descriptor) (hw : Same w w') :
    Registers H f ts parent descriptor w (.error (.failed o)) w'
  | found {w' l h} (hf : ∀ o ∈ .driverCreate :: .startTransaction :: transactionOps parent descriptor,
      f ≠ some o) (hl : w.ls.layerMap.lookup (layerChainID H (H.fromBytes ts) parent) = some l)
    (hw : Same { w with ls := ((w.ls.retain l).getReference l).2 } w') :
    Registers H f ts parent descriptor w (.error (.layerAlreadyExists h)) w'
  | commit {w'} (hf : ∀ o ∈ .driverCreate :: .startTransaction :: transactionOps parent descriptor,
      f ≠ some o) (hl : layerChainID H (H.fromBytes ts) parent ∉ w.ls.layerMap)
    (hc : f = some .commit ∨ layerChainID H (H.fromBytes ts) parent ∈ w.store.layers) (hw : Same w w') :
    Registers H f ts parent descriptor w (.error (.failed .commit)) w'
  | published {w' h} (hf : ∀ o ∈ .driverCreate :: .startTransaction :: transactionOps parent descriptor,
      f ≠ some o) (hl : layerChainID H (H.fromBytes ts) parent ∉ w.ls.layerMap) (hc : f ≠ some .commit)
    (hs : layerChainID H (H.fromBytes ts) parent ∉ w.store.layers) :
    Registers H f ts parent descriptor w (.ok h) w'

section

variable {H : Hash} {f : Option Op} {ts : List UInt8} {descriptor : Descriptor} {w : World} {c : Call}

theorem cleanup_triple {cacheID tx : String} (hf : FailsOnly w.env f) (hr : f ≠ some .driverRemove)
    (hc : f ≠ some .cancel) : Triple (cleanup cacheID tx) (w, c) fun _ s =>
      Same { w with
        driver := w.driver.erase cacheID
        store := { w.store with tmp := w.store.tmp.erase tx } } s.1 := by
  refine Triple.bind (ask_triple hf (fun _ _ => ?_) fun h => absurd h hr)
  refine Triple.bind (ask_triple (by exact hf) (fun _ _ => ?_) fun h => absurd h hc)
  exact Triple.ret ⟨rfl, rfl, rfl, rfl⟩

variable {parent : Option RoLayer} {cacheID tx : String}

/-- What the critical section at the end of a registration does. -/
theorem publish_triple {i : LayerInfo} (hf : FailsOnly w.env f) (htx : tx ∈ w.store.tmp) :
    Triple (publish tx i parent).run (w, c) fun r s => match r with
      | .ok _ => i.chainID ∉ w.ls.layerMap ∧ f ≠ some .commit ∧ i.chainID ∉ w.store.layers
      | .error e => (∃ l h, w.ls.layerMap.lookup i.chainID = some l ∧ e = .layerAlreadyExists h ∧
          s.1 = { w with ls := ((w.ls.retain l).getReference l).2 }) ∨
        i.chainID ∉ w.ls.layerMap ∧ (f = some .commit ∨ i.chainID ∈ w.store.layers) ∧
          e = .failed .commit ∧ s.1 = w.tick := by
  refine Triple.step fun r s h => ?_
  cases hl : w.ls.layerMap.lookup i.chainID with
  | some l =>
    simp only [LayerStore.getWithoutLock, hl] at h
    cases h
    exact .inl ⟨l, _, rfl, rfl, rfl⟩
  | none =>
    have hnew := Finmap.lookup_eq_none.mp hl
    simp only [LayerStore.getWithoutLock, hl] at h
    obtain ⟨d, hd⟩ := Option.isSome_iff_exists.mp (Finmap.lookup_isSome.mpr htx)
    by_cases hs : i.chainID ∈ w.store.layers
    · simp only [World.commit, hd, hs, if_true] at h
      cases h
      exact .inr ⟨hnew, .inr hs, rfl, rfl⟩
    · have hop : (w.answer .commit).ok = false ↔ f = some .commit := hf w.clock .commit
      cases hok : (w.answer .commit).ok with
      | false =>
        simp only [World.commit, World.request, hd, hs, if_false, hok] at h
        cases h
        exact .inr ⟨hnew, .inl (hop.mp hok), rfl, rfl⟩
      | true =>
        simp only [World.commit, World.request, hd, hs, if_false, hok, if_true] at h
        cases h
        exact ⟨hnew, fun e => (by rw [hop.mpr e] at hok; cases hok), hs⟩

/-- What the part of a registration in its transaction does. -/
theorem registerIn_triple (hf : FailsOnly w.env f) (htx : tx ∈ w.store.tmp) :
    Triple (registerIn H ts parent descriptor cacheID tx).run (w, c) fun r s => match r with
      | .ok _ => (∀ o ∈ transactionOps parent descriptor, f ≠ some o) ∧
        layerChainID H (H.fromBytes ts) parent ∉ w.ls.layerMap ∧ f ≠ some .commit ∧
        layerChainID H (H.fromBytes ts) parent ∉ w.store.layers
      | .error e => ∃ w₁, TmpOnly tx w w₁ ∧
        ((∃ o ∈ transactionOps parent descriptor, f = some o ∧ e = .failed o ∧ s.1 = w₁) ∨
        (∀ o ∈ transactionOps parent descriptor, f ≠ some o) ∧
          ((∃ l h, w.ls.layerMap.lookup (layerChainID H (H.fromBytes ts) parent) = some l ∧
            e = .layerAlreadyExists h ∧ s.1 = { w₁ with ls := ((w.ls.retain l).getReference l).2 }) ∨
          layerChainID H (H.fromBytes ts) parent ∉ w.ls.layerMap ∧
            (f = some .commit ∨ layerChainID H (H.fromBytes ts) parent ∈ w.store.layers) ∧
            e = .failed .commit ∧ s.1 = w₁.tick)) := by
  refine Triple.bindE ((Tries.applyTar w c hf).mono fun r s hr => ?_)
  obtain ⟨h₁, hr⟩ := hr
  cases r with
  | error e =>
    obtain ⟨o, ho, hfo, rfl⟩ := hr
    exact ⟨s.1, h₁, .inl ⟨o, mem_transactionOps.mpr (.inl ho), hfo, rfl, rfl⟩⟩
  | ok a =>
    obtain ⟨diffID, size⟩ := a
    obtain ⟨rfl, hops⟩ := hr
    refine Triple.bindE ((Tries.storeLayer s.1 s.2 (h₁.env ▸ hf)).mono fun r s₂ hr => ?_)
    obtain ⟨h₂, hr⟩ := hr
    have h₂ := WorldFrame.trans _ _ _ h₁ h₂
    cases r with
    | error e =>
      obtain ⟨o, ho, hfo, rfl⟩ := hr
      exact ⟨s₂.1, h₂, .inl ⟨o, mem_transactionOps.mpr (.inr ho), hfo, rfl, rfl⟩⟩
    | ok _ =>
      have hall : ∀ o ∈ transactionOps parent descriptor, f ≠ some o := fun o ho =>
        (mem_transactionOps.mp ho).elim (hops o) (hr.2 o)
      refine (publish_triple (h₂.env ▸ hf) (h₂.mem htx)).mono fun r s₃ hr => ?_
      rw [h₂.ls, h₂.layers] at hr
      cases r with
      | ok _ => exact ⟨hall, hr⟩
      | error e => exact ⟨s₂.1, h₂, .inr ⟨hall, hr⟩⟩

theorem driverCreate_triple {id : String} (hf : FailsOnly w.env f) :
    Triple (driverCreate id).run (w, c) fun r s => match r with
      | .ok _ => f ≠ some .driverCreate ∧ Same { w with driver := insert id w.driver } s.1
      | .error e => f = some .driverCreate ∧ e = .failed .driverCreate ∧
        Same (if (w.answer .driverCreate).done then { w with driver := insert id w.driver } else w) s.1 := by
  refine Triple.bindE (ask_triple hf (fun _ h => Triple.ret ⟨h, rfl, rfl, rfl, rfl⟩) fun h => ⟨h, rfl, ?_⟩)
  unfold ifDone
  split <;> exact ⟨rfl, rfl, rfl, rfl⟩

theorem startTransaction_triple (hf : FailsOnly w.env f) :
    Triple startTransaction.run (w, c) fun r s => match r with
      | .ok tx => f ≠ some .startTransaction ∧ tx ∉ w.store.tmp ∧
        Same { w with store := { w.store with tmp := w.store.tmp.insert tx ∅ } } s.1
      | .error e => f = some .startTransaction ∧ e = .failed .startTransaction ∧ Same w s.1 := by
  have hop : (w.answer .startTransaction).ok = false ↔ f = some .startTransaction := hf w.clock _
  refine Triple.step fun r s h => ?_
  simp only at h
  split at h
  · rename_i hok
    cases h
    exact ⟨hop.mp (by simpa using hok), rfl, rfl, rfl, rfl, rfl⟩
  · rename_i hok
    split at h
    · cases h
    · rename_i htx
      cases h
      exact ⟨fun e => hok (by simp [hop.mpr e]), htx, rfl, rfl, rfl, rfl⟩

/-- What a registration on its parent does. -/
theorem registerOn_triple (hf : FailsOnly w.env f) (hr : f ≠ some .driverRemove)
    (hc : f ≠ some .cancel) (hd : ∀ x ∈ w.driver, ∀ id, IsRandomID id → Names id x → id ∈ w.issued) :
    Triple (registerOn H ts parent descriptor).run (w, c) fun r s =>
      Registers H f ts parent descriptor w r s.1 := by
  refine Triple.bindE (generateRandomID_triple.mono fun r s₁ h₁ => ?_)
  obtain ⟨id, rfl, hid, new, h₁, hclock⟩ := h₁
  have new : id ∉ w.driver := fun h => new (hd _ h _ hid (.inl rfl))
  refine Triple.bindE ((driverCreate_triple (h₁.env ▸ hf)).mono fun r s₂ h₂ => ?_)
  cases r with
  | error e =>
    obtain ⟨hf₂, rfl, h₂⟩ := h₂
    have hanswer : s₁.1.answer .driverCreate = w.tick.answer .driverCreate := by
      simp only [World.answer, World.tick, h₁.env, hclock]
    rw [hanswer] at h₂
    split at h₂
    · rename_i hdone
      exact .layerLeft (.inr ⟨hf₂, hdone⟩) new (h₁.insertDriver.trans h₂)
    · rename_i hdone
      exact .driverCreate hf₂ (by simpa using hdone) (h₁.trans h₂)
  | ok _ =>
    obtain ⟨hf₂, h₂⟩ := h₂
    have h₂ : Same { w with driver := insert id w.driver } s₂.1 := h₁.insertDriver.trans h₂
    refine Triple.bindE ((startTransaction_triple (h₂.env ▸ hf)).mono fun r s₃ h₃ => ?_)
    cases r with
    | error e =>
      obtain ⟨hf₃, rfl, h₃⟩ := h₃
      exact .layerLeft (.inl hf₃) new (h₂.trans h₃)
    | ok tx =>
      obtain ⟨hf₃, htx, h₃⟩ := h₃
      rw [h₂.store] at htx
      have hstore := h₃.store
      simp only [h₂.store] at hstore
      have henv := h₃.env.trans h₂.env
      have hls := h₃.ls.trans h₂.ls
      have hdriver := h₃.driver.trans h₂.driver
      have hstart {ops : List Op} (hops : ∀ o ∈ ops, f ≠ some o) :
          ∀ o ∈ .driverCreate :: .startTransaction :: ops, f ≠ some o := by
        intro o ho
        rcases List.mem_cons.mp ho with rfl | ho
        · exact hf₂
        · rcases List.mem_cons.mp ho with rfl | ho
          · exact hf₃
          · exact hops o ho
      refine Triple.onError ((registerIn_triple (henv ▸ hf) ?_).mono fun r s₄ h₄ => ?_)
      · rw [hstore]; exact Finmap.mem_insert.mpr (.inl rfl)
      · rw [hls, hstore] at h₄
        cases r with
        | ok h =>
          obtain ⟨hops, hl, hcm, hs⟩ := h₄
          exact .published (hstart hops) hl hcm hs
        | error e =>
          obtain ⟨w₄, htmp, h₄⟩ := h₄
          -- after the clean-up nothing is left but what the critical section changed
          have undo {ls : LayerStore} (h₅ : Same { w₄ with ls } s₄.1) :
              Triple (cleanup id tx) s₄ fun _ s => Same { w with ls } s.1 := by
            have henv₅ := (h₅.env.trans htmp.env).trans henv
            refine (cleanup_triple (henv₅ ▸ hf) hr hc).mono fun _ s h => ?_
            refine ⟨h.env.trans henv₅, h.ls.trans h₅.ls, ?_, ?_⟩
            · rw [h.driver, h₅.driver, htmp.driver, hdriver, Finset.erase_insert new]
            · have ht := htmp.tmp
              rw [hstore, Finmap.erase_insert, Finmap.erase_of_notMem htx] at ht
              simp only [h.store, h₅.store, ht, htmp.layers, htmp.mounts, hstore]
          rcases h₄ with ⟨o, ho, hfo, rfl, e⟩ | ⟨hops, ⟨l, h, hl, rfl, e⟩ | ⟨hl, hcm, rfl, e⟩⟩
          · have h₅ : Same { w₄ with ls := w.ls } s₄.1 := by rw [e]; exact ⟨rfl, htmp.ls.trans hls, rfl, rfl⟩
            exact (undo h₅).mono fun _ s h => Registers.transaction hfo ho h
          · have h₅ : Same { w₄ with ls := ((w.ls.retain l).getReference l).2 } s₄.1 := by
              rw [e]; exact ⟨rfl, rfl, rfl, rfl⟩
            exact (undo h₅).mono fun _ s h' => Registers.found (hstart hops) hl h'
          · have h₅ : Same { w₄ with ls := w.ls } s₄.1 := by rw [e]; exact ⟨rfl, htmp.ls.trans hls, rfl, rfl⟩
            exact (undo h₅).mono fun _ s h => Registers.commit (hstart hops) hl hcm h

end

/-! ## Registrations -/

/-- The parent is not too deep for a layer on it. -/
def DepthOK (p : Option RoLayer) : Prop := ∀ l, p = some l → l.depth < maxLayerDepth

section

variable {H : Hash} {f : Option Op} {ts : List UInt8} {descriptor : Descriptor} {w : World}
  {parent : ChainID}

/-- What a registration does. -/
theorem registerOrUndo_triple (hf : FailsOnly w.env f) (hr : f ≠ some .driverRemove)
    (hc : f ≠ some .cancel) (hd : ∀ x ∈ w.driver, ∀ id, IsRandomID id → Names id x → id ∈ w.issued) :
    Triple (registerOrUndo H ts parent descriptor).run (w, {}) fun r s =>
      parentOf w.ls parent = none ∧ r = .error .layerDoesNotExist ∧ s.1 = w ∨
      ∃ p w₁, parentOf w.ls parent = some p ∧ s.1 = afterRelease r p w₁ ∧
        (¬ DepthOK p ∧ r = .error .maxDepthExceeded ∧ w₁ = retained w p ∨
        DepthOK p ∧ Registers H f ts p descriptor (retained w p) r w₁) := by
  refine (onParent_triple (Q := fun p r w₁ => ¬ DepthOK p ∧ r = .error .maxDepthExceeded ∧ w₁ = retained w p ∨
    DepthOK p ∧ Registers H f ts p descriptor (retained w p) r w₁)
    ((registerOn_triple hf hr hc hd).mono fun r s h => .inr ⟨nofun, h⟩) fun p c' _ => ?_).mono fun r s h => ?_
  · split
    · rename_i hdepth
      refine Triple.ret (a := (.error .maxDepthExceeded : Except Err LayerRef))
        (.inl ⟨fun h => ?_, rfl, rfl⟩)
      have := h p rfl
      omega
    · rename_i hdepth
      refine (registerOn_triple (by exact hf) hr hc (by exact hd)).mono fun r s h => .inr ⟨?_, h⟩
      intro l hl
      cases hl
      omega
  · rcases h with h | ⟨p, w₁, hp, hQ, hs⟩
    · exact .inl h
    · exact .inr ⟨p, w₁, hp, hs, hQ⟩

/-- What a registration that publishes no layer should leave as it was: the
layers of the driver, the open transactions, the committed metadata, the keys
of the layer map, and the reference count of the parent. -/
structure Unchanged (parent : ChainID) (w w' : World) : Prop where
  driver : w'.driver = w.driver
  tmp : ∀ tx, tx ∈ w'.store.tmp ↔ tx ∈ w.store.tmp
  layers : w'.store.layers = w.store.layers
  layerMap : ∀ k, k ∈ w'.ls.layerMap ↔ k ∈ w.ls.layerMap
  parent : ∀ p, parentOf w.ls parent = some (some p) → w'.ls.referenceCount p = w.ls.referenceCount p

/-- No step before the commit of a registration on `p` fails. -/
def Completes (f : Option Op) (descriptor : Descriptor) (p : Option RoLayer) : Prop :=
  DepthOK p ∧ ∀ o ∈ .driverCreate :: .startTransaction :: transactionOps p descriptor, f ≠ some o

/-- A registration on `p` publishes its layer. -/
def Publishes (H : Hash) (f : Option Op) (ts : List UInt8) (descriptor : Descriptor) (w : World)
    (p : Option RoLayer) : Prop :=
  Completes f descriptor p ∧ f ≠ some .commit ∧ layerChainID H (H.fromBytes ts) p ∉ w.ls.layerMap ∧
    layerChainID H (H.fromBytes ts) p ∉ w.store.layers

/-- When a registration on `p` that publishes no layer leaves nothing: the step
that fails does not leave its driver layer, something else holds the parent, and
the layer it finds there already is not the parent itself. -/
structure Undone (H : Hash) (f : Option Op) (ts : List UInt8) (descriptor : Descriptor) (w : World)
    (p : Option RoLayer) : Prop where
  transaction : DepthOK p → ¬ LeavesLayer f w
  held : ∀ l, p = some l → ¬ Publishes H f ts descriptor w p → 0 < w.ls.referenceCount l
  chainID : ∀ l, p = some l → Completes f descriptor p →
    layerChainID H (H.fromBytes ts) p ≠ l.chainID

/-- The release of the parent leaves everything as it was if only the
reference of the registration is let go. -/
theorem unchanged_release {K : Multiset RoLayer} {w₁ : World} {l : RoLayer} (hf : FailsOnly w₁.env f)
    (hr : f ≠ some .driverRemove) (hs : f ≠ some .storeRemove) (h : RefInv w₁.ls (l ::ₘ K))
    (hl : parentOf w.ls parent = some (some l)) (hkey : l.chainID = parent)
    (hmap : w₁.ls.layerMap = w.ls.layerMap) :
    Unchanged parent w (w₁.releaseLayer l).2 ↔
      w₁.driver = w.driver ∧ (∀ tx, tx ∈ w₁.store.tmp ↔ tx ∈ w.store.tmp) ∧
      w₁.store.layers = w.store.layers ∧ w₁.ls.referenceCount l = w.ls.referenceCount l + 1 ∧
      0 < w.ls.referenceCount l := by
  have hlive := h.held l (Multiset.mem_cons_self ..)
  have hpos : 0 < w₁.ls.referenceCount l := by
    rw [h.count l hlive, Multiset.count_cons_self]; omega
  by_cases hc : w₁.ls.referenceCount l = 1
  · have hgone := releaseLayer_of_unheld h hc (hf.ok hr) (hf.ok hs)
    have hmem : l.chainID ∈ w.ls.layerMap := by
      rw [hkey]; exact Finmap.mem_of_lookup_eq_some (parentOf_some hl)
    exact ⟨fun hu => absurd ((hu.layerMap _).mpr hmem) hgone, fun hu => by omega⟩
  · rw [releaseLayer_of_held h (by omega)]
    have hcount := World.referenceCount_unretain w₁.ls l
    constructor
    · rintro ⟨hd, ht, hla, hm, hp⟩
      have := hp l hl
      refine ⟨hd, ht, hla, ?_⟩
      simp only [World.unretain_ls] at this
      omega
    · rintro ⟨hd, ht, hla, hc', hp⟩
      refine ⟨hd, ht, hla, fun k => by rw [← hmap]; rfl, fun q hq => ?_⟩
      cases hl.symm.trans hq
      simp only [World.unretain_ls]
      omega

/-- The steps within the transaction are undone. -/
theorem not_leavesLayer_of_mem {p : Option RoLayer} {o : Op} (hf : f = some o) (ho : o ∈ transactionOps p descriptor) :
    ¬ LeavesLayer f w := by
  rw [hf]
  rintro (h | ⟨h, -⟩) <;> cases h <;> revert ho <;> simp only [transactionOps, storeOps] <;> split <;> split <;> simp

theorem not_leavesLayer_of_all {ops : List Op} (hf : ∀ o ∈ .driverCreate :: .startTransaction :: ops, f ≠ some o) :
    ¬ LeavesLayer f w := by
  rintro (h | ⟨h, -⟩)
  · exact hf _ (by simp) h
  · exact hf _ (by simp) h

theorem not_leavesLayer_of_driverCreate (hf : f = some .driverCreate)
    (hd : (w.tick.answer .driverCreate).done = false) : ¬ LeavesLayer f w := by
  rintro (h | ⟨-, h⟩)
  · cases hf.symm.trans h
  · exact absurd h (Bool.eq_false_iff.mp hd)

/-- What a registration without a parent that published no layer left. -/
theorem unchanged_iff_undone_none {e : Err} {w₁ : World} (hp : parentOf w.ls parent = some none)
    (h : Registers H f ts none descriptor w (.error e) w₁) :
    Unchanged parent w w₁ ↔ Undone H f ts descriptor w none := by
  have same (hd : w₁.driver = w.driver) (hs : w₁.store = w.store)
      (hm : w₁.ls.layerMap = w.ls.layerMap) : Unchanged parent w w₁ :=
    ⟨hd, fun _ => by rw [hs], by rw [hs], fun _ => by rw [hm], fun q hq => by rw [hp] at hq; cases hq⟩
  have undone (hst : ¬ LeavesLayer f w) : Undone H f ts descriptor w none :=
    ⟨fun _ => hst, nofun, nofun⟩
  cases h with
  | driverCreate hf hd hw =>
    exact iff_of_true (same hw.driver hw.store (by rw [hw.ls])) (undone (not_leavesLayer_of_driverCreate hf hd))
  | layerLeft hf new hw =>
    refine iff_of_false (fun hu => ?_) fun hu => hu.transaction nofun hf
    have := hw.driver.symm.trans hu.driver
    exact new (this ▸ Finset.mem_insert_self _ _)
  | transaction hf ho hw =>
    exact iff_of_true (same hw.driver hw.store (by rw [hw.ls])) (undone (not_leavesLayer_of_mem hf ho))
  | found hf hl hw =>
    exact iff_of_true (same hw.driver hw.store (by rw [hw.ls]; rfl)) (undone (not_leavesLayer_of_all hf))
  | commit hf hl hc hw =>
    exact iff_of_true (same hw.driver hw.store (by rw [hw.ls])) (undone (not_leavesLayer_of_all hf))

/-- What a registration on `l` that published no layer left. -/
theorem unchanged_iff_undone_some {K : Multiset RoLayer} {l : RoLayer} {e : Err} {w₁ : World}
    (hw : RefInv w.ls K) (hf : FailsOnly w.env f) (hr : f ≠ some .driverRemove)
    (hs : f ≠ some .storeRemove) (hp : parentOf w.ls parent = some (some l)) (hd : DepthOK (some l))
    (h : Registers H f ts (some l) descriptor (retained w (some l)) (.error e) w₁) :
    Unchanged parent w (w₁.releaseLayer l).2 ↔ Undone H f ts descriptor w (some l) := by
  have hlook := parentOf_some hp
  have hlive := hw.live_of_lookup hlook
  have hkey := hw.key _ _ hlook
  have hret := hw.retain hlive
  have hcount := referenceCount_retain w.ls l
  -- the outcomes after which only the reference of the registration is left
  have same (hw₁ : Same (retained w (some l)) w₁) :
      Unchanged parent w (w₁.releaseLayer l).2 ↔ 0 < w.ls.referenceCount l := by
    have hls : w₁.ls = w.ls.retain l := hw₁.ls
    rw [unchanged_release (K := K) (hw₁.env ▸ hf) hr hs (hls ▸ hret) hp hkey (by rw [hls]; rfl), hls, hcount]
    exact ⟨fun h => h.2.2.2.2,
      fun h => ⟨hw₁.driver, fun _ => by rw [hw₁.store]; rfl, by rw [hw₁.store]; rfl, rfl, h⟩⟩
  have undone (hst : ¬ LeavesLayer f w)
      (hno : ¬ Publishes H f ts descriptor w (some l))
      (hch : Completes f descriptor (some l) →
        layerChainID H (H.fromBytes ts) (some l) ≠ l.chainID) :
      0 < w.ls.referenceCount l ↔ Undone H f ts descriptor w (some l) :=
    ⟨fun h => ⟨fun _ => hst, fun l' hl' _ => by cases hl'; exact h, fun l' hl' => by cases hl'; exact hch⟩,
      fun h => h.held l rfl hno⟩
  cases h with
  | driverCreate hfo hdone hw =>
    refine (same hw).trans (undone (not_leavesLayer_of_driverCreate hfo hdone) (fun h => ?_) fun h => ?_)
    · exact h.1.2 _ (by simp) hfo
    · exact absurd hfo (h.2 _ (by simp))
  | layerLeft hfo new hw =>
    refine iff_of_false (fun hu => ?_) fun hu => hu.transaction hd hfo
    have hls : w₁.ls = w.ls.retain l := hw.ls
    rw [unchanged_release (K := K) (hw.env ▸ hf) hr hs (hls ▸ hret) hp hkey (by rw [hls]; rfl)] at hu
    exact new ((hw.driver.symm.trans hu.1) ▸ Finset.mem_insert_self _ _)
  | transaction hfo ho hw =>
    refine (same hw).trans (undone (not_leavesLayer_of_mem hfo ho) (fun h => ?_) fun h => ?_)
    · exact h.1.2 _ (List.mem_cons_of_mem _ (List.mem_cons_of_mem _ ho)) hfo
    · exact absurd hfo (h.2 _ (List.mem_cons_of_mem _ (List.mem_cons_of_mem _ ho)))
  | found hfo hl' hw' =>
    rename_i l' _
    have hl' : w.ls.layerMap.lookup (layerChainID H (H.fromBytes ts) (some l)) = some l' := hl'
    have hlive' := hw.live_of_lookup hl'
    have hls : w₁.ls = (((w.ls.retain l).retain l').getReference l').2 := hw'.ls
    have hinv : RefInv w₁.ls (l ::ₘ K) := hls ▸ (hret.retain hlive').getReference
    have hcount' : w₁.ls.referenceCount l = w.ls.referenceCount l + 1 + if l' = l then 1 else 0 := by
      rw [hls, referenceCount_reference hret hlive hlive', hcount]
    have hid : layerChainID H (H.fromBytes ts) (some l) = l.chainID ↔ l' = l :=
      ⟨fun e => by rw [e] at hl'; exact Option.some.inj (hl'.symm.trans hlive),
        fun e => by rw [← hw.key _ _ hl', e]⟩
    rw [unchanged_release (K := K) (hw'.env ▸ hf) hr hs hinv hp hkey (by rw [hls]; rfl), hcount']
    constructor
    · rintro ⟨-, -, -, hc, hpos⟩
      refine (undone (not_leavesLayer_of_all hfo) (fun h => h.2.2.1 (Finmap.mem_of_lookup_eq_some hl'))
        fun _ e => ?_).mp hpos
      rw [if_pos (hid.mp e)] at hc
      omega
    · intro hu
      have hne : l' ≠ l := fun e => hu.chainID l rfl ⟨hd, hfo⟩ (hid.mpr e)
      rw [if_neg hne]
      exact ⟨hw'.driver, fun _ => by rw [hw'.store]; rfl, by rw [hw'.store]; rfl, rfl,
        hu.held l rfl fun h => h.2.2.1 (Finmap.mem_of_lookup_eq_some hl')⟩
  | commit hfo hl' hc hw =>
    refine (same hw).trans (undone (not_leavesLayer_of_all hfo) (fun h => ?_) fun h e => hl' ?_)
    · exact hc.elim h.2.1 h.2.2.2
    · rw [e]; exact Finmap.mem_of_lookup_eq_some hlive

/-- What a registration on a parent that is too deep left. -/
theorem unchanged_iff_undone_tooDeep {K : Multiset RoLayer} {p : Option RoLayer} (hw : RefInv w.ls K)
    (hf : FailsOnly w.env f) (hr : f ≠ some .driverRemove) (hs : f ≠ some .storeRemove)
    (hp : parentOf w.ls parent = some p) (hd : ¬ DepthOK p) {e : Err} :
    Unchanged parent w (afterRelease (.error e : Except Err LayerRef) p (retained w p)) ↔
      Undone H f ts descriptor w p := by
  cases p with
  | none => exact absurd nofun hd
  | some l =>
    have hlook := parentOf_some hp
    have hlive := hw.live_of_lookup hlook
    refine (unchanged_release (by exact hf) hr hs (by exact hw.retain hlive) hp (hw.key _ _ hlook)
      (by rfl)).trans ?_
    constructor
    · rintro ⟨-, -, -, -, hpos⟩
      exact ⟨fun h => absurd h hd, fun l' hl' _ => by cases hl'; exact hpos, fun _ _ h => absurd h.1 hd⟩
    · intro hu
      exact ⟨rfl, fun _ => Iff.rfl, rfl, referenceCount_retain w.ls l, hu.held l rfl fun h => hd h.1.1⟩

/-- The chain ID of the layer, whether there is a parent or not. -/
theorem layerChainID_eq {K : Multiset RoLayer} {p : Option RoLayer} (hw : RefInv w.ls K)
    (hp : parentOf w.ls parent = some p) (d : DiffID) :
    layerChainID H d p = createChainIDFromParent H parent [d] := by
  cases p with
  | none =>
    unfold parentOf at hp
    split at hp
    · rename_i e; rw [e]; rfl
    · simp at hp
  | some l => rw [layerChainID, hw.key _ _ (parentOf_some hp)]

/-- A registration that returns an error, or that finds its layer there
already, leaves the driver, the metadata store, the layer map and the count of
its parent as they were, if and only if: the step that fails is neither
`StartTransaction`, after the driver layer is made, nor a `Create` of the driver
that makes the layer all the same; nothing that holds the parent is missing, as
it is of a parent that an earlier failed removal left in the map; and the layer
found there is not the parent. -/
theorem register_undone_iff {K : Multiset RoLayer} {r : Except Err LayerRef} {w' : World} {c' : Call}
    (hw : StoreState w K)
    (hf : FailsOnly w.env f) (hr : f ≠ some .driverRemove) (hc : f ≠ some .cancel)
    (hs : f ≠ some .storeRemove)
    (hrun : (registerWithDescriptor H ts parent descriptor).run (w, {}) = some (r, w', c')) :
    ((∃ e, r = .error e) ∨ createChainIDFromParent H parent [H.fromBytes ts] ∈ w.ls.layerMap →
      Unchanged parent w w') ↔
    ∀ p, parentOf w.ls parent = some p → Undone H f ts descriptor w p := by
  suffices h : Triple (registerWithDescriptor H ts parent descriptor) (w, {}) fun r s =>
      ((∃ e, r = .error e) ∨ createChainIDFromParent H parent [H.fromBytes ts] ∈ w.ls.layerMap →
        Unchanged parent w s.1) ↔
      ∀ p, parentOf w.ls parent = some p → Undone H f ts descriptor w p from h _ _ hrun
  obtain ⟨hw, hd⟩ := hw
  refine Triple.bind ((registerOrUndo_triple hf hr hc hd).mono fun r s h => ?_)
  rcases h with ⟨hp, rfl, e⟩ | ⟨p, w₁, hp, e, h⟩
  · refine Triple.ret (iff_of_true (fun _ => ?_) fun p hp' => by rw [hp] at hp'; cases hp')
    rw [e]
    exact ⟨rfl, fun _ => Iff.rfl, rfl, fun _ => Iff.rfl, fun _ _ => rfl⟩
  · have hall : (∀ q, parentOf w.ls parent = some q → Undone H f ts descriptor w q) ↔
        Undone H f ts descriptor w p :=
      ⟨fun h => h p hp, fun h q hq => by cases hp.symm.trans hq; exact h⟩
    have hid := layerChainID_eq (H := H) hw hp (H.fromBytes ts)
    rw [hall]
    cases r with
    | ok h' =>
      rcases h with ⟨-, hr', -⟩ | ⟨hdep, h⟩
      · cases hr'
      · cases h with
        | published hfo hl hcm hst =>
          have hl : layerChainID H (H.fromBytes ts) p ∉ w.ls.layerMap := by cases p <;> exact hl
          have hst : layerChainID H (H.fromBytes ts) p ∉ w.store.layers := by cases p <;> exact hst
          refine Triple.ret (iff_of_true ?_ ⟨fun _ => not_leavesLayer_of_all hfo, fun l _ h => ?_, fun l hl' _ e => ?_⟩)
          · rintro (⟨e, he⟩ | hmem)
            · cases he
            · exact absurd (hid ▸ hmem) hl
          · exact absurd ⟨⟨hdep, hfo⟩, hcm, hl, hst⟩ h
          · subst hl'
            exact hl (e ▸ Finmap.mem_of_lookup_eq_some (hw.live_of_lookup (parentOf_some hp)))
    | error e =>
      have core : Unchanged parent w s.1 ↔ Undone H f ts descriptor w p := by
        rw [‹s.1 = _›]
        rcases h with ⟨hdep, he, rfl⟩ | ⟨hdep, h⟩
        · exact unchanged_iff_undone_tooDeep hw hf hr hs hp hdep
        · cases p with
          | none => exact unchanged_iff_undone_none hp h
          | some l => exact unchanged_iff_undone_some hw hf hr hs hp hdep h
      rw [← core]
      split
      · contradiction
      · rename_i h' he
        cases he
        rcases h with ⟨-, he, -⟩ | ⟨-, h⟩
        · cases he
        · cases h with
          | found hfo hl hw' =>
            have hl : layerChainID H (H.fromBytes ts) p ∈ w.ls.layerMap := by
              cases p <;> exact Finmap.mem_of_lookup_eq_some hl
            exact Triple.ret ⟨fun h => h (.inr (hid ▸ hl)), fun h _ => h⟩
      · exact Triple.ret ⟨fun h => h (.inl ⟨_, rfl⟩), fun h _ => h⟩

end

set_option maxRecDepth 100000 in
/-- `ApplyDiff` fails: nothing is left. -/
theorem register_undone_applyDiff : ∃ w' c',
    (register sampleHash [] "").run ({ env := failing .applyDiff }, {}) =
      some (.error (.failed .applyDiff), w', c') ∧
    Unchanged "" { env := failing .applyDiff } w' := by
  have hrun : ∃ w' c', (register sampleHash [] "").run ({ env := failing .applyDiff }, {}) =
    some (.error (.failed .applyDiff), w', c') := ⟨_, _, rfl⟩
  obtain ⟨w', c', h⟩ := hrun
  refine ⟨w', c', h, (register_undone_iff (storeState_empty (failing .applyDiff))
    (failsOnly_failing .applyDiff) (by decide) (by decide) (by decide) h).mpr (fun p hp => ?_)
    (.inl ⟨_, rfl⟩)⟩
  cases hp
  refine ⟨fun _ => ?_, nofun, nofun⟩
  rintro (h | ⟨h, -⟩) <;> cases h

set_option maxRecDepth 100000 in
/-- `StartTransaction` fails in an empty layer store: `Register` returns the
error, and the layer that it made in the driver stays. -/
theorem register_leaks_driver_layer : FailsOnly (failing .startTransaction) (some .startTransaction) ∧
    ∃ w' c', (register sampleHash [] "").run ({ env := failing .startTransaction }, {}) =
      some (.error (.failed .startTransaction), w', c') ∧
    ¬ Unchanged "" { env := failing .startTransaction } w' := by
  refine ⟨failsOnly_failing _, _, _, rfl, fun h => ?_⟩
  exact absurd h.driver (by decide)

end Moby.Layer
