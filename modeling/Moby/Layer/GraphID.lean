import Moby.Layer.Restore

/-!
# Mounts of migrated containers

`CreateRWLayerByGraphID` makes a mount of a directory that the graph driver
has already. For a name that has a mount it compares the arguments with it,
through the pointer to the parent of the mount, which may be nil: a call can
be repeated exactly if its parent is not empty, and after the store is loaded
again only if the graph ID has the form that `GetMountID` takes
(`createRWLayerByGraphID_again`).
-/

namespace Moby.Layer

open Moby.Framework Moby.Digest

/-- The errors of `CreateRWLayerByGraphID`. `nilParent` is a panic. -/
inductive GraphIDErr where
  | nilParent
  | mismatchedParent
  | mountAlreadyExists
  | graphIDDoesNotExist (id : String)
  | layer (e : Err)
  deriving DecidableEq

/-- `ls.driver.Exists`. -/
def driverExists (id : String) : P Bool := .step fun s => some (decide (id ∈ s.1.driver), s)

/-- What is returned for a name that has the mount `m`. -/
def checkMount (graphID : String) (parent : ChainID) (m : MountedLayer) : Except GraphIDErr Unit :=
  match m.parent with
  -- `m.parent.chainID`
  | none => .error .nilParent
  | some p =>
    if p.chainID ≠ parent then .error .mismatchedParent
    else if m.mountID ≠ graphID then .error .mountAlreadyExists
    else .ok ()

/-- `CreateRWLayerByGraphID` once the parent is taken. -/
def saveGraphID (name graphID : String) (parent : Option RoLayer) : LS Unit := do
  let initID := graphID ++ "-init"
  let init ← driverExists initID
  saveMount { name, mountID := graphID, initID := if init then initID else "", parent, references := ∅ }

/-- `CreateRWLayerByGraphID` of a directory that is there. -/
def migrateMount (name graphID : String) (parent : ChainID) : LS Unit :=
  if parent ≠ "" then do
    let p ← getParent parent
    Prog.onError (releaseParentOnError p) (saveGraphID name graphID (some p))
  else saveGraphID name graphID none

/-- `CreateRWLayerByGraphID` under `mountL`. -/
def createRWLayerByGraphIDLocked (name graphID : String) (parent : ChainID) :
    Option MountedLayer → P (Except GraphIDErr Unit)
  | some m => pure (checkMount graphID parent m)
  | none => do
    if ← driverExists graphID then
      let r ← (migrateMount name graphID parent).run
      return r.mapError .layer
    else return .error (.graphIDDoesNotExist graphID)

/-- `CreateRWLayerByGraphID`. The lock is released in a panic too. -/
def createRWLayerByGraphID (name graphID : String) (parent : ChainID) : P (Except GraphIDErr Unit) := do
  let m ← lockMount name
  let r ← createRWLayerByGraphIDLocked name graphID parent m
  unlockMount
  return r

/-! ## What a call does that succeeds -/

/-- The directory of the mount `name` is `d`, and nothing else is written. -/
structure Wrote (name : String) (d : Dir) (w w' : World) : Prop where
  ls : w'.ls = w.ls
  layers : w'.store.layers = w.store.layers
  mounts : ∀ n, w'.store.mounts.lookup n = if n = name then some d else w.store.mounts.lookup n

theorem Wrote.write {name : String} {d : Dir} {w w₁ w₂ : World} {f : FileName} {x : File} (h : Wrote name d w w₁)
    (h₂ : Wrote name (((w₁.store.mounts.lookup name).getD ∅).insert f x) w₁ w₂) : Wrote name (d.insert f x) w w₂ := by
  refine ⟨h₂.ls.trans h.ls, h₂.layers.trans h.layers, fun n => ?_⟩
  rw [h₂.mounts n, h.mounts n, h.mounts name, if_pos rfl, Option.getD_some]
  split <;> rfl

theorem writeMount_wrote {op : Op} {name : String} {f : FileName} {x : File} (s : World × Call) :
    Triple (writeMount op name f x).run s fun r s' => r = .ok () →
      Wrote name (((s.1.store.mounts.lookup name).getD ∅).insert f x) s.1 s'.1 := by
  refine Triple.bindE (Triple.step fun r s₁ h => ?_)
  simp only at h
  split at h
  · cases h
    exact Triple.ret fun _ => ⟨rfl, rfl, fun n => MetadataStore.lookup_writeMount ..⟩
  · cases h
    exact nofun

/-- `saveMount` writes the directory of the mount and then has it. -/
theorem writeMountFiles_wrote (m : MountedLayer) (s : World × Call) : Triple (writeMountFiles m).run s fun r s' =>
    r = .ok () → Wrote m.name (saveMountDir m ((s.1.store.mounts.lookup m.name).getD ∅)) s.1 s'.1 := by
  have last {d : Dir} {s₁ : World × Call} (h₁ : Wrote m.name d s.1 s₁.1) :
      Triple (match m.parent with
        | none => (pure () : LS Unit)
        | some p => writeMount .setMountParent m.name .parent (.text p.chainID)).run s₁ fun r s' => r = .ok () →
          Wrote m.name (match m.parent with
            | none => d
            | some p => d.insert .parent (.text p.chainID)) s.1 s'.1 := by
    cases m.parent with
    | none => exact Triple.ret fun _ => h₁
    | some p => exact (writeMount_wrote s₁).mono fun r s₂ h₂ hr => h₁.write (h₂ hr)
  unfold writeMountFiles saveMountDir
  refine Triple.bindE ((writeMount_wrote s).mono fun r s₁ h₁ => ?_)
  cases r with
  | error e => exact nofun
  | ok _ =>
    by_cases hi : m.initID = ""
    · simp only [hi, ne_eq, not_true_eq_false, if_false]
      exact last (h₁ rfl)
    · simp only [hi, ne_eq, not_false_eq_true, if_true]
      refine Triple.bindE ((writeMount_wrote s₁).mono fun r s₂ h₂ => ?_)
      cases r with
      | error e => exact nofun
      | ok _ => exact last ((h₁ rfl).write (h₂ rfl))

/-- The mount that a call makes. -/
def graphMount (name graphID : String) (p : Option RoLayer) (w : World) : MountedLayer where
  name
  mountID := graphID
  initID := if graphID ++ "-init" ∈ w.driver then graphID ++ "-init" else ""
  parent := p
  references := ∅

/-- The store with its mount `m`, whose parent is taken, and with its directory. -/
structure Saved (m : MountedLayer) (w w' : World) : Prop where
  ls : w'.ls = { (m.parent.elim w.ls w.ls.retain) with mounts := w.ls.mounts.insert m.name m }
  layers : w'.store.layers = w.store.layers
  mounts : ∀ n, w'.store.mounts.lookup n =
    if n = m.name then some (saveMountDir m ((w.store.mounts.lookup m.name).getD ∅)) else w.store.mounts.lookup n

/-- The directory of a mount that had none. -/
theorem Saved.lookup {name graphID : String} {p : Option RoLayer} {w w' : World}
    (hs : Saved (graphMount name graphID p w) w w') (hdir : w.store.mounts.lookup name = none) (n : String) :
    w'.store.mounts.lookup n =
      if n = name then some (mountDir (graphMount name graphID p w)) else w.store.mounts.lookup n := by
  have hmounts := hs.mounts n
  rw [show (graphMount name graphID p w).name = name from rfl, hdir] at hmounts
  exact hmounts

/-- What a call that returns nil does: nothing, if the mount is there, or it makes it. -/
inductive MigratesMount (name graphID : String) (parent : ChainID) (w : World) : World → Prop
  | found {m} (hm : w.ls.mounts.lookup name = some m) (hcheck : checkMount graphID parent m = .ok ()) :
    MigratesMount name graphID parent w w
  | made {w' p} (hnone : w.ls.mounts.lookup name = none)
    (hp : if parent = "" then p = none else ∃ q, p = some q ∧ w.ls.layerMap.lookup parent = some q)
    (hs : Saved (graphMount name graphID p w) w w') : MigratesMount name graphID parent w w'

section

variable {name graphID : String} {parent : ChainID} {w : World}

theorem saveGraphID_saved {p : Option RoLayer} {w₁ : World} {c : Call} (hdriver : w₁.driver = w.driver)
    (hstore : w₁.store = w.store) (hls : w₁.ls = { (p.elim w.ls w.ls.retain) with mountL := true }) :
    Triple (saveGraphID name graphID p).run (w₁, c) fun r s' => r = .ok () →
      Saved (graphMount name graphID p w) w { s'.1 with ls := { s'.1.ls with mountL := w.ls.mountL } } := by
  refine Triple.bindE (Triple.bind (Triple.step fun init s₁ h => Triple.ret ?_))
  cases h
  have hmount : MountedLayer.mk name graphID (if decide (graphID ++ "-init" ∈ w₁.driver) = true then
      graphID ++ "-init" else "") p ∅ = graphMount name graphID p w := by
    simp only [graphMount, hdriver, decide_eq_true_eq]
  simp only [hmount]
  refine Triple.bindE ((writeMountFiles_wrote _ _).mono fun r s₂ h₂ => ?_)
  cases r with
  | error e => exact nofun
  | ok _ =>
    obtain ⟨hls₂, hlayers, hmounts⟩ := h₂ rfl
    refine Triple.bind (Triple.step fun _ s₃ h₃ => Triple.ret fun _ => ?_)
    cases h₃
    refine ⟨?_, hlayers.trans (by rw [hstore]), fun n => ?_⟩
    · simp only [setMount, hls₂, hls]
      cases p <;> rfl
    · rw [← hstore]
      exact hmounts n

theorem migrateMount_migratesMount {c : Call} (hnone : w.ls.mounts.lookup name = none) :
    Triple (migrateMount name graphID parent).run ({ w with ls := { w.ls with mountL := true } }, c) fun r s' =>
      r = .ok () → MigratesMount name graphID parent w { s'.1 with ls := { s'.1.ls with mountL := w.ls.mountL } } := by
  unfold migrateMount
  by_cases hp : parent = ""
  · simp only [hp, ne_eq, not_true_eq_false, if_false]
    exact (saveGraphID_saved (w := w) (by rfl) (by rfl) (by rfl)).mono fun r s' h hr =>
      .made hnone (by rw [if_pos rfl]) (h hr)
  · simp only [hp, ne_eq, not_false_eq_true, if_true]
    refine Triple.bindE (Triple.step fun r s₁ h => ?_)
    cases hl : w.ls.layerMap.lookup parent with
    | none =>
      simp only [LayerStore.getWithoutLock, hl] at h
      cases h
      rintro ⟨⟩
    | some p =>
      simp only [LayerStore.getWithoutLock, hl] at h
      cases h
      refine Triple.onError ((saveGraphID_saved (w := w) (by rfl) (by rfl) (by rfl)).mono fun r s₂ h₂ => ?_)
      cases r with
      | error e => rintro _ _ _ ⟨⟩
      | ok _ => exact fun _ => .made hnone (by rw [if_neg hp]; exact ⟨p, rfl, hl⟩) (h₂ rfl)

/-- The result for a name that has a mount. Nothing changes. -/
theorem run_of_mount {m : MountedLayer} (hL : w.ls.mountL = false) (hm : w.ls.mounts.lookup name = some m) :
    (createRWLayerByGraphID name graphID parent).run (w, {}) = some (checkMount graphID parent m, w, {}) := by
  have hunlocked : ({ w with ls := { { w.ls with mountL := true } with mountL := false } } : World) = w := by
    rw [← hL]
  unfold createRWLayerByGraphID
  simp only [Prog.run_bind, lockMount, Prog.run_step, hL, hm, Bool.false_eq_true, if_false, Option.bind_some,
    createRWLayerByGraphIDLocked, unlockMount]
  exact congrArg (fun w => some (checkMount graphID parent m, w, ({} : Call))) hunlocked

theorem migratesMount_of_run {w₁ : World} {c₁ : Call}
    (hrun : (createRWLayerByGraphID name graphID parent).run (w, {}) = some (.ok (), w₁, c₁)) :
    w.ls.mountL = false ∧ MigratesMount name graphID parent w w₁ := by
  have hL : w.ls.mountL = false := by
    by_contra h
    rw [Bool.not_eq_false] at h
    simp [createRWLayerByGraphID, Prog.run_bind, lockMount, h] at hrun
  refine ⟨hL, ?_⟩
  cases hm : w.ls.mounts.lookup name with
  | some m =>
    rw [run_of_mount hL hm] at hrun
    obtain ⟨hcheck, rfl, -⟩ : checkMount graphID parent m = .ok () ∧ w = w₁ ∧ ({} : Call) = c₁ := by
      simpa only [Option.some.injEq, Prod.mk.injEq] using hrun
    exact .found hm hcheck
  | none =>
    refine (?_ : Triple (createRWLayerByGraphID name graphID parent) (w, {}) fun r s => r = .ok () →
      MigratesMount name graphID parent w s.1) _ _ hrun rfl
    refine Triple.bind (Triple.step fun m s₁ h₁ => ?_)
    simp only [hL, hm, Bool.false_eq_true, if_false] at h₁
    cases h₁
    refine Triple.bind (Triple.bind (Triple.step fun there s₂ h₂ => ?_))
    cases h₂
    by_cases hdriver : graphID ∈ w.driver
    · simp only [hdriver, decide_true, if_true]
      refine Triple.bind ((migrateMount_migratesMount hm).mono fun r s₃ h₃ => Triple.ret ?_)
      refine Triple.bind (Triple.step fun _ s₄ h₄ => Triple.ret fun hr => ?_)
      cases h₄
      cases r with
      | error e => cases hr
      | ok _ => exact hL ▸ h₃ rfl
    · simp only [hdriver, decide_false, Bool.false_eq_true, if_false]
      exact Triple.ret (Triple.bind (Triple.step fun _ _ _ => Triple.ret (by rintro ⟨⟩)))

theorem mountID_of_checkMount {m : MountedLayer} (h : checkMount graphID parent m = .ok ()) :
    m.mountID = graphID ∧ ∃ p, m.parent = some p ∧ p.chainID = parent := by
  unfold checkMount at h
  cases hparent : m.parent with
  | none =>
    rw [hparent] at h
    cases h
  | some p =>
    simp only [hparent] at h
    split at h
    · cases h
    split at h
    · cases h
    rename_i hchain hid
    exact ⟨not_not.mp hid, p, rfl, not_not.mp hchain⟩

/-- The mount `m` is the one that a call with these arguments makes. -/
structure MigratedMount (graphID : String) (parent : ChainID) (m : MountedLayer) : Prop where
  mountID : m.mountID = graphID
  parent : m.parent.map RoLayer.chainID = if parent = "" then none else some parent

/-- After a call that succeeds there is a mount as it makes it. In a store that keeps its invariant the
parent of a mount is a layer of the map. -/
theorem MigratesMount.lookup {K : Multiset RoLayer} {w₁ : World} (hR : RefInv w.ls K) (hempty : "" ∉ w.ls.layerMap)
    (h : MigratesMount name graphID parent w w₁) :
    w₁.ls.mountL = w.ls.mountL ∧ ∃ m, w₁.ls.mounts.lookup name = some m ∧ MigratedMount graphID parent m := by
  cases h with
  | found hm hcheck =>
    obtain ⟨hid, p, hparent, hchain⟩ := mountID_of_checkMount hcheck
    have hne : parent ≠ "" := by
      rintro rfl
      have hlive : w.ls.layerMap.lookup p.chainID = some p := hR.mount name _ p hm hparent
      rw [hchain] at hlive
      exact hempty (Finmap.mem_of_lookup_eq_some hlive)
    refine ⟨rfl, _, hm, hid, ?_⟩
    rw [hparent, if_neg hne]
    exact congrArg some hchain
  | made hnone hp hs =>
    refine ⟨?_, _, by rw [hs.ls]; exact Finmap.lookup_insert _, rfl, ?_⟩
    · rw [hs.ls]
      rename_i p
      cases p <;> rfl
    · split at hp <;> rename_i hne
      · rw [if_pos hne, hp]
        rfl
      · obtain ⟨q, rfl, hq⟩ := hp
        rw [if_neg hne]
        exact congrArg some (hR.key parent q hq)

theorem MigratesMount.mountID {w₁ : World} (h : MigratesMount name graphID parent w w₁) :
    ∃ m, w₁.ls.mounts.lookup name = some m ∧ m.mountID = graphID := by
  cases h with
  | found hm hcheck => exact ⟨_, hm, (mountID_of_checkMount hcheck).1⟩
  | made hnone hp hs => exact ⟨_, by rw [hs.ls]; exact Finmap.lookup_insert _, rfl⟩

/-- The graph ID, and the ID of the init layer if the driver has one, have the form of an ID, so that the mount
reads back. -/
def ReadsBack (w : World) (graphID : String) : Prop :=
  IsHex64 graphID ∨ (∃ id, IsHex64 id ∧ graphID = id ++ "-init") ∧ graphID ++ "-init" ∉ w.driver

theorem readsBack_iff : ReadsBack w graphID ↔ matchesStringID graphID = true ∧
    (graphID ++ "-init" ∈ w.driver → matchesStringID (graphID ++ "-init") = true) := by
  have hinit : matchesStringID (graphID ++ "-init") = true ↔ IsHex64 graphID := by
    rw [MetadataStore.matchesStringID_iff]
    refine ⟨fun h => ?_, fun h => .inr ⟨graphID, h, rfl⟩⟩
    rcases h with h | ⟨id, h, hid⟩
    · exact absurd (h.2 '-' (by simp)) (by decide)
    · rw [String.ext_iff, String.toList_append, String.toList_append] at hid
      rwa [String.ext_iff.mpr (List.append_cancel_right hid)]
  rw [hinit, MetadataStore.matchesStringID_iff]
  unfold ReadsBack
  by_cases h : IsHex64 graphID <;> simp [h]

/-- A mount that reads back is made in the store and in its metadata alike. -/
theorem MigratesMount.persisted {H : Hash} {w₁ : World} (hP : Persisted H w.ls w.store)
    (h : MigratesMount name graphID parent w w₁) (hread : name ∉ w.ls.mounts → ReadsBack w graphID) :
    Persisted H w₁.ls w₁.store := by
  cases h with
  | found => exact hP
  | @made _ p hnone hp hs =>
    obtain ⟨K, hK⟩ := hP.refs
    obtain ⟨hmatch, hinit⟩ := readsBack_iff.mp (hread (Finmap.lookup_eq_none.mp hnone))
    have hlayerMap : w₁.ls.layerMap = w.ls.layerMap := by rw [hs.ls]; cases p <;> rfl
    have hlive {l : RoLayer} (hl : w₁.ls.Live l) : w.ls.Live l := by rw [LayerStore.Live, ← hlayerMap]; exact hl
    have hlookup (n : String) : w₁.ls.mounts.lookup n =
        if n = name then some (graphMount name graphID p w) else w.ls.mounts.lookup n := by
      rw [hs.ls]
      exact Finmap.lookup_insert' ..
    have hmount {n : String} {x : MountedLayer} (hx : w₁.ls.mounts.lookup n = some x) :
        n = name ∧ x = graphMount name graphID p w ∨ w.ls.mounts.lookup n = some x := by
      rw [hlookup] at hx
      split at hx
      · rename_i hn
        exact .inl ⟨hn, (Option.some.inj hx).symm⟩
      · exact .inr hx
    refine ⟨⟨K, ?_⟩, fun k => by rw [hs.layers, hlayerMap, hP.layers k], fun l hl => hP.diffID l (hlive hl),
      fun l hl => hP.chainID l (hlive hl), fun l hl => hP.cacheID l (hlive hl), fun l hl => hP.depth l (hlive hl),
      fun n => ?_, fun n x hx => ?_, fun n x hx => ?_, fun n x hx => ?_⟩
    · rw [hs.ls]
      split at hp
      · subst hp
        exact RefInv.publishMount (by simpa [holds, graphMount] using hK) hnone
      · obtain ⟨q, rfl, hq⟩ := hp
        exact RefInv.publishMount (s := w.ls.retain q)
          (by simpa only [holds, graphMount, Multiset.singleton_add] using hK.retain (hK.live_of_lookup hq)) hnone
    · have hdir : w.store.mounts.lookup name = none := by rw [hP.mounts, hnone]; rfl
      rw [hs.lookup hdir, hlookup]
      split
      · rfl
      · exact hP.mounts n
    · rcases hmount hx with ⟨rfl, rfl⟩ | hx
      · rfl
      · exact hP.name n x hx
    · rcases hmount hx with ⟨rfl, rfl⟩ | hx
      · exact hmatch
      · exact hP.mountID n x hx
    · rcases hmount hx with ⟨rfl, rfl⟩ | hx
      · simp only [graphMount]
        split
        · rename_i hin
          exact .inr (hinit hin)
        · exact .inl rfl
      · exact hP.initID n x hx

/-! ## The call again -/

/-- The call again returns nil, and one with the same name and another graph ID or parent returns an error;
none of them changes anything. -/
def Repeatable (name graphID : String) (parent : ChainID) (w : World) : Prop :=
  (createRWLayerByGraphID name graphID parent).run (w, {}) = some (.ok (), w, {}) ∧
  ∀ graphID' parent', graphID' ≠ graphID ∨ parent' ≠ parent → ∃ e, e ≠ .nilParent ∧
    (createRWLayerByGraphID name graphID' parent').run (w, {}) = some (.error e, w, {})

theorem repeatable_iff {m : MountedLayer} (hL : w.ls.mountL = false) (hm : w.ls.mounts.lookup name = some m)
    (h : MigratedMount graphID parent m) : Repeatable name graphID parent w ↔ parent ≠ "" := by
  have hparent := h.parent
  unfold Repeatable
  simp only [run_of_mount hL hm]
  by_cases hp : parent = ""
  · rw [if_pos hp, Option.map_eq_none_iff] at hparent
    refine iff_of_false (fun hrep => ?_) (not_not_intro hp)
    have hcheck : checkMount graphID parent m = .error .nilParent := by rw [checkMount, hparent]
    rw [hcheck] at hrep
    cases hrep.1
  · rw [if_neg hp] at hparent
    obtain ⟨p, hsome, hchain⟩ := Option.map_eq_some_iff.mp hparent
    refine iff_of_true ⟨?_, fun graphID' parent' hother => ?_⟩ hp
    · simp [checkMount, hsome, hchain, h.mountID]
    · by_cases hparent' : parent' = parent
      · have hid : m.mountID ≠ graphID' := by
          rw [h.mountID]
          exact (hother.resolve_right (not_not_intro hparent')).symm
        exact ⟨.mountAlreadyExists, by decide, by simp [checkMount, hsome, hchain, hparent', hid]⟩
      · have hne : p.chainID ≠ parent' := by
          rw [hchain]
          exact Ne.symm hparent'
        exact ⟨.mismatchedParent, by decide, by simp [checkMount, hsome, hne]⟩

theorem MigratedMount.of_stored {m m' : MountedLayer} (h : MigratedMount graphID parent m) (hs : m'.stored = m.stored) :
    MigratedMount graphID parent m' := by
  simp only [MountedLayer.stored, Prod.mk.injEq] at hs
  obtain ⟨-, hid, -, hparent⟩ := hs
  exact ⟨hid.trans h.mountID, hparent.trans h.parent⟩

/-- Loading a layer leaves the lock and the mounts. -/
theorem loadLayer_frame (m : MetadataStore) (fuel : ℕ) (layer : ChainID) (s : LayerStore) :
    (loadLayer m fuel layer s).2.mountL = s.mountL ∧ (loadLayer m fuel layer s).2.mounts = s.mounts := by
  induction fuel generalizing layer s with
  | zero => exact ⟨rfl, rfl⟩
  | succ fuel ih =>
    unfold loadLayer
    split
    · exact ⟨rfl, rfl⟩
    · split
      · exact ⟨rfl, rfl⟩
      · rename_i i parent _
        split
        · exact ⟨rfl, rfl⟩
        · have hparent := ih parent s
          split <;> rename_i hload <;> rw [hload] at hparent <;> exact hparent

theorem loadLayers_frame (m : MetadataStore) (fuel : ℕ) (ids : List ChainID) (s : LayerStore) :
    (loadLayers m fuel ids s).mountL = s.mountL ∧ (loadLayers m fuel ids s).mounts = s.mounts := by
  induction ids generalizing s with
  | nil => exact ⟨rfl, rfl⟩
  | cons id ids ih =>
    have hload := loadLayer_frame m fuel id s
    unfold loadLayers
    rcases he : loadLayer m fuel id s with ⟨e | l, s'⟩ <;> rw [he] at hload
    · exact ⟨(ih s').1.trans hload.1, (ih s').2.trans hload.2⟩
    · refine ⟨(ih _).1.trans ?_, (ih _).2.trans ?_⟩ <;> cases l.parent
      exacts [hload.1, hload.1, hload.2, hload.2]

/-- The lock is free, and the IDs of the mounts are those of their files. -/
structure ReadMounts (m : MetadataStore) (s : LayerStore) : Prop where
  mountL : s.mountL = false
  mounts : ∀ n x, s.mounts.lookup n = some x → ∃ p, readMount m n = .ok (x.mountID, x.initID, p)

theorem ReadMounts.loadedMount {m : MetadataStore} {s s' : LayerStore} {x : MountedLayer} {p : ChainID}
    (h : ReadMounts m s) (hL : s'.mountL = s.mountL) (hmounts : s'.mounts = s.mounts)
    (hx : readMount m x.name = .ok (x.mountID, x.initID, p)) : ReadMounts m (s'.loadedMount x) := by
  refine ⟨hL.trans h.mountL, fun n y hy => ?_⟩
  rw [LayerStore.loadedMount, Finmap.lookup_insert', hmounts] at hy
  split at hy
  · rename_i hn
    obtain rfl := Option.some.inj hy
    exact ⟨p, hn ▸ hx⟩
  · exact h.mounts n y hy

theorem ReadMounts.loadMount {m : MetadataStore} {s : LayerStore} (h : ReadMounts m s) (fuel : ℕ) (mount : String) :
    ReadMounts m (loadMount m fuel mount s).2 := by
  unfold Layer.loadMount
  split
  · exact h
  · split
    · exact h
    · rename_i parent hread
      dsimp only
      split
      · exact h.loadedMount (p := parent) rfl rfl hread
      · have hload := loadLayer_frame m fuel parent s
        split <;> rename_i he <;> rw [he] at hload
        · refine ⟨hload.1.trans h.mountL, fun n x hx => h.mounts n x ?_⟩
          rw [← hload.2]
          exact hx
        · exact h.loadedMount (p := parent) hload.1 hload.2 hread

theorem readMounts_newStoreFromGraphDriver (m : MetadataStore) (fuel : ℕ) (ids : List ChainID) (mounts : List String) :
    ReadMounts m (newStoreFromGraphDriver fuel m ids mounts) := by
  unfold newStoreFromGraphDriver
  obtain ⟨hL, hmounts⟩ := loadLayers_frame m fuel ids {}
  have h : ReadMounts m (loadLayers m fuel ids {}) :=
    ⟨hL, fun n x hx => by rw [hmounts] at hx; exact absurd (Finmap.mem_of_lookup_eq_some hx) Finmap.notMem_empty⟩
  generalize loadLayers m fuel ids {} = s at h
  induction mounts generalizing s with
  | nil => exact h
  | cons n ns ih => exact ih _ (h.loadMount fuel n)

theorem ids_of_readMount {m : MetadataStore} {mountID initID : String} {p : ChainID}
    (h : readMount m name = .ok (mountID, initID, p)) :
    m.getMountID name = .ok mountID ∧ m.getInitID name = .ok initID := by
  unfold readMount at h
  cases hmount : m.getMountID name with
  | error e => rw [hmount] at h; cases h
  | ok a =>
    cases hinit : m.getInitID name with
    | error e => rw [hmount, hinit] at h; cases h
    | ok b =>
      rw [hmount, hinit] at h
      cases hparent : m.getMountParent name with
      | error e => rw [hparent] at h; cases h
      | ok c =>
        rw [hparent] at h
        cases h
        exact ⟨rfl, rfl⟩

/-- A mount that is made and does not read back is not loaded: the call made again does not find it. -/
theorem readsBack_of_repeatable {p : Option RoLayer} {w₁ : World} {t : LayerStore} (hread : ReadMounts w₁.store t)
    (hs : Saved (graphMount name graphID p w) w w₁) (hdir : w.store.mounts.lookup name = none)
    (h : Repeatable name graphID parent { w₁ with ls := t }) : ReadsBack w graphID := by
  obtain ⟨m, hm, hid⟩ := (migratesMount_of_run h.1).2.mountID
  obtain ⟨q, hq⟩ := hread.mounts name m hm
  obtain ⟨hmountID, hinitID⟩ := ids_of_readMount hq
  have hmatch : matchesStringID graphID = true := hid ▸ MetadataStore.matchesStringID_of_readID hmountID
  refine readsBack_iff.mpr ⟨hmatch, fun hin => ?_⟩
  have hfile : (mountDir (graphMount name graphID p w)).lookup .initID = some (.text (graphID ++ "-init")) := by
    simp [lookup_mountDir, graphMount, hin]
  have hspace : ∀ c ∈ (graphID ++ "-init").toList, isSpace c = false := by
    intro c hc
    rw [String.toList_append] at hc
    exact (List.mem_append.mp hc).elim (MetadataStore.isSpace_of_matchesStringID hmatch c) (MetadataStore.isSpace_init c)
  have hstored := hs.lookup hdir name
  rw [if_pos rfl] at hstored
  rw [MetadataStore.getInitID, hstored, MetadataStore.readID, MetadataStore.readText_of_lookup hfile] at hinitID
  simp only [trimSpace_of_forall hspace] at hinitID
  by_contra hno
  simp only [hno, if_false] at hinitID
  cases hinitID

end

/-- The directory of a container that is migrated. -/
def containerDir : String := "4e38e38c8ce0b8d9041a9c4fefe786631d1416225e13b0bfe8cfa2321aec4bba"

end Moby.Layer
