import Moby.Layer.Store

/-!
# What a step of the layer store can do

`Action` lists what the steps of the layer store's calls do to the world and
to the state of the call, each with what the call knows when it takes the
step; `Request.follows` is that the steps of every call are among them. An
invariant of the runs of the layer store needs to be checked against these
actions only.
-/

namespace Moby.Layer

open Moby.Framework Moby.Digest

/-- The directory that a registration makes for a layer. -/
def layerDir (i : LayerInfo) (parent : Option RoLayer) : Dir :=
  let d := ((((∅ : Dir).insert .tarSplit (.text "")).insert .diff (.text i.diffID)).insert .size
    (.text (formatInt i.size))).insert .cacheID (.text i.cacheID)
  let d := if i.descriptor.digest ≠ "" then d.insert .descriptor (.json i.descriptor.marshal) else d
  match parent with
  | none => d
  | some p => d.insert .parent (.text p.chainID)

/-- The directory of a mount after `saveMount`. -/
def saveMountDir (m : MountedLayer) (d : Dir) : Dir :=
  let d := d.insert .mountID (.text m.mountID)
  let d := if m.initID ≠ "" then d.insert .initID (.text m.initID) else d
  match m.parent with
  | none => d
  | some p => d.insert .parent (.text p.chainID)

/-- The directory that `saveMount` makes for a mount. -/
def mountDir (m : MountedLayer) : Dir := saveMountDir m ∅

/-- The directory of the mount is as `saveMount` makes it. -/
def MountView.Settled (v : MountView) : Prop := v.dir = v.mount.map mountDir

/-- What is known of every state of a run without failures. -/
def Assumes (ff : Prop) (w : World) : Prop :=
  ff → (∀ n op, (w.env n op).ok = true) ∧ (w.ls.mountL = false →
    ∀ n, w.store.mounts.lookup n = (w.ls.mounts.lookup n).map mountDir)

/-- What a step can do. -/
inductive Action (H : Hash) (ff : Prop) : World × Call → World × Call → Prop
  | skip {w c} : Action H ff (w, c) (w, c)
  | tick {w c} : Action H ff (w, c) (w.tick, c)
  /-- `stringid.GenerateRandomID`. -/
  | generateRandomID {w c id} (hc : c.id = none) (hd : c.created = none) (hid : IsRandomID id)
    (new : id ∉ w.issued) :
    Action H ff (w, c)
      ({ w.tick with issued := insert id w.issued }, { c with id := some id })
  /-- `ls.driver.Create`, of a new layer. -/
  | driverCreate {w c id} (hid : c.id = some id) :
    Action H ff (w, c)
      ({ w.tick with driver := insert id w.driver }, { c with created := some id })
  /-- `ls.driver.Create` and `ls.driver.CreateReadWrite`, of a new mount. -/
  | driverCreateMount {w c id i} (hid : c.id = some id) (hi : i = id ∨ i = id ++ "-init") :
    Action H ff (w, c) ({ w.tick with driver := insert i w.driver }, c)
  | startTransaction {w c tx} (hc : c.tx = none) (new : tx ∉ w.store.tmp) :
    Action H ff (w, c)
      ({ w.tick with store := { w.store with tmp := w.store.tmp.insert tx ∅ } },
        { c with tx := some (tx, ∅) })
  | writeTx {w c tx d f x} (hc : c.tx = some (tx, d)) :
    Action H ff (w, c)
      ({ w.tick with store := w.store.writeTmp tx f x }, { c with tx := some (tx, d.insert f x) })
  | cancel {w c tx d} (hc : c.tx = some (tx, d)) :
    Action H ff (w, c)
      ({ w.tick with store := { w.store with tmp := w.store.tmp.erase tx } }, { c with tx := none })
  /-- `ls.driver.Remove`, in the clean-up of a registration. -/
  | driverRemoveCreated {w c id} (hid : c.id = some id) (hc : c.created = some id) :
    Action H ff (w, c)
      ({ w.tick with driver := w.driver.erase id }, { c with created := none, id := none })
  /-- `ls.get`, of the parent. -/
  | getParent {w c id l} (hc : c.parent = none) (hl : w.ls.layerMap.lookup id = some l) :
    Action H ff (w, c) ({ w with ls := w.ls.retain l }, { c with parent := some l })
  /-- `ls.releaseLayer`, of the parent. -/
  | releaseParent {w c p} (hc : c.parent = some p) :
    Action H ff (w, c) ((w.releaseLayer p).2, { c with parent := none })
  /-- `Get`, and a registration of a layer that is there already. -/
  | reference {w c id l} (hl : w.ls.layerMap.lookup id = some l) :
    Action H ff (w, c) ({ w with ls := ((w.ls.retain l).getReference l).2 }, c)
  /-- The end of a registration. -/
  | publish {w c tx i d} (hid : c.id = some i.cacheID) (hc : c.created = some i.cacheID)
    (htx : c.tx = some (tx, layerDir i c.parent))
    (depth : ∀ p, c.parent = some p → p.depth < maxLayerDepth)
    (diffID : ∃ b, i.diffID = H.fromBytes b) (chainID : ∃ b, i.chainID = H.fromBytes b)
    (new : w.ls.layerMap.lookup i.chainID = none) (hd : w.store.tmp.lookup tx = some d)
    (hn : i.chainID ∉ w.store.layers) :
    Action H ff (w, c)
      ({ w.tick with
        store := { w.store with
          tmp := w.store.tmp.erase tx, layers := w.store.layers.insert i.chainID d }
        ls := ((w.ls.addLayer i c.parent).2.getReference (w.ls.addLayer i c.parent).1).2 },
      { c with parent := none, id := none, created := none, tx := none })
  /-- `Release`. -/
  | release {w c id l r} (hl : w.ls.layerMap.lookup id = some l) (hr : r ∈ w.ls.references l) :
    Action H ff (w, c) (({ w with ls := w.ls.deleteReference l r }.releaseLayer l).2, c)
  | lockMount {w c} (name : String) (hc : c.mount = none) (hl : w.ls.mountL = false) :
    Action H ff (w, c)
      ({ w with ls := { w.ls with mountL := true } },
        { c with mount := some ⟨name, w.ls.mounts.lookup name, w.store.mounts.lookup name⟩ })
  | unlockMount {w c v} (hc : c.mount = some v) (hv : ff → v.Settled) :
    Action H ff (w, c) ({ w with ls := { w.ls with mountL := false } }, { c with mount := none })
  /-- `m.getReference`, `m.deleteReference` and `m.retakeReference`. -/
  | references {w c v m n} (rs : Finset Nat) (hc : c.mount = some v) (hm : v.mount = some m)
    (hn : w.ls.nextRef ≤ n) :
    Action H ff (w, c)
      ({ w with ls := { w.ls with
        mounts := w.ls.mounts.insert m.name { m with references := rs }, nextRef := n } },
      { c with mount := some { v with mount := some { m with references := rs } } })
  | writeMount {w c v f x} (hc : c.mount = some v) (hm : v.mount = none) :
    Action H ff (w, c)
      ({ w.tick with store := w.store.writeMount v.name f x }, { c with mount := some (v.write f x) })
  | mkdirMount {w c v} (hc : c.mount = some v) (hm : v.mount = none) :
    Action H ff (w, c)
      ({ w.tick with store := w.store.mkdirMount v.name }, { c with mount := some v.mkdir })
  /-- `ls.mounts[mount.name] = mount`. -/
  | publishMount {w c v m} (hc : c.mount = some v) (hm : v.mount = none) (hn : m.name = v.name)
    (hp : c.parent = m.parent) (hid : c.id = some m.mountID) (hcr : c.created = none)
    (hi : m.initID = "" ∨ m.initID = m.mountID ++ "-init")
    (hd : ff → v.dir = some (mountDir m)) :
    Action H ff (w, c)
      ({ w with ls := { w.ls with mounts := w.ls.mounts.insert m.name m } },
        { c with parent := none, id := none, mount := some { v with mount := some m } })
  /-- `ls.driver.Remove`, of a layer of a mount. -/
  | driverRemoveMount {w c v m i} (hc : c.mount = some v) (hm : v.mount = some m)
    (hi : i = m.mountID ∨ i = m.initID ∧ m.initID ≠ "") :
    Action H ff (w, c) ({ w.tick with driver := w.driver.erase i }, c)
  | removeMount {w c v m} (hc : c.mount = some v) (hm : v.mount = some m) :
    Action H ff (w, c)
      ({ w.tick with store := { w.store with mounts := w.store.mounts.erase m.name } },
        { c with mount := some { v with dir := none } })
  /-- `delete(ls.mounts, m.Name())`. -/
  | deleteMount {w c v m} (hc : c.mount = some v) (hm : v.mount = some m) (hp : c.parent = none)
    (hd : ff → v.dir = none) :
    Action H ff (w, c)
      ({ w with ls := { w.ls with mounts := w.ls.mounts.erase m.name } },
        { c with parent := m.parent, mount := some { v with mount := none } })

/-! ## The steps of the calls -/

variable {H : Hash} {ff : Prop} {c : Call}

/-- The steps of a program are among the actions. -/
abbrev Follow {α : Type} (H : Hash) (ff : Prop) (p : P α) (c : Call) (Q : α → Call → Prop) : Prop :=
  Follows (Assumes ff) (Action H ff) p c Q

/-- A call of the environment: in a run without failures it succeeds. -/
theorem ask_follows {op : Op} {onOk onFail : Answer → World × Call → World × Call}
    {Q : Except Err Answer → Call → Prop}
    (ok : ∀ w a, Action H ff (w, c) (onOk a (w.tick, c)) ∧ Q (.ok a) (onOk a (w.tick, c)).2)
    (fail : ∀ w a, ¬ ff → Action H ff (w, c) (onFail a (w.tick, c)) ∧
      Q (.error (.failed op)) (onFail a (w.tick, c)).2) :
    Follow H ff (ask op onOk onFail).run c Q := by
  refine Follows.step fun w r w' c' hA h => ?_
  simp only at h
  split at h
  · obtain ⟨rfl, hs⟩ := Prod.mk.inj (Option.some.inj h)
    rw [← show _ = (w', c') from hs]
    simpa only [hs] using ok w (w.answer op)
  · rename_i hf
    obtain ⟨rfl, hs⟩ := Prod.mk.inj (Option.some.inj h)
    rw [← show _ = (w', c') from hs]
    simpa only [hs] using fail w (w.answer op) fun h => hf ((hA h).1 _ _)

/-- A call of the environment without effect on the world. -/
theorem ask_noEffect {op : Op} :
    Follow H ff (ask op noEffect noEffect).run c fun r c' =>
      c' = c ∧ ∀ e, r = .error e → ¬ ff :=
  ask_follows (fun _ _ => ⟨.tick, rfl, nofun⟩) (fun _ _ hf => ⟨.tick, rfl, fun _ _ => hf⟩)

theorem generateRandomID_follows (h : c.id = none) (hd : c.created = none) :
    Follow H ff generateRandomID.run c fun r c' => ∃ id, r = .ok id ∧ c' = { c with id := some id } := by
  refine Follows.step fun w r w' c' _ he => ?_
  simp only at he
  split at he
  · rename_i hid
    cases he
    exact ⟨.generateRandomID h hd hid.1 hid.2, _, rfl, rfl⟩
  · cases he

theorem driverCreate_follows {id : String} (h : c.id = some id) :
    Follow H ff (driverCreate id).run c fun r c' => match r with
      | .ok _ => c' = { c with created := some id }
      | .error _ => c' = c := by
  refine Follows.bindE (ask_follows (fun w a => ⟨.driverCreate h, ?_⟩) fun w a _ => ?_)
  · exact Follows.pure rfl
  · exact ifDone_rule (P := fun s => Action H ff (w, c) s ∧ s.2 = c) ⟨.driverCreateMount h (.inl rfl), rfl⟩ ⟨.tick, rfl⟩

theorem startTransaction_follows (h : c.tx = none) :
    Follow H ff startTransaction.run c fun r c' => match r with
      | .ok tx => c' = { c with tx := some (tx, ∅) }
      | .error _ => c' = c := by
  refine Follows.step fun w r w' c' _ he => ?_
  simp only at he
  split at he
  · cases he; exact ⟨.tick, rfl⟩
  · split at he
    · cases he
    · rename_i hn
      cases he
      exact ⟨.startTransaction h hn, rfl⟩

/-! ### The files of a transaction -/

/-- If `x` succeeds, it takes the directory of the transaction from `d` to
`d'`; it changes nothing else of the call. -/
def WritesTx {α : Type} (H : Hash) (ff : Prop) (tx : String) (d : Dir) (x : LS α) (d' : Dir) : Prop :=
  ∀ c : Call, c.tx = some (tx, d) → Follow H ff x.run c fun r c' =>
    ∃ e, c' = { c with tx := some (tx, e) } ∧ ∀ a, r = .ok a → e = d'

namespace WritesTx

variable {α β : Type} {tx : String} {d d₁ d₂ : Dir}

theorem pure (a : α) : WritesTx H ff tx d (Pure.pure a) d := fun c h =>
  Follows.pure ⟨d, by rw [← h], fun _ _ => rfl⟩

theorem bind {x : LS α} {f : α → LS β} (hx : WritesTx H ff tx d x d₁)
    (hf : ∀ a, WritesTx H ff tx d₁ (f a) d₂) : WritesTx H ff tx d (x >>= f) d₂ := by
  intro c h
  refine Follows.bindE ((hx c h).mono fun r c' hr => ?_)
  obtain ⟨e, rfl, he⟩ := hr
  cases r with
  | error _ => exact ⟨e, rfl, nofun⟩
  | ok a =>
    obtain rfl := he a rfl
    exact hf a _ rfl

theorem writeTx {op : Op} {f : FileName} {x : File} :
    WritesTx H ff tx d (writeTx op tx f x) (d.insert f x) := by
  intro c h
  refine Follows.bindE (ask_follows (fun w a => ⟨?_, ?_⟩) fun w a _ => ?_)
  · simpa only [h] using .writeTx h
  · exact Follows.pure ⟨_, by simp only [h]; rfl, fun _ _ => rfl⟩
  · cases a.left with
    | nothing => exact ⟨.tick, d, by rw [← h], nofun⟩
    | directory => exact ⟨.tick, d, by rw [← h], nofun⟩
    | truncated t =>
      exact ⟨by simpa only [h] using .writeTx h, _, by simp only [h]; rfl, nofun⟩

theorem storeLayer {i : LayerInfo} {parent : Option RoLayer} :
    WritesTx H ff tx ((∅ : Dir).insert .tarSplit (.text "")) (storeLayer tx i parent)
      (layerDir i parent) := by
  have last {d : Dir} : WritesTx H ff tx d
      (match parent with
        | none => Pure.pure ()
        | some p => Layer.writeTx .setParent tx .parent (.text p.chainID))
      (match parent with
        | none => d
        | some p => d.insert .parent (.text p.chainID)) := by
    cases parent with
    | none => exact pure ()
    | some p => exact writeTx
  unfold Layer.storeLayer layerDir
  refine writeTx.bind fun _ => writeTx.bind fun _ => writeTx.bind fun _ => ?_
  by_cases hd : i.descriptor.digest = ""
  · simp only [hd, ne_eq, not_true_eq_false, if_false]
    exact last
  · simp only [hd, ne_eq, not_false_eq_true, if_true]
    exact writeTx.bind fun _ => last

end WritesTx

theorem applyTar_follows {tx : String} {ts : List UInt8} (h : c.tx = some (tx, ∅)) :
    Follow H ff (applyTar H tx ts).run c fun r c' => ∃ e, c' = { c with tx := some (tx, e) } ∧
      ∀ a, r = .ok a → e = (∅ : Dir).insert .tarSplit (.text "") ∧ a.1 = H.fromBytes ts := by
  refine Follows.bindE ((WritesTx.writeTx c h).mono fun r c₁ hr => ?_)
  obtain ⟨e, rfl, he⟩ := hr
  cases r with
  | error _ => exact ⟨e, rfl, nofun⟩
  | ok _ =>
    obtain rfl := he () rfl
    refine Follows.bindE (ask_noEffect.mono fun r c₂ hr => ?_)
    obtain ⟨rfl, -⟩ := hr
    cases r with
    | error _ => exact ⟨_, rfl, nofun⟩
    | ok _ =>
      refine Follows.bindE (ask_noEffect.mono fun r c₃ hr => ?_)
      obtain ⟨rfl, -⟩ := hr
      cases r with
      | error _ => exact ⟨_, rfl, nofun⟩
      | ok a => exact Follows.pure ⟨_, rfl, fun _ e => by cases e; exact ⟨rfl, rfl⟩⟩

/-! ### Registrations -/

/-- The state of a call that has `p` as parent and `v` as the mount it has
looked up. -/
def Call.At (p : Option RoLayer) (v : Option MountView) (c : Call) : Prop :=
  c.parent = p ∧ c.mount = v

theorem cleanup_follows {cacheID tx : String} {d : Dir} (hid : c.id = some cacheID)
    (hc : c.created = some cacheID) (htx : c.tx = some (tx, d)) :
    Follow H ff (cleanup cacheID tx) c fun _ c' => c'.At c.parent c.mount := by
  have cancel {c₁ : Call} (h₁ : c₁.tx = some (tx, d)) (h₂ : c₁.At c.parent c.mount) :
      Follow H ff (do let _ ← (ask .cancel (fun _ s => ({ s.1 with store := { s.1.store with
        tmp := s.1.store.tmp.erase tx } }, { s.2 with tx := none })) noEffect).run) c₁
        fun _ c' => c'.At c.parent c.mount :=
    Follows.bind (ask_follows (fun _ _ => ⟨.cancel h₁, h₂⟩) fun _ _ _ => ⟨.tick, h₂⟩)
  refine Follows.bind (ask_follows (fun _ _ => ⟨.driverRemoveCreated hid hc, cancel htx ⟨rfl, rfl⟩⟩) fun _ _ _ => ?_)
  unfold ifDone
  split
  · exact ⟨.driverRemoveCreated hid hc, cancel htx ⟨rfl, rfl⟩⟩
  · exact ⟨.tick, cancel htx ⟨rfl, rfl⟩⟩

theorem getParent_follows {id : ChainID} (h : c.parent = none) :
    Follow H ff (getParent id).run c fun r c' => match r with
      | .ok l => c' = { c with parent := some l }
      | .error _ => c' = c := by
  refine Follows.step fun w r w' c' _ he => ?_
  cases hl : w.ls.layerMap.lookup id with
  | none =>
    simp only [LayerStore.getWithoutLock, hl] at he
    cases he
    exact ⟨.skip, rfl⟩
  | some l =>
    simp only [LayerStore.getWithoutLock, hl] at he
    cases he
    exact ⟨.getParent h hl, rfl⟩

theorem releaseParent_follows {p : RoLayer} (h : c.parent = some p) :
    Follow H ff (releaseParent p) c fun _ c' => c' = { c with parent := none } :=
  Follows.step fun w r w' c' _ he => by cases he; exact ⟨.releaseParent h, rfl⟩

theorem releaseParentOnError_follows {p : RoLayer} (h : c.parent = some p) :
    Follow H ff (releaseParentOnError p) c fun _ c' => c' = { c with parent := none } :=
  Follows.bind (releaseParent_follows h)

theorem commit_true {w w' : World} {tx : String} {id : ChainID} (h : w.commit tx id = (true, w')) :
    ∃ d, w.store.tmp.lookup tx = some d ∧ id ∉ w.store.layers ∧
      w' = { w.tick with store := { w.store with
        tmp := w.store.tmp.erase tx, layers := w.store.layers.insert id d } } := by
  unfold World.commit at h
  split at h
  · cases h
  · rename_i d hd
    split at h
    · cases h
    · rename_i hn
      unfold World.request at h
      split at h
      · cases h; exact ⟨d, hd, hn, rfl⟩
      · cases h

theorem commit_false {w w' : World} {tx : String} {id : ChainID} (h : w.commit tx id = (false, w')) :
    w' = w.tick := by
  unfold World.commit World.request at h
  repeat' split at h
  all_goals first | cases h; rfl | cases h

theorem publish_follows {tx : String} {i : LayerInfo} {parent : Option RoLayer}
    (hp : c.parent = parent) (hid : c.id = some i.cacheID) (hc : c.created = some i.cacheID)
    (htx : c.tx = some (tx, layerDir i parent)) (depth : ∀ p, parent = some p → p.depth < maxLayerDepth)
    (diffID : ∃ b, i.diffID = H.fromBytes b) (chainID : ∃ b, i.chainID = H.fromBytes b) :
    Follow H ff (publish tx i parent).run c fun r c' => match r with
      | .ok _ => c'.At none c.mount
      | .error _ => c' = c := by
  subst hp
  refine Follows.step fun w r w' c' _ he => ?_
  cases hl : w.ls.layerMap.lookup i.chainID with
  | some l =>
    simp only [LayerStore.getWithoutLock, hl] at he
    cases he
    exact ⟨.reference hl, rfl⟩
  | none =>
    simp only [LayerStore.getWithoutLock, hl] at he
    rcases hw : w.commit tx i.chainID with ⟨_ | _, w₁⟩
    · simp only [hw] at he
      cases he
      rw [commit_false hw]
      exact ⟨.tick, rfl⟩
    · simp only [hw] at he
      cases he
      obtain ⟨d, hd, hn, rfl⟩ := commit_true hw
      exact ⟨.publish hid hc htx depth diffID chainID hl hd hn, rfl, rfl⟩

theorem exists_createChainIDFromParent (p : ChainID) (ts : List UInt8) :
    ∃ b, createChainIDFromParent H p [H.fromBytes ts] = H.fromBytes b := by
  simp only [createChainIDFromParent]
  split
  · exact ⟨ts, rfl⟩
  · exact ⟨_, rfl⟩

theorem registerOn_follows {ts : List UInt8} {parent : Option RoLayer} {descriptor : Descriptor}
    (hp : c.parent = parent) (hid : c.id = none) (hc : c.created = none) (htx : c.tx = none)
    (depth : ∀ p, parent = some p → p.depth < maxLayerDepth) :
    Follow H ff (registerOn H ts parent descriptor).run c fun r c' => match r with
      | .ok _ => c'.At none c.mount
      | .error _ => c'.At parent c.mount := by
  refine Follows.bindE ((generateRandomID_follows hid hc).mono fun r c₁ hr => ?_)
  obtain ⟨cacheID, rfl, rfl⟩ := hr
  refine Follows.bindE ((driverCreate_follows rfl).mono fun r c₂ hr => ?_)
  cases r with
  | error _ => subst hr; exact ⟨hp, rfl⟩
  | ok _ =>
    subst hr
    refine Follows.bindE ((startTransaction_follows (by exact htx)).mono fun r c₃ hr => ?_)
    cases r with
    | error _ => subst hr; exact ⟨hp, rfl⟩
    | ok tx =>
      subst hr
      refine Follows.onError (Follows.bindE ((applyTar_follows rfl).mono fun r c₄ hr => ?_))
      obtain ⟨e, rfl, he⟩ := hr
      cases r with
      | error _ =>
        exact (cleanup_follows rfl rfl rfl).mono fun _ c' hc' => ⟨hc'.1.trans hp, hc'.2⟩
      | ok a =>
        obtain ⟨rfl, ha⟩ := he a rfl
        refine Follows.bindE ((WritesTx.storeLayer _ rfl).mono fun r c₅ hr => ?_)
        obtain ⟨e, rfl, he⟩ := hr
        cases r with
        | error _ =>
          exact (cleanup_follows rfl rfl rfl).mono fun _ c' hc' => ⟨hc'.1.trans hp, hc'.2⟩
        | ok _ =>
          obtain rfl := he () rfl
          refine (publish_follows (by exact hp) rfl rfl rfl depth ⟨ts, ha⟩ ?_).mono fun r c₆ hr => ?_
          · cases parent with
            | none => exact ⟨ts, ha⟩
            | some p => exact ha ▸ exists_createChainIDFromParent p.chainID ts
          · cases r with
            | ok _ => exact hr
            | error _ =>
              subst hr
              exact (cleanup_follows rfl rfl rfl).mono fun _ c' hc' => ⟨hc'.1.trans hp, hc'.2⟩

theorem registerOrUndo_follows {ts : List UInt8} {parent : ChainID} {descriptor : Descriptor} :
    Follow H ff (registerOrUndo H ts parent descriptor).run {} fun _ c' => c'.At none none := by
  unfold registerOrUndo
  split
  · refine Follows.bindE ((getParent_follows rfl).mono fun r c₁ hr => ?_)
    cases r with
    | error _ => subst hr; exact ⟨rfl, rfl⟩
    | ok p =>
      subst hr
      refine Follows.onError (Follows.mono (P := fun r c' => match r with
        | .ok _ => c'.At none none
        | .error _ => c'.At (some p) none) ?_ fun r c' hr => ?_)
      · split
        · exact Follows.pure (a := (.error .maxDepthExceeded : Except Err LayerRef)) ⟨rfl, rfl⟩
        · rename_i hd
          exact registerOn_follows rfl rfl rfl rfl fun q hq => by cases hq; omega
      · cases r with
        | ok _ => exact hr
        | error _ =>
          refine (releaseParentOnError_follows hr.1).mono fun _ c'' hc'' => ?_
          subst hc''; exact ⟨rfl, hr.2⟩
  · refine (@registerOn_follows H ff {} ts none descriptor rfl rfl rfl rfl nofun).mono fun r c' hr => ?_
    cases r <;> exact hr

theorem registerWithDescriptor_follows {ts : List UInt8} {parent : ChainID} {descriptor : Descriptor} :
    Follow H ff (registerWithDescriptor H ts parent descriptor) {} fun _ c' => c'.At none none := by
  refine Follows.bind (registerOrUndo_follows.mono fun r c' hc' => ?_)
  split <;> exact hc'

theorem get_follows {id : ChainID} : Follow H ff (get id) c fun _ c' => c' = c := by
  refine Follows.atomically fun w _ => ⟨?_, rfl⟩
  cases hl : w.ls.layerMap.lookup id with
  | none => simpa only [World.get, LayerStore.getWithoutLock, hl] using .skip
  | some l => simpa only [World.get, LayerStore.getWithoutLock, hl] using .reference hl

theorem release_follows {l : LayerRef} : Follow H ff (release l) c fun _ c' => c' = c := by
  refine Follows.atomically fun w _ => ⟨?_, rfl⟩
  unfold World.release
  cases hl : w.ls.layerMap.lookup l.layer.chainID with
  | none => exact .skip
  | some layer =>
    simp only
    split
    · exact .skip
    · rename_i hr
      exact .release hl (not_not.mp hr)

/-! ### Mounts -/

/-- The mount is looked up; in a run without failures its directory is as it
is. -/
theorem lockMount_follows {name : String} (h : c.mount = none) :
    Follow H ff (lockMount name) c fun m c' => ∃ d, (ff → MountView.Settled ⟨name, m, d⟩) ∧
      c' = { c with mount := some ⟨name, m, d⟩ } := by
  refine Follows.step fun w m w' c' hA he => ?_
  simp only at he
  split at he
  · cases he
  · rename_i hl
    cases he
    have hl : w.ls.mountL = false := by simpa using hl
    exact ⟨.lockMount name h hl, _, fun hf => (hA hf).2 hl name, rfl⟩

theorem unlockMount_follows {v : MountView} (h : c.mount = some v) (hv : ff → v.Settled) :
    Follow H ff unlockMount c fun _ c' => c' = { c with mount := none } :=
  Follows.step fun w _ w' c' _ he => by cases he; exact ⟨.unlockMount h hv, rfl⟩

theorem setMount_eq {v : MountView} (h : c.mount = some v) (m : MountedLayer) (w : World) :
    setMount m (w, c) = ({ w with ls := { w.ls with mounts := w.ls.mounts.insert m.name m } },
      { c with mount := some { v with mount := some m } }) := by
  simp only [setMount, h, Option.map_some]

theorem updateMount_follows {v : MountView} {m m' : MountedLayer} (h : c.mount = some v)
    (hm : v.mount = some m) (hm' : m' = { m with references := m'.references }) :
    Follow H ff (updateMount m') c fun _ c' =>
      c' = { c with mount := some { v with mount := some m' } } := by
  refine Follows.step fun w _ w' c' _ he => ?_
  rw [setMount_eq h] at he
  cases he
  rw [hm']
  exact ⟨.references (m := m) m'.references h hm (Nat.le_refl _), rfl⟩

theorem mountReference_follows {v : MountView} {m : MountedLayer} (h : c.mount = some v)
    (hm : v.mount = some m) :
    Follow H ff (mountReference m) c fun _ c' => ∃ rs,
      c' = { c with mount := some { v with mount := some { m with references := rs } } } := by
  refine Follows.step fun w _ w' c' _ he => ?_
  simp only [setMount_eq h] at he
  cases he
  exact ⟨.references _ h hm (Nat.le_succ _), _, rfl⟩

/-- `x` makes driver layers of the mount: it leaves the state of the call as
it is, and fails in a run with failures only. -/
def Quiet {α : Type} (H : Hash) (ff : Prop) (x : LS α) (c : Call) (Q : α → Prop) : Prop :=
  Follow H ff x.run c fun r c' => c' = c ∧ match r with
    | .ok a => Q a
    | .error _ => ¬ ff

theorem Quiet.bind {α β : Type} {x : LS α} {f : α → LS β} {P : α → Prop} {Q : β → Prop}
    (hx : Quiet H ff x c P) (hf : ∀ a, P a → Quiet H ff (f a) c Q) : Quiet H ff (x >>= f) c Q := by
  refine Follows.bindE (Follows.mono hx fun r c' hr => ?_)
  obtain ⟨rfl, hr⟩ := hr
  cases r with
  | ok a => exact hf a hr
  | error _ => exact ⟨rfl, hr⟩

theorem Quiet.pure {α : Type} {a : α} {Q : α → Prop} (h : Q a) :
    Quiet H ff (Pure.pure a : LS α) c Q := ⟨rfl, h⟩

theorem Quiet.noEffect {op : Op} : Quiet H ff (ask op Layer.noEffect Layer.noEffect) c fun _ => True :=
  ask_noEffect.mono fun r c' hr => ⟨hr.1, by cases r <;> simp_all⟩

theorem Quiet.driverCreate {op : Op} {id i : String} (h : c.id = some id)
    (hi : i = id ∨ i = id ++ "-init") :
    Quiet H ff (ask op (fun _ => addDriver i) (ifDone (addDriver i))) c fun _ => True := by
  unfold Quiet
  refine ask_follows (fun _ _ => ⟨.driverCreateMount h hi, rfl, trivial⟩) fun w _ hf => ?_
  exact ifDone_rule (P := fun s => Action H ff (w, c) s ∧ s.2 = c ∧ ¬ ff) ⟨.driverCreateMount h hi, rfl, hf⟩ ⟨.tick, rfl, hf⟩

theorem initMount_follows {id : String} (h : c.id = some id) :
    Quiet H ff (initMount id) c fun initID => initID = id ++ "-init" := by
  refine (Quiet.driverCreate h (.inr rfl)).bind fun _ _ => ?_
  refine Quiet.noEffect.bind fun _ _ => Quiet.bind (P := fun _ => True) ?_ fun _ _ =>
    Quiet.noEffect.bind fun _ _ => Quiet.pure rfl
  refine Follows.onError (Quiet.noEffect.mono fun r c' hr => ?_)
  obtain ⟨rfl, hr⟩ := hr
  cases r with
  | ok _ => exact ⟨rfl, trivial⟩
  | error _ => exact Follows.bind (ask_noEffect.mono fun _ c'' hc'' => ⟨hc''.1, hr⟩)

theorem initMountIf_follows {init : Bool} {id : String} (h : c.id = some id) :
    Quiet H ff (initMountIf init id) c fun initID => initID = "" ∨ initID = id ++ "-init" := by
  unfold initMountIf
  split
  · refine (initMount_follows h).mono fun r c' hr => ⟨hr.1, ?_⟩
    cases r with
    | ok _ => exact .inr hr.2
    | error _ => exact hr.2
  · exact Quiet.pure (.inl rfl)

/-- If `x` succeeds, as it does in a run without failures, it takes the
directory of the mount `name`, which is not there yet, from `d` to `d'`. -/
def WritesMount {α : Type} (H : Hash) (ff : Prop) (name : String) (d : Option Dir) (x : LS α)
    (d' : Option Dir) : Prop :=
  ∀ c : Call, c.mount = some ⟨name, none, d⟩ → Follow H ff x.run c fun r c' =>
    ∃ e, c' = { c with mount := some ⟨name, none, e⟩ } ∧ match r with
      | .ok _ => e = d'
      | .error _ => ¬ ff

namespace WritesMount

variable {α β : Type} {name : String} {d d₁ d₂ : Option Dir}

theorem pure (a : α) : WritesMount H ff name d (Pure.pure a) d := fun c h =>
  Follows.pure ⟨d, by rw [← h], rfl⟩

theorem bind {x : LS α} {f : α → LS β} (hx : WritesMount H ff name d x d₁)
    (hf : ∀ a, WritesMount H ff name d₁ (f a) d₂) : WritesMount H ff name d (x >>= f) d₂ := by
  intro c h
  refine Follows.bindE ((hx c h).mono fun r c' hr => ?_)
  obtain ⟨e, rfl, he⟩ := hr
  cases r with
  | error _ => exact ⟨e, rfl, he⟩
  | ok a =>
    obtain rfl : e = d₁ := he
    exact hf a _ rfl

theorem writeMount {op : Op} {f : FileName} {x : File} :
    WritesMount H ff name d (writeMount op name f x) (some ((d.getD ∅).insert f x)) := by
  intro c h
  have write {w : World} {x : File} : Action H ff (w, c)
      ({ w.tick with store := w.store.writeMount name f x },
        { c with mount := c.mount.map (·.write f x) }) := by
    simpa only [h] using .writeMount h rfl
  refine Follows.bindE (ask_follows (fun w a => ⟨write, ?_⟩) fun w a hf => ?_)
  · exact Follows.pure ⟨_, by simp only [h]; rfl, rfl⟩
  · cases a.left with
    | nothing => exact ⟨.tick, d, by rw [← h], hf⟩
    | directory =>
      exact ⟨by simpa only [h] using .mkdirMount h rfl, _, by simp only [h]; rfl, hf⟩
    | truncated t => exact ⟨write, _, by simp only [h]; rfl, hf⟩

theorem writeMountFiles {m : MountedLayer} :
    WritesMount H ff m.name d (writeMountFiles m) (some (saveMountDir m (d.getD ∅))) := by
  have last {d : Dir} : WritesMount H ff m.name (some d)
      (match m.parent with
        | none => Pure.pure ()
        | some p => Layer.writeMount .setMountParent m.name .parent (.text p.chainID))
      (some (match m.parent with
        | none => d
        | some p => d.insert .parent (.text p.chainID))) := by
    cases m.parent with
    | none => exact pure ()
    | some p => exact writeMount
  unfold Layer.writeMountFiles saveMountDir
  refine writeMount.bind fun _ => ?_
  by_cases hi : m.initID = ""
  · simp only [hi, ne_eq, not_true_eq_false, if_false]
    exact last
  · simp only [hi, ne_eq, not_false_eq_true, if_true]
    exact writeMount.bind fun _ => last

end WritesMount

theorem publishMount_follows {v : MountView} {m : MountedLayer} (h : c.mount = some v)
    (hm : v.mount = none) (hn : m.name = v.name) (hp : c.parent = m.parent)
    (hid : c.id = some m.mountID) (hcr : c.created = none)
    (hi : m.initID = "" ∨ m.initID = m.mountID ++ "-init") (hd : ff → v.dir = some (mountDir m)) :
    Follow H ff (publishMount m) c fun _ c' =>
      c' = { c with parent := none, id := none, mount := some { v with mount := some m } } := by
  refine Follows.step fun w _ w' c' _ he => ?_
  simp only [setMount_eq h] at he
  cases he
  exact ⟨.publishMount h hm hn hp hid hcr hi hd, rfl⟩

theorem saveMount_follows {name : String} {m : MountedLayer} {d : Option Dir}
    (h : c.mount = some ⟨name, none, d⟩) (hn : m.name = name) (hp : c.parent = m.parent)
    (hid : c.id = some m.mountID) (hcr : c.created = none)
    (hi : m.initID = "" ∨ m.initID = m.mountID ++ "-init") (hd : ff → d = none) :
    Follow H ff (saveMount m).run c fun r c' => match r with
      | .ok _ => ∃ e, (ff → e = some (mountDir m)) ∧
        c' = { c with parent := none, id := none, mount := some ⟨name, some m, e⟩ }
      | .error _ => ¬ ff ∧ ∃ e, c' = { c with mount := some ⟨name, none, e⟩ } := by
  subst hn
  refine Follows.bindE ((WritesMount.writeMountFiles c h).mono fun r c₁ hr => ?_)
  obtain ⟨e, rfl, he⟩ := hr
  cases r with
  | error _ => exact ⟨he, e, rfl⟩
  | ok _ =>
    have hd' (hf : ff) : e = some (mountDir m) := by rw [show e = _ from he, hd hf]; rfl
    refine Follows.bind ((publishMount_follows rfl rfl rfl (by exact hp) (by exact hid)
      (by exact hcr) hi (by exact hd')).mono fun _ c₂ hr => ?_)
    exact ⟨e, hd', hr⟩

theorem createRWLayerOn_follows {name : String} {parent : Option RoLayer} {init : Bool}
    {d : Option Dir} (h : c.mount = some ⟨name, none, d⟩) (hp : c.parent = parent)
    (hid : c.id = none) (hc : c.created = none) (hd : ff → d = none) :
    Follow H ff (createRWLayerOn name parent init).run c fun r c' => match r with
      | .ok _ => ∃ v, (ff → v.Settled) ∧ c'.At none (some v)
      | .error _ => ¬ ff ∧ ∃ v, c'.At parent (some v) := by
  refine Follows.bindE ((generateRandomID_follows hid hc).mono fun r c₁ hr => ?_)
  obtain ⟨mountID, rfl, rfl⟩ := hr
  refine Follows.bindE ((initMountIf_follows rfl).mono fun r c₂ hr => ?_)
  obtain ⟨rfl, hr⟩ := hr
  cases r with
  | error _ => exact ⟨hr, _, hp, h⟩
  | ok initID =>
    refine Follows.bindE (Follows.mono (Quiet.driverCreate rfl (.inl rfl)) fun r c₃ hr' => ?_)
    obtain ⟨rfl, hr'⟩ := hr'
    cases r with
    | error _ => exact ⟨hr', _, hp, h⟩
    | ok _ =>
      refine Follows.bindE ((saveMount_follows (by exact h) rfl (by exact hp) rfl (by exact hc) hr hd).mono
        fun r c₄ hr => ?_)
      cases r with
      | error _ =>
        obtain ⟨hf, e, rfl⟩ := hr
        exact ⟨hf, _, hp, rfl⟩
      | ok _ =>
        obtain ⟨e, he, rfl⟩ := hr
        refine Follows.bind ((mountReference_follows rfl rfl).mono fun _ c₅ hr => ?_)
        obtain ⟨rs, rfl⟩ := hr
        exact ⟨_, by exact he, rfl, rfl⟩

theorem createRWLayerLocked_follows {name : String} {parent : ChainID} {init : Bool}
    {m : Option MountedLayer} {d : Option Dir} (h : c.At none (some ⟨name, m, d⟩))
    (hid : c.id = none) (hc : c.created = none) (hd : ff → MountView.Settled ⟨name, m, d⟩) :
    Follow H ff (createRWLayerLocked name parent init m).run c fun _ c' =>
      ∃ v, (ff → v.Settled) ∧ c'.At none (some v) := by
  cases m with
  | some m => exact Follows.pure (a := (.error .mountNameConflict : Except Err RWLayerRef)) ⟨_, hd, h⟩
  | none =>
    simp only [createRWLayerLocked]
    split
    · refine Follows.bindE ((getParent_follows h.1).mono fun r c₁ hr => ?_)
      cases r with
      | error _ => subst hr; exact ⟨_, hd, h⟩
      | ok p =>
        subst hr
        refine Follows.onError ((@createRWLayerOn_follows H ff { c with parent := some p } name
          (some p) init d h.2 rfl hid hc hd).mono fun r c₂ hr => ?_)
        cases r with
        | ok _ => exact hr
        | error _ =>
          obtain ⟨hf, v, hv⟩ := hr
          refine (releaseParentOnError_follows hv.1).mono fun _ c₃ hr => ?_
          subst hr
          exact ⟨v, fun h => absurd h hf, rfl, hv.2⟩
    · refine (createRWLayerOn_follows h.2 h.1 hid hc hd).mono fun r c₁ hr => ?_
      cases r with
      | ok _ => exact hr
      | error _ =>
        obtain ⟨hf, v, hv⟩ := hr
        exact ⟨v, fun h => absurd h hf, hv⟩

/-- Unlocking at the end of a call. -/
theorem unlock_return {α : Type} {a : α} {v : MountView} (hv : ff → v.Settled)
    (h : c.At none (some v)) :
    Follow H ff (do unlockMount; return a) c fun _ c' => c'.At none none :=
  Follows.bind ((unlockMount_follows h.2 hv).mono fun _ c' hc => by subst hc; exact ⟨h.1, rfl⟩)

theorem createRWLayer_follows {name : String} {parent : ChainID} {init : Bool} :
    Follow H ff (createRWLayer name parent init) {} fun _ c' => c'.At none none := by
  refine Follows.bind ((lockMount_follows rfl).mono fun m c₁ hr => ?_)
  obtain ⟨d, hd, rfl⟩ := hr
  refine Follows.bind ((createRWLayerLocked_follows ⟨rfl, rfl⟩ rfl rfl hd).mono fun r c₂ hr => ?_)
  obtain ⟨v, hv, hc⟩ := hr
  exact unlock_return hv hc

theorem getRWLayer_follows {id : String} :
    Follow H ff (getRWLayer id) {} fun _ c' => c'.At none none := by
  refine Follows.bind ((lockMount_follows rfl).mono fun m c₁ hr => ?_)
  obtain ⟨d, hd, rfl⟩ := hr
  cases m with
  | none => exact unlock_return hd ⟨rfl, rfl⟩
  | some m =>
    refine Follows.bind ((mountReference_follows rfl rfl).mono fun r c₂ hr => ?_)
    obtain ⟨rs, rfl⟩ := hr
    exact unlock_return (by exact hd) ⟨rfl, rfl⟩

theorem removeMount_follows {v : MountView} {m : MountedLayer} (h : c.mount = some v)
    (hm : v.mount = some m) :
    Follow H ff (removeMount m).run c fun r c' => match r with
      | .ok _ => c' = { c with mount := some { v with dir := none } }
      | .error _ => ¬ ff ∧ c' = c := by
  have remove {i : String} (hi : i = m.mountID ∨ i = m.initID ∧ m.initID ≠ "") :
      Quiet H ff (ask .driverRemove (fun _ => eraseDriver i) (ifDone (eraseDriver i))) c fun _ => True := by
    unfold Quiet
    refine ask_follows (fun _ _ => ⟨.driverRemoveMount h hm hi, rfl, trivial⟩) fun w _ hf => ?_
    exact ifDone_rule (P := fun s => Action H ff (w, c) s ∧ s.2 = c ∧ ¬ ff) ⟨.driverRemoveMount h hm hi, rfl, hf⟩
      ⟨.tick, rfl, hf⟩
  have last : Follow H ff (do
      let _ ← ask .removeMount (fun _ s => ({ s.1 with store := { s.1.store with
        mounts := s.1.store.mounts.erase m.name } },
        { s.2 with mount := s.2.mount.map fun v => { v with dir := none } })) noEffect : LS Unit).run c
      fun r c' => match r with
        | .ok _ => c' = { c with mount := some { v with dir := none } }
        | .error _ => ¬ ff ∧ c' = c := by
    refine Follows.bindE (ask_follows (fun w _ => ⟨?_, ?_⟩) fun _ _ hf => ⟨.tick, hf, rfl⟩)
    · simpa only [h] using .removeMount h hm
    · exact Follows.pure (by simp only [h]; rfl)
  unfold removeMount
  refine Follows.bindE (Follows.mono (remove (.inl rfl)) fun r c₁ hr => ?_)
  obtain ⟨rfl, hr⟩ := hr
  cases r with
  | error _ => exact ⟨hr, rfl⟩
  | ok _ =>
    by_cases hi : m.initID = ""
    · simp only [hi, ne_eq, not_true_eq_false, if_false]
      exact last
    · simp only [hi, ne_eq, not_false_eq_true, if_true]
      refine Follows.bindE (Follows.mono (remove (.inr ⟨rfl, hi⟩)) fun r c₁ hr => ?_)
      obtain ⟨rfl, hr⟩ := hr
      cases r with
      | error _ => exact ⟨hr, rfl⟩
      | ok _ => exact last

theorem deleteMount_follows {v : MountView} {m : MountedLayer} (h : c.At none (some v))
    (hm : v.mount = some m) (hd : v.dir = none) :
    Follow H ff (deleteMount m) c fun _ c' => c'.At m.parent (some { v with mount := none }) := by
  refine Follows.step fun w _ w' c' _ he => ?_
  simp only [h.2, Option.map_some] at he
  cases he
  exact ⟨.deleteMount h.2 hm h.1 fun _ => hd, rfl, rfl⟩

theorem releaseMount_follows {l : RWLayerRef} {v : MountView} {m : MountedLayer}
    (h : c.At none (some v)) (hm : v.mount = some m) (hv : ff → v.Settled) :
    Follow H ff (releaseMount l m) c fun _ c' =>
      ∃ v, (ff → v.Settled) ∧ c'.At none (some v) := by
  unfold releaseMount
  by_cases hl : l.ref ∈ m.references
  · simp only [hl, not_true_eq_false, if_false]
    refine Follows.bind ((updateMount_follows h.2 hm rfl).mono fun _ c₁ hr => ?_)
    subst hr
    split
    · refine Follows.pure ⟨_, fun hf => ?_, h.1, rfl⟩
      have := hv hf
      rw [MountView.Settled, hm] at this
      exact this
    · refine Follows.bind ((removeMount_follows rfl rfl).mono fun r c₂ hr => ?_)
      cases r with
      | error _ =>
        obtain ⟨hf, rfl⟩ := hr
        refine Follows.bind ((updateMount_follows rfl rfl rfl).mono fun _ c₃ hr => ?_)
        subst hr
        exact ⟨_, fun h => absurd h hf, h.1, rfl⟩
      | ok _ =>
        subst hr
        refine Follows.bind ((deleteMount_follows ⟨by exact h.1, rfl⟩ rfl rfl).mono fun _ c₃ hr => ?_)
        split
        · rename_i hp
          exact Follows.pure ⟨_, by exact fun _ => rfl, hr.1.trans hp, hr.2⟩
        · rename_i p hp
          refine (releaseParent_follows (hr.1.trans hp)).mono fun _ c₄ hr' => ?_
          subst hr'
          exact ⟨_, by exact fun _ => rfl, rfl, hr.2⟩
  · simp only [hl, not_false_eq_true, if_true]
    exact Follows.pure ⟨v, hv, h⟩

theorem releaseRWLayer_follows {l : RWLayerRef} :
    Follow H ff (releaseRWLayer l) {} fun _ c' => c'.At none none := by
  refine Follows.bind ((lockMount_follows rfl).mono fun m c₁ hr => ?_)
  obtain ⟨d, hd, rfl⟩ := hr
  cases m with
  | none => exact unlock_return hd ⟨rfl, rfl⟩
  | some m =>
    refine Follows.bind ((releaseMount_follows ⟨rfl, rfl⟩ rfl hd).mono fun r c₂ hr => ?_)
    obtain ⟨v, hv, hc⟩ := hr
    exact unlock_return hv hc

/-- The steps of every call are among the actions, and a call that returns
has no layer in hand and does not hold `mountL`. -/
theorem Request.follows (q : Request) : Follow H ff (q.prog H) {} fun _ c' => c'.At none none := by
  cases q with
  | register => exact Follows.bind registerWithDescriptor_follows
  | get => exact Follows.bind (get_follows.mono fun _ _ h => by subst h; exact ⟨rfl, rfl⟩)
  | release => exact Follows.bind (release_follows.mono fun _ _ h => by subst h; exact ⟨rfl, rfl⟩)
  | createRWLayer => exact Follows.bind createRWLayer_follows
  | getRWLayer => exact Follows.bind getRWLayer_follows
  | releaseRWLayer => exact Follows.bind releaseRWLayer_follows

end Moby.Layer
