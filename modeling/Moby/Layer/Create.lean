import Moby.Layer.Failing

/-!
# What a failed `CreateRWLayer` leaves

`CreateRWLayer` that runs alone while one step of it fails, and what it does
then (`Creates`). Only its parent is released: the driver layers that it has
made and the metadata that it has written stay. So nothing is left only if
the step that fails is the first one and the driver has not made its layer all
the same (`createRWLayer_undone_iff`), and a
parent that nothing held, left in the map by an earlier removal that failed,
is deleted even then.
-/

namespace Moby.Layer

open Moby.Framework Moby.Digest

/-- The steps of `saveMount`. -/
def saveOps (init : Bool) (parent : Option RoLayer) : List Op :=
  .setMountID :: (if init then [.setInitID] else []) ++ if parent.isSome then [.setMountParent] else []

/-- The first step of `CreateRWLayer` on its parent. -/
def firstOp (init : Bool) : Op := if init then .driverCreate else .driverCreateReadWrite

/-- The other steps of `CreateRWLayer` on its parent. -/
def laterOps (init : Bool) (parent : Option RoLayer) : List Op :=
  (if init then [.driverGet, .initFunc, .driverPut, .driverCreateReadWrite] else []) ++
    saveOps init parent

/-- The driver may have more layers, and its layer store is the same. -/
structure Grows (w w' : World) : Prop where
  env : w'.env = w.env
  ls : w'.ls = w.ls
  driver : w.driver ⊆ w'.driver

instance : WorldFrame Grows where
  refl _ := ⟨rfl, rfl, Finset.Subset.refl _⟩
  trans _ _ _ h₁ h₂ := ⟨h₂.env.trans h₁.env, h₂.ls.trans h₁.ls, h₁.driver.trans h₂.driver⟩
  env _ _ h := h.env
  tick _ := ⟨rfl, rfl, Finset.Subset.refl _⟩

theorem Same.tick {w w' : World} (h : Same w w') : Same w w'.tick := ⟨h.env, h.ls, h.driver, h.store⟩

theorem Same.grows {w w' : World} (h : Same w w') : Grows w w' := ⟨h.env, h.ls, h.driver ▸ Finset.Subset.refl _⟩

theorem Grows.trans {w w₁ w₂ : World} (h₁ : Grows w w₁) (h₂ : Grows w₁ w₂) : Grows w w₂ :=
  WorldFrame.trans _ _ _ h₁ h₂

/-- `ls.driver.Create` or `ls.driver.CreateReadWrite` of a layer. -/
theorem Grows.create (w : World) (id : String) : Grows w { w.tick with driver := insert id w.driver } :=
  ⟨rfl, rfl, Finset.subset_insert _ _⟩

/-- The step of `CreateRWLayer` on its parent that fails leaves a driver layer: one
is made before it, or it makes one all the same. -/
def LeavesMount (init : Bool) (parent : Option RoLayer) (w : World) (o : Op) : Prop :=
  o ∈ laterOps init parent ∨ o = firstOp init ∧ (w.tick.answer o).done = true

/-- What `CreateRWLayer` on `parent` does, and when, if the steps `f` fail. -/
inductive Creates (f : Option Op) (init : Bool) (parent : Option RoLayer) (w : World) :
    Except Err RWLayerRef → World → Prop
  | first {w'} (hf : f = some (firstOp init)) (hd : (w.tick.answer (firstOp init)).done = false) (hw : Same w w') :
    Creates f init parent w (.error (.failed (firstOp init))) w'
  | later {w' o id x} (hf : f = some o) (ho : LeavesMount init parent w o) (hw : Grows w w')
    (hid : IsRandomID id) (new : id ∉ w.issued) (hn : Names id x) (hx : x ∈ w'.driver) :
    Creates f init parent w (.error (.failed o)) w'
  | published {w' h} (hf : ∀ o ∈ firstOp init :: laterOps init parent, f ≠ some o) :
    Creates f init parent w (.ok h) w'

/-- `ls.mountL.Lock()`. -/
def World.lockMounts (w : World) : World := { w with ls := { w.ls with mountL := true } }

/-- `ls.mountL.Unlock()`. -/
def World.unlockMounts (w : World) : World := { w with ls := { w.ls with mountL := false } }

section

variable {f : Option Op} {w : World} {c : Call}

namespace Tries

theorem writeMount {op : Op} {mount : String} {file : FileName} {x : File} :
    Tries Grows f [op] (Layer.writeMount op mount file x) fun _ => True := by
  show Tries Grows f ([op] ++ []) _ _
  have tick (w : World) : Grows w w.tick := WorldFrame.tick w
  refine bind (ask (fun w _ _ => ⟨rfl, rfl, (tick w).driver⟩) fun w _ a => ?_) fun _ _ => pure trivial
  cases a.left with
  | nothing => exact tick w
  | directory => exact ⟨rfl, rfl, (tick w).driver⟩
  | truncated t => exact ⟨rfl, rfl, (tick w).driver⟩

theorem writeMountParent {m : MountedLayer} : Tries Grows f (if m.parent.isSome then [.setMountParent] else [])
    (match m.parent with
      | none => Pure.pure ()
      | some p => Layer.writeMount .setMountParent m.name .parent (.text p.chainID)) fun _ => True := by
  cases m.parent with
  | none => exact pure trivial
  | some p => exact writeMount

theorem writeMountFiles {m : MountedLayer} {init : Bool} (hi : m.initID ≠ "" ↔ init = true) :
    Tries Grows f (saveOps init m.parent) (writeMountFiles m) fun _ => True := by
  unfold Layer.writeMountFiles saveOps
  refine writeMount.bind fun _ _ => ?_
  simp only [hi]
  cases init with
  | false => exact writeMountParent
  | true => exact writeMount.bind fun _ _ => writeMountParent

end Tries

theorem saveMount_triple {m : MountedLayer} (init : Bool) (hi : m.initID ≠ "" ↔ init = true)
    (hf : FailsOnly w.env f) :
    Triple (do saveMount m; mountReference m : LS RWLayerRef).run (w, c) fun r s => match r with
      | .ok _ => ∀ o ∈ saveOps init m.parent, f ≠ some o
      | .error e => Grows w s.1 ∧ ∃ o ∈ saveOps init m.parent, f = some o ∧ e = .failed o := by
  refine Triple.bindE (Triple.bindE ((Tries.writeMountFiles hi w c hf).mono fun r s hr => ?_))
  cases r with
  | error e => exact hr
  | ok _ =>
    refine Triple.bind (Triple.step fun _ s₁ h₁ => Triple.ret ?_)
    refine Triple.bind (Triple.step fun _ s₂ h₂ => Triple.ret ?_)
    exact hr.2.2

theorem Tries.onError {α : Type} {R : World → World → Prop} [WorldFrame R] {ops : List Op}
    {x : LS α} {cleanup : P Unit} {Q : α → Prop} (hx : Tries R f ops x Q)
    (hc : ∀ w c, Triple cleanup (w, c) fun _ s => R w s.1) :
    Tries R f ops (Prog.onError cleanup x) Q := by
  intro w c hf
  refine Triple.onError ((hx w c hf).mono fun r s hr => ?_)
  cases r with
  | ok a => exact hr
  | error e => exact (hc s.1 s.2).mono fun _ s' h => ⟨WorldFrame.trans _ _ _ hr.1 h, hr.2⟩

/-- What `initMount` does. -/
theorem initMount_triple {id : String} (hf : FailsOnly w.env f) :
    Triple (initMount id).run (w, c) fun r s => match r with
      | .ok initID => initID = id ++ "-init" ∧
        (∀ o ∈ [Op.driverCreate, .driverGet, .initFunc, .driverPut], f ≠ some o) ∧
        Grows w s.1 ∧ id ++ "-init" ∈ s.1.driver
      | .error e => f = some .driverCreate ∧ (w.answer .driverCreate).done = false ∧ e = .failed .driverCreate ∧
          Same w s.1 ∨
        ∃ o, (o ∈ [Op.driverGet, .initFunc, .driverPut] ∨ o = .driverCreate ∧ (w.answer o).done = true) ∧
          f = some o ∧ e = .failed o ∧ Grows w s.1 ∧ id ++ "-init" ∈ s.1.driver := by
  have put (w : World) (c : Call) :
      Triple (do let _ ← (ask .driverPut noEffect noEffect).run : P Unit) (w, c) fun _ s => Grows w s.1 := by
    refine Triple.bind (Triple.step fun r s h => Triple.ret ?_)
    simp only at h
    split at h <;> cases h <;> exact WorldFrame.tick w
  have rest : Tries Grows f [.driverGet, .initFunc, .driverPut] (do
      let _ ← ask .driverGet noEffect noEffect
      let _ ← Prog.onError (do let _ ← (ask .driverPut noEffect noEffect).run) <|
        ask .initFunc noEffect noEffect
      let _ ← ask .driverPut noEffect noEffect
      return id ++ "-init") fun a => a = id ++ "-init" :=
    Tries.noEffect.bind fun _ _ => (Tries.noEffect.onError put).bind fun _ _ =>
      Tries.noEffect.bind fun _ _ => Tries.pure rfl
  refine Triple.bindE (ask_triple hf (fun a h => ?_) fun h => ?_)
  case refine_2 =>
    cases hdone : (w.answer .driverCreate).done with
    | true =>
      rw [ifDone_of_done hdone]
      exact .inr ⟨_, .inr ⟨rfl, hdone⟩, h, rfl, Grows.create w _, Finset.mem_insert_self _ _⟩
    | false =>
      rw [ifDone_of_not_done hdone]
      exact .inl ⟨h, rfl, rfl, rfl, rfl, rfl, rfl⟩
  refine (rest _ _ (by exact hf)).mono fun r s hr => ?_
  have hw := (Grows.create w (id ++ "-init")).trans hr.1
  have hx : id ++ "-init" ∈ s.1.driver := hr.1.driver (Finset.mem_insert_self _ _)
  cases r with
  | ok _ =>
    refine ⟨hr.2.1, fun o ho => ?_, hw, hx⟩
    rcases List.mem_cons.mp ho with rfl | ho
    · exact h
    · exact hr.2.2 o ho
  | error e =>
    obtain ⟨o, ho, hfo, he⟩ := hr.2
    exact .inr ⟨o, .inl ho, hfo, he, hw, hx⟩

/-- What `CreateRWLayer` on its parent does. -/
theorem createRWLayerOn_triple {name : String} {parent : Option RoLayer} {init : Bool}
    (hf : FailsOnly w.env f) :
    Triple (createRWLayerOn name parent init).run (w, c) fun r s => Creates f init parent w r s.1 := by
  refine Triple.bindE (generateRandomID_triple.mono fun r s₁ h₁ => ?_)
  obtain ⟨id, rfl, hid, new, h₁, hclock⟩ := h₁
  have hf₁ : FailsOnly s₁.1.env f := h₁.env ▸ hf
  have hanswer (o : Op) : s₁.1.answer o = w.tick.answer o := by
    simp only [World.answer, World.tick, h₁.env, hclock]
  cases init with
  | false =>
    refine Triple.bindE (Triple.ret ?_)
    refine Triple.bindE (ask_triple hf₁ (fun _ h => ?_) fun h => ?_)
    case refine_2 =>
      rw [hanswer]
      cases hdone : (w.tick.answer .driverCreateReadWrite).done with
      | true =>
        rw [ifDone_of_done hdone]
        exact .later h (.inr ⟨rfl, hdone⟩) (h₁.grows.trans (Grows.create s₁.1 id)) hid new (.inl rfl)
          (Finset.mem_insert_self _ _)
      | false =>
        rw [ifDone_of_not_done hdone]
        exact .first h hdone h₁.tick
    refine (saveMount_triple false (by simp) (by exact hf₁)).mono fun r s hr => ?_
    cases r with
    | ok _ => exact .published (by simpa [firstOp, laterOps] using ⟨h, hr⟩)
    | error e =>
      obtain ⟨hw, o, ho, hfo, rfl⟩ := hr
      exact .later hfo (.inl ho) (h₁.grows.trans ((Grows.create s₁.1 id).trans hw)) hid new (.inl rfl)
        (hw.driver (Finset.mem_insert_self _ _))
  | true =>
    refine Triple.bindE ((initMount_triple hf₁).mono fun r s₂ h₂ => ?_)
    cases r with
    | error e =>
      rcases h₂ with ⟨h, hdone, rfl, h₂⟩ | ⟨o, ho, hfo, rfl, hw, hx⟩
      · exact .first h (hanswer _ ▸ hdone) (h₁.trans h₂)
      · refine .later hfo ?_ (h₁.grows.trans hw) hid new (.inr rfl) hx
        rcases ho with ho | ⟨rfl, hdone⟩
        · simp only [List.mem_cons, List.not_mem_nil, or_false] at ho
          rcases ho with rfl | rfl | rfl <;> simp [LeavesMount, laterOps]
        · exact .inr ⟨rfl, hanswer _ ▸ hdone⟩
    | ok initID =>
      obtain ⟨rfl, h, hw, hx⟩ := h₂
      have hw := h₁.grows.trans hw
      have hf₂ : FailsOnly s₂.1.env f := hw.env ▸ hf
      refine Triple.bindE (ask_triple hf₂ (fun _ h' => ?_) fun h' => ?_)
      · refine (saveMount_triple true (by simp) (by exact hf₂)).mono fun r s hr => ?_
        cases r with
        | ok _ =>
          refine .published fun o ho => ?_
          have ho : o ∈ [.driverCreate, .driverGet, .initFunc, .driverPut] ++
            .driverCreateReadWrite :: saveOps true parent := ho
          rcases List.mem_append.mp ho with ho | ho
          · exact h o ho
          · rcases List.mem_cons.mp ho with rfl | ho
            · exact h'
            · exact hr o ho
        | error e =>
          obtain ⟨hw₃, o, ho, hfo, rfl⟩ := hr
          exact .later hfo (.inl (List.mem_append_right _ ho)) (hw.trans ((Grows.create s₂.1 id).trans hw₃))
            hid new (.inr rfl) (hw₃.driver (Finset.mem_insert_of_mem hx))
      · refine ifDone_rule (P := fun s => Creates f true parent w (.error (.failed .driverCreateReadWrite)) s.1) ?_ ?_
        · exact .later h' (.inl (by simp [laterOps])) (hw.trans (Grows.create _ _)) hid new (.inr rfl)
            (Finset.mem_insert_of_mem hx)
        · exact .later h' (.inl (by simp [laterOps])) (hw.trans (WorldFrame.tick _)) hid new (.inr rfl) hx

/-- What `CreateRWLayer` does under `mountL`. -/
theorem createRWLayerLocked_triple {name : String} {parent : ChainID} {init : Bool} (hf : FailsOnly w.env f) :
    Triple (createRWLayerLocked name parent init none).run (w, c) fun r s =>
      parentOf w.ls parent = none ∧ r = .error .layerDoesNotExist ∧ s.1 = w ∨
      ∃ p w₁, parentOf w.ls parent = some p ∧ Creates f init p (retained w p) r w₁ ∧
        s.1 = afterRelease r p w₁ := by
  exact onParent_triple (createRWLayerOn_triple hf) fun _ _ _ => createRWLayerOn_triple (by exact hf)

/-- What `CreateRWLayer` does. -/
theorem createRWLayer_triple {name : String} {parent : ChainID} {init : Bool}
    (hf : FailsOnly w.env f) :
    Triple (createRWLayer name parent init) (w, {}) fun r s =>
      name ∈ w.ls.mounts ∧ r = .error .mountNameConflict ∧ s.1 = w ∨
      name ∉ w.ls.mounts ∧ parentOf w.ls parent = none ∧ r = .error .layerDoesNotExist ∧ s.1 = w ∨
      name ∉ w.ls.mounts ∧ ∃ p w₁, parentOf w.ls parent = some p ∧
        Creates f init p (retained w.lockMounts p) r w₁ ∧ s.1 = (afterRelease r p w₁).unlockMounts := by
  refine Triple.bind (Triple.step fun m s h => ?_)
  simp only at h
  split at h
  · cases h
  · rename_i hL
    cases h
    have hw : w.lockMounts.unlockMounts = w := by
      simp only [World.lockMounts, World.unlockMounts, ← Bool.eq_false_iff.mpr hL]
    refine Triple.bind (Triple.mono (P := fun r s =>
      name ∈ w.ls.mounts ∧ r = .error .mountNameConflict ∧ s.1 = w.lockMounts ∨
      name ∉ w.ls.mounts ∧ parentOf w.ls parent = none ∧ r = .error .layerDoesNotExist ∧
        s.1 = w.lockMounts ∨
      name ∉ w.ls.mounts ∧ ∃ p w₁, parentOf w.ls parent = some p ∧
        Creates f init p (retained w.lockMounts p) r w₁ ∧ s.1 = afterRelease r p w₁) ?_ fun r s h => ?_)
    · cases hm : w.ls.mounts.lookup name with
      | some m => exact Triple.ret (.inl ⟨Finmap.mem_of_lookup_eq_some hm, rfl, rfl⟩)
      | none =>
        have hm := Finmap.lookup_eq_none.mp hm
        exact (createRWLayerLocked_triple (w := w.lockMounts) hf).mono fun r s h => h.elim
          (fun h => .inr (.inl ⟨hm, h⟩)) fun h => .inr (.inr ⟨hm, h⟩)
    · refine Triple.bind (Triple.step fun _ s' h' => ?_)
      cases h'
      refine Triple.ret ?_
      rcases h with ⟨hm, rfl, e⟩ | ⟨hm, hp, rfl, e⟩ | ⟨hm, p, w₁, hp, hc, e⟩
      · exact .inl ⟨hm, rfl, by rw [← hw, ← e]; rfl⟩
      · exact .inr (.inl ⟨hm, hp, rfl, by rw [← hw, ← e]; rfl⟩)
      · exact .inr (.inr ⟨hm, p, w₁, hp, hc, by rw [← e]; rfl⟩)

end

/-! ## Calls that end -/

section

variable {s : World × Call}

theorem ask_ends {op : Op} {onOk onFail : Answer → World × Call → World × Call} :
    Ends (ask op onOk onFail).run s := by
  refine Ends.step ?_
  simp only
  split <;> exact ⟨_, _, rfl⟩

theorem initMountIf_ends {init : Bool} {id : String} : Ends (initMountIf init id).run s := by
  cases init with
  | false => exact Ends.ret
  | true =>
    refine Ends.bindE ask_ends fun _ _ _ => Ends.bindE ask_ends fun _ _ _ => ?_
    refine Ends.bindE (Ends.onError ask_ends fun _ => ?_) fun _ _ _ => ?_
    · exact Ends.bind ask_ends fun _ _ _ => Ends.ret
    · exact Ends.bindE ask_ends fun _ _ _ => Ends.ret

theorem writeMount_ends {op : Op} {mount : String} {file : FileName} {x : File} :
    Ends (writeMount op mount file x).run s := Ends.bindE ask_ends fun _ _ _ => Ends.ret

theorem writeMountParent_ends {m : MountedLayer} : Ends (match m.parent with
    | none => Pure.pure ()
    | some p => Layer.writeMount .setMountParent m.name .parent (.text p.chainID) : LS Unit).run s := by
  cases m.parent with
  | none => exact Ends.ret
  | some p => exact writeMount_ends

theorem writeMountFiles_ends {m : MountedLayer} : Ends (writeMountFiles m).run s := by
  refine Ends.bindE writeMount_ends fun _ _ _ => ?_
  by_cases hi : m.initID = ""
  · simp only [hi, ne_eq, not_true_eq_false, if_false]
    exact writeMountParent_ends
  · simp only [hi, ne_eq, not_false_eq_true, if_true]
    exact Ends.bindE writeMount_ends fun _ _ _ => writeMountParent_ends

end

section

variable {w : World}

/-- The random source has a new ID now. -/
def World.Fresh (w : World) : Prop :=
  IsRandomID (w.answer .generateRandomID).id ∧ (w.answer .generateRandomID).id ∉ w.issued

theorem createRWLayerOn_ends {name : String} {parent : Option RoLayer} {init : Bool} {c : Call}
    (h : w.Fresh) : Ends (createRWLayerOn name parent init).run (w, c) := by
  refine Ends.bindE (Ends.step ⟨_, _, if_pos h⟩) fun _ _ _ => ?_
  refine Ends.bindE initMountIf_ends fun _ _ _ => Ends.bindE ask_ends fun _ _ _ => ?_
  refine Ends.bindE (Ends.bindE writeMountFiles_ends fun _ _ _ => ?_) fun _ _ _ => ?_
  · exact Ends.bind (Ends.step ⟨_, _, rfl⟩) fun _ _ _ => Ends.ret
  · exact Ends.bind (Ends.step ⟨_, _, rfl⟩) fun _ _ _ => Ends.ret

theorem run_getParent (id : ChainID) (w : World) (c : Call) :
    (getParent id).run.run (w, c) = match w.ls.layerMap.lookup id with
      | none => some (.error .layerDoesNotExist, w, c)
      | some l => some (.ok l, { w with ls := w.ls.retain l }, { c with parent := some l }) := by
  rw [getParent, ExceptT.run_mk, Prog.run_step, LayerStore.getWithoutLock]
  cases w.ls.layerMap.lookup id <;> rfl

theorem createRWLayerLocked_ends {name : String} {parent : ChainID} {init : Bool} {c : Call}
    {m : Option MountedLayer} (h : m = none → parentOf w.ls parent ≠ none → w.Fresh) :
    Ends (createRWLayerLocked name parent init m).run (w, c) := by
  cases m with
  | some m => exact Ends.ret
  | none =>
    simp only [createRWLayerLocked]
    unfold parentOf at h
    by_cases hp : parent = ""
    · simp only [hp, ne_eq, not_true_eq_false, if_false]
      exact createRWLayerOn_ends (h rfl (by simp [hp]))
    · simp only [hp, ne_eq, not_false_eq_true, if_true, if_false] at h ⊢
      have hget := run_getParent parent w c
      cases hl : w.ls.layerMap.lookup parent with
      | none =>
        rw [hl] at hget
        exact Ends.bindE ⟨_, _, hget⟩ fun p s hs => by cases hget.symm.trans hs
      | some l =>
        rw [hl] at hget h
        refine Ends.bindE ⟨_, _, hget⟩ fun p s hs => ?_
        cases hget.symm.trans hs
        exact Ends.onError (createRWLayerOn_ends (h trivial (by simp))) fun _ =>
          Ends.bind (Ends.step ⟨_, _, rfl⟩) fun _ _ _ => Ends.ret

/-- `CreateRWLayer` ends if `mountL` is free, and the random source has a new
ID in case it draws one. -/
theorem createRWLayer_ends (name : String) (parent : ChainID) (init : Bool) (hL : w.ls.mountL = false)
    (h : name ∉ w.ls.mounts → parentOf w.ls parent ≠ none → w.Fresh) :
    Ends (createRWLayer name parent init) (w, {}) := by
  refine Ends.bind (Ends.step ⟨_, _, if_neg (by simp [hL])⟩) fun m s hs => ?_
  rw [lockMount, Prog.run_step, if_neg (by simp [hL])] at hs
  cases hs
  refine Ends.bind ?_ fun _ _ _ => Ends.bind (Ends.step ⟨_, _, rfl⟩) fun _ _ _ => Ends.ret
  exact createRWLayerLocked_ends fun hm => h (Finmap.lookup_eq_none.mp hm)

/-! ## The next call -/

/-- A call of `CreateRWLayer` in which no step fails succeeds: it ends if the
random source has a new ID, and it returns a mount. -/
def Succeeds (name : String) (parent : ChainID) (init : Bool) (w : World) : Prop :=
  ∀ env, FailsOnly env none →
    (World.Fresh { w with env } → Ends (createRWLayer name parent init) ({ w with env }, {})) ∧
    Triple (createRWLayer name parent init) ({ w with env }, {}) fun r _ => ∃ h, r = .ok h

theorem succeeds_iff {name : String} {parent : ChainID} {init : Bool} (hL : w.ls.mountL = false) :
    Succeeds name parent init w ↔ name ∉ w.ls.mounts ∧ parentOf w.ls parent ≠ none := by
  constructor
  · intro h
    by_contra hn
    obtain ⟨-, hok⟩ := h (fun _ _ => {}) fun _ _ => by simp
    -- the call ends before it draws an ID, with an error
    obtain ⟨r, s, hrun⟩ := createRWLayer_ends (w := { w with env := fun _ _ => {} }) name parent init hL
      fun hm hp => absurd ⟨hm, hp⟩ hn
    obtain ⟨h', rfl⟩ := hok _ _ hrun
    rcases createRWLayer_triple (f := none) (by simp [FailsOnly]) _ _ hrun with
      ⟨-, hr, -⟩ | ⟨-, -, hr, -⟩ | ⟨hm, p, w₁, hp, -⟩
    · cases hr
    · cases hr
    · exact hn ⟨hm, by rw [show parentOf w.ls parent = some p from hp]; simp⟩
  · rintro ⟨hm, hp⟩ env hf
    refine ⟨fun h => createRWLayer_ends _ _ _ hL fun _ _ => h, (createRWLayer_triple (by exact hf)).mono fun r s h => ?_⟩
    rcases h with ⟨hm', -⟩ | ⟨-, hp', -⟩ | ⟨-, p, w₁, -, hc, -⟩
    · exact absurd hm' hm
    · exact absurd hp' hp
    · cases hc with
      | first hf => cases hf
      | later hf => cases hf
      | published => exact ⟨_, rfl⟩

end

/-! ## What is left -/

/-- What a failed `CreateRWLayer` should leave as it was: the layers of the
driver, the metadata of the mounts, the mounts, and the reference count of the
parent. -/
structure CreateUnchanged (parent : ChainID) (w w' : World) : Prop where
  driver : w'.driver = w.driver
  store : w'.store.mounts = w.store.mounts
  mounts : w'.ls.mounts = w.ls.mounts
  parent : ∀ p, parentOf w.ls parent = some (some p) → w'.ls.referenceCount p = w.ls.referenceCount p

/-- When `CreateRWLayer` on `p` leaves nothing if it fails: only its first
step can fail, without having made its layer, and then something else holds
the parent. -/
structure CreateUndone (f : Option Op) (init : Bool) (w : World) (p : Option RoLayer) : Prop where
  later : ∀ o, LeavesMount init p w o → f ≠ some o
  held : f = some (firstOp init) → ∀ l, p = some l → 0 < w.ls.referenceCount l

theorem ne_remove_of_mem {init : Bool} {p : Option RoLayer} {o : Op}
    (h : o ∈ firstOp init :: laterOps init p) : o ≠ .driverRemove ∧ o ≠ .storeRemove := by
  constructor <;> rintro rfl <;> cases init <;> cases p <;> simp [firstOp, laterOps, saveOps] at h

theorem mem_ops_of_leavesMount {init : Bool} {p : Option RoLayer} {w : World} {o : Op}
    (h : LeavesMount init p w o) : o ∈ firstOp init :: laterOps init p := by
  rcases h with h | ⟨rfl, -⟩
  · exact List.mem_cons_of_mem _ h
  · exact List.mem_cons_self ..

theorem firstOp_notMem_laterOps (init : Bool) (p : Option RoLayer) : firstOp init ∉ laterOps init p := by
  cases init <;> cases p <;> simp [firstOp, laterOps, saveOps]

section

variable {name : String} {parent : ChainID} {init : Bool} {f : Option Op} {w w₁ : World}
  {K : Multiset RoLayer} {l : RoLayer} {p : Option RoLayer}

/-- The release of the parent of a `CreateRWLayer` that has failed leaves the
layers as they were, or removes the parent if nothing else held it. -/
theorem afterRelease_cases {e : Err} (hw : RefInv w.ls K) (hp : parentOf w.ls parent = some p)
    (hg : Grows (retained w.lockMounts p) w₁) (hr : ∀ n, (w₁.env n .driverRemove).ok = true)
    (hs : ∀ n, (w₁.env n .storeRemove).ok = true) {w₂ : World}
    (h₂ : w₂ = afterRelease (.error e : Except Err RWLayerRef) p w₁) :
    ((∀ l, p = some l → 0 < w.ls.referenceCount l ∧ w₂.ls.referenceCount l = w.ls.referenceCount l) ∧
      w₂.driver = w₁.driver ∧ w₂.store = w₁.store ∧ w₂.ls.mounts = w.ls.mounts ∧
      w₂.ls.layerMap = w.ls.layerMap) ∨
    (∃ l, p = some l ∧ w.ls.referenceCount l = 0) ∧ parentOf w₂.ls parent = none := by
  cases p with
  | none =>
    rw [show w₂ = w₁ from h₂, hg.ls]
    exact .inl ⟨nofun, rfl, rfl, rfl, rfl⟩
  | some l =>
    have hlook := parentOf_some hp
    have hinv : RefInv w₁.ls (l ::ₘ K) := by
      rw [hg.ls]
      exact (hw.retain (hw.live_of_lookup hlook)).of_eq rfl rfl rfl rfl (le_refl _) rfl
    have hcount : w₁.ls.referenceCount l = w.ls.referenceCount l + 1 := by
      rw [hg.ls]; exact referenceCount_retain w.ls l
    by_cases hpos : w.ls.referenceCount l = 0
    · refine .inr ⟨⟨l, rfl, hpos⟩, ?_⟩
      have hgone := releaseLayer_of_unheld hinv (by omega) hr hs
      rw [hw.key _ _ hlook, ← Finmap.lookup_eq_none] at hgone
      have hne : parent ≠ "" := fun e => by simp [parentOf, e] at hp
      rw [parentOf, if_neg hne, show w₂ = _ from h₂]
      exact congrArg _ hgone
    · have h₂ : w₂ = w₁.unretain l := h₂.trans (releaseLayer_of_held hinv (by omega))
      have hc := World.referenceCount_unretain w₁.ls l
      refine .inl ⟨fun l' hl' => ?_, ?_⟩
      · cases hl'
        rw [h₂, World.unretain_ls]
        omega
      · rw [h₂]
        refine ⟨rfl, rfl, ?_, ?_⟩ <;> rw [World.unretain_ls, hg.ls] <;> rfl

/-- A `CreateRWLayer` on `p` that could succeed fails: it leaves everything
as it was, for a next call too, if and only if it is undone. -/
theorem unchanged_iff_createUndone {e : Err} (hw : StoreState w K) (hf : FailsOnly w.env f)
    (hL : w.ls.mountL = false) (hm : name ∉ w.ls.mounts) (hp : parentOf w.ls parent = some p)
    (h : Creates f init p (retained w.lockMounts p) (.error e) w₁) {w₂ : World}
    (h₂ : w₂ = afterRelease (.error e : Except Err RWLayerRef) p w₁) :
    (CreateUnchanged parent w w₂.unlockMounts ∧
      (Succeeds name parent init w → Succeeds name parent init w₂.unlockMounts)) ↔
    CreateUndone f init w p := by
  have hs : Succeeds name parent init w := (succeeds_iff hL).mpr ⟨hm, by rw [hp]; simp⟩
  have henv : (retained w.lockMounts p).env = w.env := by cases p <;> rfl
  have hdriver : (retained w.lockMounts p).driver = w.driver := by cases p <;> rfl
  have hstore : (retained w.lockMounts p).store = w.store := by cases p <;> rfl
  have hissued : (retained w.lockMounts p).issued = w.issued := by cases p <;> rfl
  have cases₂ {o : Op} (hfo : f = some o) (ho : o ∈ firstOp init :: laterOps init p)
      (hg : Grows (retained w.lockMounts p) w₁) := by
    have hf₁ : FailsOnly w₁.env f := by rw [hg.env, henv]; exact hf
    refine afterRelease_cases hw.refs hp hg (hf₁.ok ?_) (hf₁.ok ?_) h₂
    · rw [hfo]; exact fun e => (ne_remove_of_mem ho).1 (Option.some.inj e)
    · rw [hfo]; exact fun e => (ne_remove_of_mem ho).2 (Option.some.inj e)
  -- without its parent the next call fails
  have lost (h : parentOf w₂.ls parent = none) : ¬ Succeeds name parent init w₂.unlockMounts :=
    fun h' => ((succeeds_iff rfl).mp h').2 h
  cases h with
  | first hfo hdone hsame =>
    have hdone : (w.tick.answer (firstOp init)).done = false := by cases p <;> exact hdone
    rcases cases₂ hfo (List.mem_cons_self ..) hsame.grows with
      ⟨hheld, hd, hst, hm₂, hl₂⟩ | ⟨⟨l, rfl, h0⟩, hgone⟩
    · refine iff_of_true ⟨⟨?_, ?_, hm₂, fun q hq => ?_⟩, fun _ => (succeeds_iff rfl).mpr ⟨?_, ?_⟩⟩
        ⟨fun o ho e => ?_, fun _ l hl => (hheld l hl).1⟩
      · exact hd.trans (hsame.driver.trans hdriver)
      · exact congrArg _ (hst.trans (hsame.store.trans hstore))
      · exact (hheld q (Option.some.inj (hp.symm.trans hq))).2
      · exact fun h => hm (hm₂ ▸ h)
      · have : parentOf w₂.ls parent = parentOf w.ls parent := by unfold parentOf; rw [hl₂]
        exact fun h => by rw [hp] at this; cases this.symm.trans h
      · cases hfo.symm.trans e
        rcases ho with ho | ⟨-, ho⟩
        · exact firstOp_notMem_laterOps init p ho
        · exact absurd ho (Bool.eq_false_iff.mp hdone)
    · refine iff_of_false (fun h => lost hgone (h.2 hs)) fun h => ?_
      have := h.held hfo l rfl
      omega
  | @later _ o _ _ hfo ho hg hid new hn hx =>
    have ho : LeavesMount init p w o := by cases p <;> exact ho
    refine iff_of_false (fun h => ?_) fun h => h.later _ ho hfo
    rcases cases₂ hfo (mem_ops_of_leavesMount ho) hg with ⟨hheld, hd, hst, hm₂, hl₂⟩ | ⟨-, hgone⟩
    · rw [hissued] at new
      exact new (hw.drawn _ (h.1.driver ▸ hd ▸ hx) _ hid hn)
    · exact lost hgone (h.2 hs)

/-- `CreateRWLayer` that returns an error leaves the driver, the metadata of
the mounts, the mounts and the count of its parent as they were, and a next
call succeeds if this one could have, if and only if no step but the first can
be the one that fails and, if that is, the driver has no layer of it and
something else holds the parent. -/
theorem createRWLayer_undone_iff {r : Except Err RWLayerRef} {w' : World} {c' : Call}
    (hw : StoreState w K) (hf : FailsOnly w.env f)
    (hrun : (createRWLayer name parent init).run (w, {}) = some (r, w', c')) :
    ((∃ e, r = .error e) → CreateUnchanged parent w w' ∧
      (Succeeds name parent init w → Succeeds name parent init w')) ↔
    (name ∉ w.ls.mounts → ∀ p, parentOf w.ls parent = some p → CreateUndone f init w p) := by
  have hL : w.ls.mountL = false := by
    cases hL : w.ls.mountL with
    | false => rfl
    | true => simp [createRWLayer, lockMount, Prog.run_bind, hL] at hrun
  have same (hm : w' = w) : CreateUnchanged parent w w' ∧
      (Succeeds name parent init w → Succeeds name parent init w') := by
    rw [hm]
    exact ⟨⟨rfl, rfl, rfl, fun _ _ => rfl⟩, fun h => h⟩
  rcases createRWLayer_triple hf _ _ hrun with ⟨hm, -, e⟩ | ⟨hm, hp, -, e⟩ | ⟨hm, p, w₁, hp, h, e⟩
  · exact iff_of_true (fun _ => same e) fun h => absurd hm h
  · exact iff_of_true (fun _ => same e) fun _ p hp' => by rw [hp] at hp'; cases hp'
  · have e : w' = _ := e
    have hall : (name ∉ w.ls.mounts → ∀ q, parentOf w.ls parent = some q → CreateUndone f init w q) ↔
        CreateUndone f init w p :=
      ⟨fun h => h hm p hp, fun h _ q hq => by cases hp.symm.trans hq; exact h⟩
    rw [hall, e]
    cases r with
    | error e =>
      rw [← unchanged_iff_createUndone hw hf hL hm hp h rfl]
      exact ⟨fun h => h ⟨_, rfl⟩, fun h _ => h⟩
    | ok h' =>
      cases h with
      | published hops =>
        refine iff_of_true nofun ⟨fun o ho => hops o (mem_ops_of_leavesMount ho), fun hf => ?_⟩
        exact absurd hf (hops _ (List.mem_cons_self ..))

end

set_option maxRecDepth 100000 in
/-- `driver.CreateReadWrite` fails, as the first step: nothing is left, and
the next call succeeds. -/
theorem createRWLayer_undone_createReadWrite : ∃ w' c',
    (createRWLayer "c" "" false).run ({ env := failing .driverCreateReadWrite }, {}) =
      some (.error (.failed .driverCreateReadWrite), w', c') ∧
    CreateUnchanged "" { env := failing .driverCreateReadWrite } w' ∧ Succeeds "c" "" false w' := by
  have hrun : ∃ w' c', (createRWLayer "c" "" false).run ({ env := failing .driverCreateReadWrite }, {}) =
    some (.error (.failed .driverCreateReadWrite), w', c') := ⟨_, _, rfl⟩
  obtain ⟨w', c', h⟩ := hrun
  have hw := (createRWLayer_undone_iff (storeState_empty (failing .driverCreateReadWrite))
    (failsOnly_failing .driverCreateReadWrite) h).mpr (fun _ p hp => ?_) ⟨_, rfl⟩
  · exact ⟨w', c', h, hw.1, hw.2 ((succeeds_iff rfl).mpr ⟨Finmap.notMem_empty, by simp [parentOf]⟩)⟩
  · cases hp
    refine ⟨?_, nofun⟩
    rintro o (ho | ⟨rfl, ho⟩)
    · simp only [laterOps, saveOps] at ho
      rintro ⟨⟩
      exact absurd ho (by decide)
    · exact absurd ho (by decide)

set_option maxRecDepth 100000 in
/-- `SetMountID` fails in an empty layer store: `CreateRWLayer` returns the
error, and the layer that it made in the driver stays. -/
theorem createRWLayer_leaks_driver_layer : FailsOnly (failing .setMountID) (some .setMountID) ∧
    ∃ w' c', (createRWLayer "c" "" false).run ({ env := failing .setMountID }, {}) =
      some (.error (.failed .setMountID), w', c') ∧
    ¬ CreateUnchanged "" { env := failing .setMountID } w' := by
  refine ⟨failsOnly_failing _, _, _, rfl, fun h => ?_⟩
  exact absurd h.driver (by decide)

end Moby.Layer
