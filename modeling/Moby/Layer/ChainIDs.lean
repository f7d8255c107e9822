import Moby.Framework.GoString
import Moby.Layer.Migration

/-!
# Chain IDs

A layer is named by its chain ID, which `createChainIDFromParent` of
`layer/layer.go` makes from the chain ID of its parent and its own diff ID, and
`CreateChainID` from the diff IDs of all its layers.
-/

namespace Moby.Layer

open Moby.Framework Moby.Digest

/-! ## Steps -/

/-- A layer is named by its parent and its diff ID. -/
def RoLayer.Derived (H : Hash) (l : RoLayer) : Prop := l.chainID = layerChainID H l.info.diffID l.parent

/-- The layers after a step were there before it, or are named by their
parents and diff IDs. -/
def Derives (H : Hash) (s s' : World × Call) : Prop :=
  ∀ k l, s'.1.ls.layerMap.lookup k = some l → s.1.ls.layerMap.lookup k = some l ∨ l.Derived H

variable {H : Hash} {α β : Type}

instance : Std.Refl (Derives H) := ⟨fun _ _ _ hl => .inl hl⟩

instance : IsTrans (World × Call) (Derives H) where
  trans _ _ _ h h' k l hl := (h' k l hl).elim (h k l) .inr

theorem Derives.of_eq {s s' : World × Call} (h : s'.1.ls.layerMap = s.1.ls.layerMap) : Derives H s s' := by
  intro k l hl
  rw [h] at hl
  exact .inl hl

/-- The steps of a program derive the layers that they add. -/
def Deriving (H : Hash) (x : P α) : Prop := ∀ c, Follows (fun _ => True) (Derives H) x c fun _ _ => True

namespace Deriving

theorem pure (a : α) : Deriving H (Pure.pure a : P α) := fun _ => Follows.pure trivial

theorem pureE (r : Except Err α) : Deriving H (ExceptT.mk (Pure.pure r) : LS α).run := fun _ => Follows.pure trivial

theorem bind {x : P α} {f : α → P β} (hx : Deriving H x) (hf : ∀ a, Deriving H (f a)) : Deriving H (x >>= f) :=
  fun c => Follows.bind ((hx c).mono fun a c' _ => hf a c')

theorem bindE {x : LS α} {f : α → LS β} (hx : Deriving H x.run) (hf : ∀ a, Deriving H (f a).run) :
    Deriving H (x >>= f).run := by
  refine fun c => Follows.bindE ((hx c).mono fun r c' _ => ?_)
  cases r with
  | ok a => exact hf a c'
  | error e => trivial

theorem onError {x : LS α} {cleanup : P Unit} (hx : Deriving H x.run) (hc : Deriving H cleanup) :
    Deriving H (Prog.onError cleanup x).run := by
  refine fun c => Follows.onError ((hx c).mono fun r c' _ => ?_)
  cases r with
  | ok a => trivial
  | error e => exact hc c'

theorem step {m : Act World Call α} (h : ∀ s a s', m s = some (a, s') → Derives H s s') : Deriving H (.step m) :=
  fun c => Follows.step fun s a s' c' _ hm => ⟨h (s, c) a (s', c') hm, trivial⟩

theorem ask {op : Op} {onOk onFail : Answer → World × Call → World × Call} (hok : ∀ a s, (onOk a s).1.ls = s.1.ls)
    (hfail : ∀ a s, (onFail a s).1.ls = s.1.ls) : Deriving H (Layer.ask op onOk onFail).run := by
  refine step fun s r s' h => ?_
  simp only at h
  split at h
  · cases h
    exact .of_eq (by rw [hok]; rfl)
  · cases h
    exact .of_eq (by rw [hfail]; rfl)

/-- A call of the driver, whatever a failing one has done. -/
theorem askDriver {op : Op} {onOk : Answer → World × Call → World × Call} {effect : World × Call → World × Call}
    (hok : ∀ a s, (onOk a s).1.ls = s.1.ls) (h : ∀ s, (effect s).1.ls = s.1.ls) :
    Deriving H (Layer.ask op onOk (ifDone effect)).run :=
  ask hok fun _ s => ifDone_rule (P := fun s' => s'.1.ls = s.1.ls) (h s) rfl

theorem noEffect {op : Op} : Deriving H (Layer.ask op Layer.noEffect Layer.noEffect).run :=
  ask (fun _ _ => rfl) fun _ _ => rfl

/-! ### Registrations -/

theorem writeTx {op : Op} {tx : String} {f : FileName} {x : File} : Deriving H (Layer.writeTx op tx f x).run := by
  refine bindE (ask (fun _ _ => rfl) fun a s => ?_) fun _ => pureE _
  cases a.left <;> rfl

theorem storeLayer {tx : String} {i : LayerInfo} {parent : Option RoLayer} :
    Deriving H (Layer.storeLayer tx i parent).run :=
  storeLayer_rule (Q := fun x => Deriving H x.run) (fun _ _ _ => writeTx) (pureE _) (fun _ _ => bindE) i parent

theorem generateRandomID : Deriving H Layer.generateRandomID.run := by
  refine step fun s r s' h => ?_
  simp only at h
  split at h
  · cases h; exact .of_eq rfl
  · cases h

theorem startTransaction : Deriving H Layer.startTransaction.run := by
  refine step fun s r s' h => ?_
  simp only at h
  split at h
  · cases h; exact .of_eq rfl
  · split at h
    · cases h
    · cases h; exact .of_eq rfl

theorem getParent {id : ChainID} : Deriving H (Layer.getParent id).run := by
  refine step fun s r s' h => ?_
  cases hl : s.1.ls.layerMap.lookup id with
  | none =>
    simp only [LayerStore.getWithoutLock, hl] at h
    cases h; exact .of_eq rfl
  | some l =>
    simp only [LayerStore.getWithoutLock, hl] at h
    cases h; exact .of_eq rfl

/-- A layer that is named by its parent and its diff ID is added. -/
theorem derives_addLayer {s s' : World × Call} {i : LayerInfo} {parent : Option RoLayer}
    (hi : i.chainID = layerChainID H i.diffID parent)
    (h : s'.1.ls.layerMap = s.1.ls.layerMap.insert i.chainID (RoLayer.make s.1.ls.nextPtr i parent)) :
    Derives H s s' := by
  intro k l hl
  rw [h, Finmap.lookup_insert'] at hl
  split_ifs at hl with hk
  · cases hl
    right
    rw [RoLayer.Derived, RoLayer.chainID, RoLayer.info_make, RoLayer.parent_make]
    exact hi
  · exact .inl hl

theorem publish {tx : String} {i : LayerInfo} {parent : Option RoLayer}
    (hi : i.chainID = layerChainID H i.diffID parent) : Deriving H (Layer.publish tx i parent).run := by
  refine step fun s r s' h => ?_
  cases hl : s.1.ls.layerMap.lookup i.chainID with
  | some l =>
    simp only [LayerStore.getWithoutLock, hl] at h
    cases h; exact .of_eq rfl
  | none =>
    simp only [LayerStore.getWithoutLock, hl] at h
    rcases hcommit : s.1.commit tx i.chainID with ⟨_ | _, w⟩
    · simp only [hcommit] at h
      obtain rfl := commit_false hcommit
      cases h; exact .of_eq rfl
    · simp only [hcommit] at h
      obtain ⟨d, -, -, rfl⟩ := commit_true hcommit
      cases h; exact derives_addLayer hi rfl

theorem cleanup {cacheID tx : String} : Deriving H (Layer.cleanup cacheID tx) :=
  bind (askDriver (fun _ _ => rfl) fun _ => rfl) fun _ => bind (ask (fun _ _ => rfl) fun _ _ => rfl) fun _ => pure _

theorem registerOn {ts : List UInt8} {parent : Option RoLayer} {descriptor : Descriptor} :
    Deriving H (Layer.registerOn H ts parent descriptor).run := by
  refine bindE generateRandomID fun cacheID => bindE (bindE (askDriver (fun _ _ => rfl) fun _ => rfl) fun _ => pureE _)
    fun _ => bindE startTransaction fun tx => onError ?_ cleanup
  refine bindE (bindE writeTx fun _ => bindE noEffect fun _ => bindE noEffect fun _ => pureE _) fun r => ?_
  exact bindE storeLayer fun _ => publish rfl

end Deriving

/-! ### Releases -/

theorem releaseOne_lookup {w : World} {l x : RoLayer} {depth : Nat} {removed : List Metadata} {k : ChainID}
    (h : (w.releaseOne l depth removed).2.ls.layerMap.lookup k = some x) : w.ls.layerMap.lookup k = some x := by
  unfold World.releaseOne at h
  by_cases h₀ : w.ls.referenceCount l = 0
  · rw [if_pos h₀] at h
    exact h
  · rw [if_neg h₀] at h
    dsimp only at h
    split_ifs at h
    · exact h
    · exact h
    · exact h
    · rcases hd : ({ w with ls := w.ls.unretain l } : World).deleteLayer l with ⟨r, w'⟩
      have hls : w'.ls = w.ls.unretain l := by
        have := World.deleteLayer_ls { w with ls := w.ls.unretain l } l
        rw [hd] at this
        exact this
      cases r with
      | error e =>
        simp only [hd] at h
        rw [hls] at h
        exact h
      | ok metadata =>
        simp only [hd, LayerStore.removeLayer, Finmap.lookup_erase'] at h
        rw [hls] at h
        split_ifs at h
        exact h

/-- A release adds no layer. -/
theorem releaseLoop_lookup {w : World} {l x : RoLayer} {depth : Nat} {removed : List Metadata} {k : ChainID}
    (h : (w.releaseLoop depth removed l).2.ls.layerMap.lookup k = some x) : w.ls.layerMap.lookup k = some x := by
  induction l generalizing w depth removed with
  | base a i =>
    rw [World.releaseLoop] at h
    refine @releaseOne_lookup w (.base a i) x depth removed k ?_
    split at h <;> rename_i hone <;> rw [hone] <;> exact h
  | child a i p ih =>
    rw [World.releaseLoop] at h
    refine @releaseOne_lookup w (.child a i p) x depth removed k ?_
    split at h
    · rename_i hone; rw [hone]; exact h
    · rename_i hone; rw [hone]; exact ih h

namespace Deriving

theorem releaseParent {p : RoLayer} : Deriving H (Layer.releaseParent p) := by
  refine step fun s r s' h => ?_
  cases h
  exact fun k l hl => .inl (releaseLoop_lookup hl)

theorem releaseParentOnError {p : RoLayer} : Deriving H (Layer.releaseParentOnError p) :=
  bind releaseParent fun _ => pure _

theorem get {id : ChainID} : Deriving H (Layer.get id) := by
  refine step fun s r s' h => ?_
  cases h
  refine .of_eq ?_
  simp only [World.get, LayerStore.getWithoutLock]
  cases s.1.ls.layerMap.lookup id <;> rfl

theorem release {l : LayerRef} : Deriving H (Layer.release l) := by
  refine step fun s r s' h => ?_
  cases h
  intro k x hx
  left
  simp only [World.release] at hx
  split at hx
  · exact hx
  · rename_i layer _
    split_ifs at hx
    · exact releaseLoop_lookup (w := { s.1 with ls := s.1.ls.deleteReference layer l.ref }) hx
    · exact hx

theorem orExisting {x : LS LayerRef} (hx : Deriving H x.run) : Deriving H (Layer.orExisting x) := by
  refine bind hx fun r => ?_
  split <;> exact pure _

theorem registerWithDescriptor {ts : List UInt8} {parent : ChainID} {descriptor : Descriptor} :
    Deriving H (Layer.registerWithDescriptor H ts parent descriptor) := by
  refine orExisting ?_
  unfold registerOrUndo
  split_ifs
  · refine bindE getParent fun p => onError ?_ releaseParentOnError
    split_ifs
    · exact pureE _
    · exact registerOn
  · exact registerOn

/-! ### Mounts -/

theorem lockMount {name : String} : Deriving H (Layer.lockMount name) := by
  refine step fun s r s' h => ?_
  split_ifs at h
  cases h; exact .of_eq rfl

theorem unlockMount : Deriving H Layer.unlockMount := step fun s r s' h => by cases h; exact .of_eq rfl

theorem updateMount {m : MountedLayer} : Deriving H (Layer.updateMount m) :=
  step fun s r s' h => by cases h; exact .of_eq rfl

theorem mountReference {m : MountedLayer} : Deriving H (Layer.mountReference m) :=
  step fun s r s' h => by cases h; exact .of_eq rfl

theorem publishMount {m : MountedLayer} : Deriving H (Layer.publishMount m) :=
  step fun s r s' h => by cases h; exact .of_eq rfl

theorem deleteMount {m : MountedLayer} : Deriving H (Layer.deleteMount m) :=
  step fun s r s' h => by cases h; exact .of_eq rfl

/-- A program that cannot fail, in one that can. -/
theorem lift {x : P α} (hx : Deriving H x) : Deriving H (liftM x : LS α).run := bind hx fun _ => pure _

theorem writeMount {op : Op} {mount : String} {f : FileName} {x : File} :
    Deriving H (Layer.writeMount op mount f x).run := by
  refine bindE (ask (fun _ _ => rfl) fun a s => ?_) fun _ => pureE _
  cases a.left <;> rfl

theorem initMountIf {init : Bool} {id : String} : Deriving H (Layer.initMountIf init id).run := by
  unfold Layer.initMountIf
  split_ifs
  · exact bindE (askDriver (fun _ _ => rfl) fun _ => rfl) fun _ => bindE noEffect fun _ =>
      bindE (onError noEffect (bind noEffect fun _ => pure _)) fun _ => bindE noEffect fun _ => pureE _
  · exact pureE _

theorem writeMountParent {m : MountedLayer} : Deriving H (match m.parent with
    | none => Pure.pure ()
    | some p => Layer.writeMount .setMountParent m.name .parent (.text p.chainID) : LS Unit).run := by
  cases m.parent with
  | none => exact pureE _
  | some p => exact writeMount

theorem saveMount {m : MountedLayer} : Deriving H (Layer.saveMount m).run := by
  refine bindE ?_ fun _ => lift publishMount
  unfold writeMountFiles
  refine bindE writeMount fun _ => ?_
  by_cases hi : m.initID = ""
  · simp only [hi, ne_eq, not_true_eq_false, if_false]
    exact writeMountParent
  · simp only [hi, ne_eq, not_false_eq_true, if_true]
    exact bindE writeMount fun _ => writeMountParent

theorem createRWLayerOn {name : String} {parent : Option RoLayer} {init : Bool} :
    Deriving H (Layer.createRWLayerOn name parent init).run :=
  bindE generateRandomID fun _ => bindE initMountIf fun _ => bindE (askDriver (fun _ _ => rfl) fun _ => rfl) fun _ =>
    bindE saveMount fun _ => lift mountReference

theorem createRWLayer {name : String} {parent : ChainID} {init : Bool} :
    Deriving H (Layer.createRWLayer name parent init) := by
  refine bind lockMount fun m => bind ?_ fun _ => bind unlockMount fun _ => pure _
  cases m with
  | some m => exact pureE _
  | none =>
    unfold createRWLayerLocked
    split_ifs
    · exact bindE getParent fun p => onError createRWLayerOn releaseParentOnError
    · exact createRWLayerOn

theorem getRWLayer {id : String} : Deriving H (Layer.getRWLayer id) := by
  refine bind lockMount fun m => ?_
  cases m with
  | none => exact bind unlockMount fun _ => pure _
  | some m => exact bind mountReference fun _ => bind unlockMount fun _ => pure _

theorem removeMount {m : MountedLayer} : Deriving H (Layer.removeMount m).run := by
  refine bindE (askDriver (fun _ _ => rfl) fun _ => rfl) fun _ => ?_
  by_cases hi : m.initID = ""
  · simp only [hi, ne_eq, not_true_eq_false, if_false]
    exact bindE (ask (fun _ _ => rfl) fun _ _ => rfl) fun _ => pureE _
  · simp only [hi, ne_eq, not_false_eq_true, if_true]
    exact bindE (askDriver (fun _ _ => rfl) fun _ => rfl) fun _ =>
      bindE (ask (fun _ _ => rfl) fun _ _ => rfl) fun _ => pureE _

theorem releaseMount {l : RWLayerRef} {m : MountedLayer} : Deriving H (Layer.releaseMount l m) := by
  unfold Layer.releaseMount
  split_ifs
  · refine bind updateMount fun _ => ?_
    split_ifs
    · exact pure _
    · refine bind removeMount fun r => ?_
      cases r with
      | error e => exact bind updateMount fun _ => pure _
      | ok _ =>
        refine bind deleteMount fun _ => ?_
        cases m.parent with
        | none => exact pure _
        | some p => exact releaseParent
  · exact pure _

theorem releaseRWLayer {l : RWLayerRef} : Deriving H (Layer.releaseRWLayer l) := by
  refine bind lockMount fun m => ?_
  cases m with
  | none => exact bind unlockMount fun _ => pure _
  | some m => exact bind releaseMount fun _ => bind unlockMount fun _ => pure _

theorem request (q : Request) : Deriving H (q.prog H) := by
  cases q with
  | register => exact bind registerWithDescriptor fun _ => pure _
  | get => exact bind get fun _ => pure _
  | release => exact bind release fun _ => pure _
  | createRWLayer => exact bind createRWLayer fun _ => pure _
  | getRWLayer => exact bind getRWLayer fun _ => pure _
  | releaseRWLayer => exact bind releaseRWLayer fun _ => pure _

end Deriving

namespace Deriving

/-! ### Migrations -/

theorem findLayer {id : ChainID} : Deriving H (Layer.findLayer id).run := by
  refine step fun s r s' h => ?_
  cases hl : s.1.ls.layerMap.lookup id with
  | none =>
    simp only [LayerStore.getWithoutLock, hl] at h
    cases h; exact .of_eq rfl
  | some l =>
    simp only [LayerStore.getWithoutLock, hl] at h
    cases h; exact .of_eq rfl

theorem commitLayer {tx : String} {i : LayerInfo} {parent : Option RoLayer}
    (hi : i.chainID = layerChainID H i.diffID parent) : Deriving H (Layer.commitLayer tx i parent).run := by
  refine step fun s r s' h => ?_
  rcases hcommit : s.1.commit tx i.chainID with ⟨_ | _, w⟩
  · simp only [hcommit] at h
    obtain rfl := commit_false hcommit
    cases h; exact .of_eq rfl
  · simp only [hcommit] at h
    obtain ⟨d, -, -, rfl⟩ := commit_true hcommit
    cases h; exact derives_addLayer hi rfl

theorem registerByGraphIDLocked {i : LayerInfo} {parent : Option RoLayer}
    (hi : i.chainID = layerChainID H i.diffID parent) :
    Deriving H (Layer.registerByGraphIDLocked i parent).run.atomic := by
  have hbody : Deriving H (Layer.registerByGraphIDLocked i parent).run := by
    refine bindE findLayer fun _ => bindE startTransaction fun tx => onError ?_ ?_
    · refine bindE ?_ fun _ => commitLayer hi
      exact bindE writeTx fun _ => bindE noEffect fun _ => bindE noEffect fun _ => storeLayer
    · exact bind (ask (fun _ _ => rfl) fun _ _ => rfl) fun _ => pure _
  exact fun c => Follows.atomic fun w _ => (hbody c).triple w

end Deriving

/-- The layers are found under their chain IDs. -/
def Keyed (w : World) : Prop := ∀ k l, w.ls.layerMap.lookup k = some l → l.chainID = k

theorem registerByGraphID_derives {graphID : String} {parent : ChainID} {diffID : DiffID} {size : Int64} (c : Call) :
    Follows Keyed (Derives H) (registerByGraphIDOrUndo H graphID parent diffID size).run c fun _ _ => True := by
  unfold registerByGraphIDOrUndo
  by_cases hp : parent = ""
  · simp only [hp, ne_eq, not_true_eq_false, if_false]
    refine (Deriving.registerByGraphIDLocked ?_ c).assume fun _ _ => trivial
    rfl
  · simp only [hp, ne_eq, not_false_eq_true, if_true]
    refine Follows.bindE (Follows.step fun w r w' c' hkey h => ?_)
    cases hl : w.ls.layerMap.lookup parent with
    | none =>
      simp only [LayerStore.getWithoutLock, hl] at h
      cases h
      exact ⟨.of_eq rfl, trivial⟩
    | some p =>
      simp only [LayerStore.getWithoutLock, hl] at h
      cases h
      refine ⟨.of_eq rfl, (Deriving.onError (.registerByGraphIDLocked ?_) .releaseParentOnError _).assume fun _ _ => trivial⟩
      rw [layerChainID, hkey parent p hl]

theorem Migration.derives (q : Migration) : Follows Keyed (Derives H) (q.prog H) {} fun _ _ => True := by
  cases q with
  | request q => exact (Deriving.request q {}).assume fun _ _ => trivial
  | registerByGraphID graphID parent diffID size =>
    refine Follows.bind (Follows.bind ((registerByGraphID_derives {}).mono fun r c _ => ?_))
    split <;> exact Follows.pure (Follows.pure trivial)

/-! ## Runs -/

variable {env : Nat → Op → Answer} {x : Config World Call}

theorem migrates_refInv (hx : Migrates H env x) : RefInv x.1.ls (inHand x.calls) ∧ LockInv x.1 x.calls := by
  refine migration_inv (H := H) (fun q => ?_) hx
  have hif := Migration.follows (H := H) (D := fun _ => True) (B := fun _ => true) (fun _ _ => trivial) q
  cases q with
  | request q => exact hif
  | registerByGraphID =>
    refine Follows.of_startIf (fun s => ?_) hif
    simp only [Option.all_true]

/-- Every layer of the store is named by its parent and its diff ID. -/
theorem migrates_derived (hx : Migrates H env x) : ∀ k l, x.1.ls.layerMap.lookup k = some l → l.Derived H :=
  reachable_inv_of (A := Keyed) (R := Derives H) (D := fun _ => True)
    (K := fun w F => RefInv w.ls (inHand F) ∧ LockInv w F)
    (I := fun w _ => ∀ k l, w.ls.layerMap.lookup k = some l → l.Derived H)
    Migration.derives (fun _ => migrates_refInv) (fun _ _ hk _ => hk.1.key) (fun k l h => by cases h)
    (fun _ _ h => h) (fun _ _ _ _ h => h) (fun _ _ _ _ _ _ _ hd h k l hl => (hd k l hl).elim (h k l) id) hx

/-! ## Chain IDs of sequences -/

/-- The diff IDs from the base up to a layer. -/
def RoLayer.diffIDs : RoLayer → List DiffID
  | base _ i => [i.diffID]
  | child _ i p => p.diffIDs ++ [i.diffID]

theorem createChainIDFromParent_append (parent : ChainID) (p q : List DiffID) :
    createChainIDFromParent H parent (p ++ q) = createChainIDFromParent H (createChainIDFromParent H parent p) q := by
  induction p generalizing parent with
  | nil => rfl
  | cons d p ih =>
    rw [List.cons_append, createChainIDFromParent, createChainIDFromParent]
    split_ifs
    · exact ih d
    · exact ih _

theorem createChainID_append (p q : List DiffID) :
    createChainID H (p ++ q) = createChainIDFromParent H (createChainID H p) q :=
  createChainIDFromParent_append "" p q

theorem createChainID_singleton (d : DiffID) : createChainID H [d] = d := rfl

/-- A layer on a named one: its chain ID is a digest. -/
theorem createChainID_snoc {p : List DiffID} (d : DiffID) (h : createChainID H p ≠ "") :
    createChainID H (p ++ [d]) = H.fromBytes (bytesOf (createChainID H p ++ " " ++ d)) := by
  rw [createChainID_append, createChainIDFromParent, if_neg h]
  rfl

/-- The chain ID that a layer was given one layer at a time is that of all its
diff IDs. -/
theorem chainID_eq_createChainID {s : LayerStore} {K : Multiset RoLayer} (hr : RefInv s K)
    (hd : ∀ k l, s.layerMap.lookup k = some l → l.Derived H) {l : RoLayer} (hl : s.Live l) :
    l.chainID = createChainID H l.diffIDs := by
  induction l with
  | base a i => exact hd _ _ hl
  | child a i p ih =>
    have hp : s.Live p := hr.parent _ p hl rfl
    calc (RoLayer.child a i p).chainID
      _ = createChainIDFromParent H p.chainID [i.diffID] := hd _ _ hl
      _ = createChainIDFromParent H (createChainID H p.diffIDs) [i.diffID] := by rw [ih hp]
      _ = createChainID H (p.diffIDs ++ [i.diffID]) := (createChainID_append _ _).symm

/-! ## Different sequences -/

/-- A text that `CreateChainID` hashes for the diff IDs `ds`. -/
def Hashed (H : Hash) (ds : List DiffID) (b : List UInt8) : Prop :=
  ∃ p d, p ≠ [] ∧ p ++ [d] <+: ds ∧ b = bytesOf (createChainID H p ++ " " ++ d)

/-- A diff ID is not empty and has no blank, as all digests. -/
def IsWord (d : DiffID) : Prop := d ≠ "" ∧ ' ' ∉ d.toList

theorem isWord_fromBytes (b : List UInt8) : IsWord (H.fromBytes b) :=
  ⟨fromBytes_ne_empty H b, fun h => absurd (isSpace_fromBytes H b ' ' h) (by decide)⟩

theorem isWord_createChainID {ds : List DiffID} (hds : ∀ d ∈ ds, IsWord d) (hne : ds ≠ []) :
    IsWord (createChainID H ds) := by
  induction ds using List.reverseRecOn with
  | nil => exact absurd rfl hne
  | append_singleton p d ih =>
    by_cases hp : p = []
    · subst hp
      exact hds d (List.mem_singleton_self d)
    · have hword := ih (fun d hd => hds d (List.mem_append_left _ hd)) hp
      rw [createChainID_snoc d hword.1]
      exact isWord_fromBytes _

/-- The parts of a text before and after its only blank. -/
theorem eq_of_blank {s s' d d' : String} (hs : ' ' ∉ s.toList) (hd : ' ' ∉ d.toList)
    (h : s ++ " " ++ d = s' ++ " " ++ d') : s = s' ∧ d = d' := by
  have hchars : s.toList ++ ' ' :: d.toList = s'.toList ++ ' ' :: d'.toList := by
    have := congrArg String.toList h
    simp only [String.toList_append, List.append_assoc] at this
    exact this
  obtain ⟨hl, -, hr⟩ := (List.append_cons_inj_of_notMem hs hd).mp hchars
  exact ⟨String.toList_inj.mp hl, String.toList_inj.mp hr⟩

theorem hashed_snoc {p : List DiffID} (hp : p ≠ []) (d : DiffID) :
    Hashed H (p ++ [d]) (bytesOf (createChainID H p ++ " " ++ d)) := ⟨p, d, hp, List.prefix_refl _, rfl⟩

theorem Hashed.append {p q : List DiffID} {b : List UInt8} (h : Hashed H p b) : Hashed H (p ++ q) b := by
  obtain ⟨p', d, hp', hprefix, hb⟩ := h
  exact ⟨p', d, hp', hprefix.trans (List.prefix_append p q), hb⟩

/-- The diff IDs `ds` and `ds'` are words, none is the digest of a text that is
hashed for them, and no two of these texts have the same digest. -/
structure CollisionFree (H : Hash) (ds ds' : List DiffID) : Prop where
  word : ∀ d ∈ ds ++ ds', IsWord d
  base : ∀ d ∈ ds ++ ds', ∀ b, Hashed H ds b ∨ Hashed H ds' b → d ≠ H.fromBytes b
  free : Set.InjOn H.fromBytes {b | Hashed H ds b ∨ Hashed H ds' b}

namespace CollisionFree

variable {ds ds' p p' : List DiffID} {d d' : DiffID}

theorem symm (h : CollisionFree H ds ds') : CollisionFree H ds' ds where
  word d hd := h.word d (List.mem_append.mpr (List.mem_append.mp hd).symm)
  base d hd b hb := h.base d (List.mem_append.mpr (List.mem_append.mp hd).symm) b hb.symm
  free _ hb _ hb' := h.free hb.symm hb'.symm

theorem of_append (h : CollisionFree H (p ++ [d]) (p' ++ [d'])) : CollisionFree H p p' := by
  have hmem {x : DiffID} (hx : x ∈ p ++ p') : x ∈ (p ++ [d]) ++ (p' ++ [d']) := by
    rcases List.mem_append.mp hx with hx | hx
    · exact List.mem_append_left _ (List.mem_append_left _ hx)
    · exact List.mem_append_right _ (List.mem_append_left _ hx)
  have hhashed {b : List UInt8} (hb : Hashed H p b ∨ Hashed H p' b) :
      Hashed H (p ++ [d]) b ∨ Hashed H (p' ++ [d']) b := hb.imp Hashed.append Hashed.append
  exact ⟨fun x hx => h.word x (hmem hx), fun x hx b hb => h.base x (hmem hx) b (hhashed hb),
    fun b hb b' hb' => h.free (hhashed hb) (hhashed hb')⟩

theorem word_left (h : CollisionFree H ds ds') (hne : ds ≠ []) : IsWord (createChainID H ds) :=
  isWord_createChainID (fun d hd => h.word d (List.mem_append_left _ hd)) hne

/-- A base layer does not have the chain ID of a layer on another one. -/
theorem base_ne_snoc (h : CollisionFree H [d] (p' ++ [d'])) (hp' : p' ≠ []) :
    createChainID H [d] ≠ createChainID H (p' ++ [d']) := by
  have hword : IsWord (createChainID H p') :=
    isWord_createChainID (fun x hx => h.word x (List.mem_append_right _ (List.mem_append_left _ hx))) hp'
  rw [createChainID_singleton, createChainID_snoc d' hword.1]
  exact h.base d (List.mem_append_left _ (List.mem_singleton_self d)) _ (.inr (hashed_snoc hp' d'))

/-- Two layers on others have the same chain ID only if their parents have, and
they have the same diff ID. -/
theorem snoc_inj (h : CollisionFree H (p ++ [d]) (p' ++ [d'])) (hp : p ≠ []) (hp' : p' ≠ [])
    (heq : createChainID H (p ++ [d]) = createChainID H (p' ++ [d'])) :
    createChainID H p = createChainID H p' ∧ d = d' := by
  have hword := h.of_append.word_left hp
  have hword' := h.of_append.symm.word_left hp'
  have hd : IsWord d := h.word d (List.mem_append_left _ (List.mem_append_right _ (List.mem_singleton_self d)))
  rw [createChainID_snoc d hword.1, createChainID_snoc d' hword'.1] at heq
  have hbytes := h.free (.inl (hashed_snoc hp d)) (.inr (hashed_snoc hp' d')) heq
  exact eq_of_blank hword.2 hd.2 (bytesOf_injective hbytes)

/-- `CreateChainID` is injective where there is no collision. -/
theorem createChainID_inj (h : CollisionFree H ds ds') (heq : createChainID H ds = createChainID H ds') : ds = ds' := by
  induction ds using List.reverseRecOn generalizing ds' with
  | nil =>
    by_contra hne
    exact (h.symm.word_left (Ne.symm hne)).1 heq.symm
  | append_singleton p d ih =>
    rcases List.eq_nil_or_concat' ds' with rfl | ⟨p', d', rfl⟩
    · exact absurd heq (h.word_left (by simp)).1
    · by_cases hp : p = []
      · subst hp
        by_cases hp' : p' = []
        · subst hp'
          have hd : d = d' := heq
          rw [hd]
        · exact absurd heq (h.base_ne_snoc hp')
      · by_cases hp' : p' = []
        · subst hp'
          exact absurd heq.symm (h.symm.base_ne_snoc hp)
        · obtain ⟨hparents, rfl⟩ := h.snoc_inj hp hp' heq
          rw [ih h.of_append hparents]

end CollisionFree

/-- Chain IDs can be made in parts; every layer of the store has the one of its
diff IDs; where there is no collision, different diff IDs have different ones;
and two layers of the store are the same just if their diff IDs are. -/
theorem chainIDs_of_diffIDs (H : Hash) (env : Nat → Op → Answer) (x : Config World Call) (hx : Migrates H env x) :
    (∀ p q, createChainIDFromParent H (createChainID H p) q = createChainID H (p ++ q)) ∧
    (∀ k l, x.1.ls.layerMap.lookup k = some l → l.chainID = k ∧ l.chainID = createChainID H l.diffIDs) ∧
    (∀ ds ds', CollisionFree H ds ds' → (createChainID H ds = createChainID H ds' ↔ ds = ds')) ∧
    ∀ k k' l l', x.1.ls.layerMap.lookup k = some l → x.1.ls.layerMap.lookup k' = some l' →
      (l.diffIDs = l'.diffIDs ↔ l = l') := by
  have hr := (migrates_refInv hx).1
  have hchain {k : ChainID} {l : RoLayer} (hl : x.1.ls.layerMap.lookup k = some l) :
      l.chainID = k ∧ l.chainID = createChainID H l.diffIDs :=
    ⟨hr.key k l hl, chainID_eq_createChainID hr (migrates_derived hx) (hr.live_of_lookup hl)⟩
  refine ⟨fun p q => (createChainID_append p q).symm, fun k l hl => hchain hl, fun ds ds' h => ?_, ?_⟩
  · exact ⟨h.createChainID_inj, congrArg _⟩
  · intro k k' l l' hl hl'
    refine ⟨fun hds => ?_, congrArg _⟩
    have hk : k = k' := by
      rw [← (hchain hl).1, ← (hchain hl').1, (hchain hl).2, (hchain hl').2, hds]
    subst hk
    exact Option.some.inj (hl.symm.trans hl')

/-! ## Two diff IDs -/

theorem hashed_pair {d d' : DiffID} {b : List UInt8} (h : Hashed H [d, d'] b) : b = bytesOf (d ++ " " ++ d') := by
  obtain ⟨p, e, hp, hprefix, rfl⟩ := h
  cases p with
  | nil => exact absurd rfl hp
  | cons x p =>
    cases p with
    | nil =>
      simp only [List.cons_append, List.nil_append, List.cons_prefix_cons, List.nil_prefix, and_true] at hprefix
      obtain ⟨rfl, rfl⟩ := hprefix
      rfl
    | cons y p =>
      have hlength := hprefix.length_le
      simp only [List.cons_append, List.length_cons, List.length_append, List.length_nil] at hlength
      omega

theorem not_hashed_singleton {d : DiffID} {b : List UInt8} : ¬ Hashed H [d] b := by
  rintro ⟨p, e, hp, hprefix, -⟩
  have hlength := hprefix.length_le
  have hpos := List.length_pos_iff.mpr hp
  simp only [List.length_append, List.length_cons, List.length_nil] at hlength
  omega

theorem ne_fromBytes {d : DiffID} (h : validate d ≠ .ok ()) (b : List UInt8) : d ≠ H.fromBytes b := by
  rintro rfl
  exact h (validate_fromBytes H b)

/-- A migrated layer on another one; and diff IDs of which one is a part of the
other. -/
theorem chainIDs_of_child : ∃ x l, Migrates sampleHash sampleEnv x ∧
    x.1.ls.layerMap.lookup (createChainID sampleHash [sampleID, sampleID]) = some l ∧
    createChainID sampleHash l.diffIDs = createChainID sampleHash [sampleID, sampleID] ∧
    CollisionFree sampleHash ["a", "b"] ["a"] ∧ createChainID sampleHash ["a", "b"] ≠ createChainID sampleHash ["a"] := by
  have hrun : ((runAll (Migration.prog sampleHash) {}
      [.registerByGraphID "base" "" sampleID 0, .registerByGraphID "child" sampleID sampleID 0]
      { env := sampleEnv }).any fun w =>
      (w.ls.layerMap.lookup (createChainID sampleHash [sampleID, sampleID])).isSome) = true := by decide +kernel
  simp only [Option.any_eq_true, Option.isSome_iff_exists] at hrun
  obtain ⟨w, hw, l, hl⟩ := hrun
  have hx : Migrates sampleHash sampleEnv (w, 0) := Reachable.runAll .refl hw
  have hfree : CollisionFree sampleHash ["a", "b"] ["a"] := by
    have hvalid : ∀ d ∈ ["a", "b", "a"], d ≠ "" ∧ ' ' ∉ d.toList ∧ validate d ≠ .ok () := by decide
    refine ⟨fun d hd => ⟨(hvalid d hd).1, (hvalid d hd).2.1⟩, fun d hd b _ => ne_fromBytes (hvalid d hd).2.2 b, ?_⟩
    rintro b (hb | hb) b' (hb' | hb') -
    · rw [hashed_pair hb, hashed_pair hb']
    · exact absurd hb' not_hashed_singleton
    · exact absurd hb not_hashed_singleton
    · exact absurd hb not_hashed_singleton
  obtain ⟨-, hlayers, hinj, -⟩ := chainIDs_of_diffIDs sampleHash sampleEnv (w, 0) hx
  obtain ⟨hkey, hchain⟩ := hlayers _ l hl
  exact ⟨(w, 0), l, hx, hl, hchain.symm.trans hkey, hfree, fun h => absurd ((hinj _ _ hfree).mp h) (by decide)⟩

/-- Diff IDs with blanks: two sequences have the same chain ID, under every
hash function, though none is a digest and only one text is hashed. -/
theorem createChainID_blanks : ∃ ds ds' : List DiffID, ds ≠ ds' ∧ (∀ d ∈ ds ++ ds', d ≠ "") ∧
    (∀ d ∈ ds ++ ds', ∀ (H : Hash) (b : List UInt8), d ≠ H.fromBytes b) ∧
    ∀ H : Hash, Set.InjOn H.fromBytes {b | Hashed H ds b ∨ Hashed H ds' b} ∧
      createChainID H ds = createChainID H ds' := by
  have hvalid : ∀ d ∈ ["a b", "c", "a", "b c"], d ≠ "" ∧ validate d ≠ .ok () := by decide
  refine ⟨["a b", "c"], ["a", "b c"], by decide, fun d hd => (hvalid d hd).1,
    fun d hd H b => ne_fromBytes (hvalid d hd).2 b, fun H => ⟨?_, ?_⟩⟩
  · have hone {b : List UInt8} (hb : Hashed H ["a b", "c"] b ∨ Hashed H ["a", "b c"] b) : b = bytesOf "a b c" := by
      rcases hb with hb | hb
      · exact hashed_pair hb
      · exact hashed_pair hb
    exact fun b hb b' hb' _ => (hone hb).trans (hone hb').symm
  · exact congrArg (fun s => H.fromBytes (bytesOf s)) (show "a b" ++ " " ++ "c" = "a" ++ " " ++ "b c" by decide)

end Moby.Layer
