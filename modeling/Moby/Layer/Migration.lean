import Moby.Layer.Presence

/-!
# Migrated layers

`RegisterByGraphID` registers a layer that the graph driver has already. All
that it does after it has taken its parent is one critical section of
`layerL`. `Migration` are the calls of a layer store with it among them,
`MigrationAction` what their steps can do, and `Migration.follows` that they
do nothing else. The reference counts are kept (`migrates_inv`).
-/

namespace Moby.Layer

open Moby.Framework Moby.Digest

/-! ## RegisterByGraphID -/

/-- The layer is there already, or it is not. -/
def findLayer (id : ChainID) : LS Unit :=
  .mk <| .step fun s =>
    match s.1.ls.getWithoutLock id with
    | (some existing, ls) =>
      let (h, ls) := ls.getReference existing
      some (.error (.layerAlreadyExists h), { s.1 with ls }, s.2)
    | (none, _) => some (.ok (), s)

/-- `tx.Cancel`, in the clean-up of a migration. -/
def cancelTx (tx : String) : P Unit := do
  let _ ← (ask .cancel (fun _ s => ({ s.1 with store := { s.1.store with
    tmp := s.1.store.tmp.erase tx } }, { s.2 with tx := none })) noEffect).run

/-- `tx.Commit` and `ls.layerMap[layer.chainID] = layer`. -/
def commitLayer (tx : String) (i : LayerInfo) (parent : Option RoLayer) : LS LayerRef :=
  .mk <| .step fun s =>
    match s.1.commit tx i.chainID with
    | (false, w) => some (.error (.failed .commit), w, s.2)
    | (true, w) =>
      let (l, ls) := w.ls.addLayer i parent
      let (h, ls) := ls.getReference l
      some (.ok h, { w with ls }, { s.2 with parent := none, tx := none })

/-- The files of a migrated layer: its tar-split file is copied. -/
def copyLayer (i : LayerInfo) (parent : Option RoLayer) (tx : String) : LS Unit := do
  writeTx .tarSplitWriter tx .tarSplit (.text "")
  let _ ← ask .openTarData noEffect noEffect
  let _ ← ask .copyTarData noEffect noEffect
  storeLayer tx i parent

/-- `RegisterByGraphID` in its transaction. -/
def registerByGraphIDIn (i : LayerInfo) (parent : Option RoLayer) (tx : String) : LS LayerRef := do
  copyLayer i parent tx
  commitLayer tx i parent

/-- `RegisterByGraphID` under `layerL`. -/
def registerByGraphIDLocked (i : LayerInfo) (parent : Option RoLayer) : LS LayerRef := do
  findLayer i.chainID
  let tx ← startTransaction
  Prog.onError (cancelTx tx) (registerByGraphIDIn i parent tx)

/-- `RegisterByGraphID`, with the error that triggers its clean-up. -/
def registerByGraphIDOrUndo (H : Hash) (graphID : String) (parent : ChainID) (diffID : DiffID)
    (size : Int64) : LS LayerRef :=
  let i : LayerInfo :=
    { chainID := createChainIDFromParent H parent [diffID], cacheID := graphID, descriptor := {}, diffID, size }
  if parent ≠ "" then do
    let p ← getParent parent
    Prog.onError (releaseParentOnError p) (.mk (registerByGraphIDLocked i (some p)).run.atomic)
  else .mk (registerByGraphIDLocked i none).run.atomic

/-- `RegisterByGraphID`. -/
def registerByGraphID (H : Hash) (graphID : String) (parent : ChainID) (diffID : DiffID) (size : Int64) :
    P (Except Err LayerRef) :=
  orExisting (registerByGraphIDOrUndo H graphID parent diffID size)

/-- A call of a layer store into which layers are migrated. -/
inductive Migration where
  | request (q : Request)
  | registerByGraphID (graphID : String) (parent : ChainID) (diffID : DiffID) (size : Int64)

/-- The program of a call, without its result. -/
def Migration.prog (H : Hash) : Migration → P Unit
  | request q => q.prog H
  | registerByGraphID graphID parent diffID size => do
    let _ ← Layer.registerByGraphID H graphID parent diffID size

/-- The runs of a call in which the parent that `RegisterByGraphID` looks up,
if it is there, satisfies `D`. -/
def Migration.progIf (H : Hash) (D : RoLayer → Bool) : Migration → P Unit
  | request q => q.prog H
  | registerByGraphID graphID parent diffID size =>
    ((registerByGraphID graphID parent diffID size).prog H).startIf fun s =>
      (s.1.ls.layerMap.lookup parent).all D

/-! ## What a step can do -/

/-- What a step can do, where the parents that `RegisterByGraphID` takes
satisfy `D`. -/
inductive MigrationAction (H : Hash) (D : RoLayer → Prop) : World × Call → World × Call → Prop
  | action {s s'} (h : Action H False s s') : MigrationAction H D s s'
  /-- A step, or a critical section, on a transaction of its own. -/
  | transaction {w c w' c'} (hls : w'.ls = w.ls) (hs : w'.store.mounts = w.store.mounts)
    (hp : c'.parent = c.parent) (hm : c'.mount = c.mount) : MigrationAction H D (w, c) (w', c')
  /-- The critical section of `RegisterByGraphID`, of a new layer. -/
  | publish {w c w' c' i} (hD : ∀ p, c.parent = some p → D p) (new : w.ls.layerMap.lookup i.chainID = none)
    (hls : w'.ls = ((w.ls.addLayer i c.parent).2.getReference (w.ls.addLayer i c.parent).1).2)
    (hs : w'.store.mounts = w.store.mounts) (hp : c'.parent = none) (hm : c'.mount = c.mount) :
    MigrationAction H D (w, c) (w', c')

section

variable {H : Hash} {D : RoLayer → Prop} {w w' : World} {c c' : Call} {F : Multiset Call}

theorem RefInv.migrationAction (ha : MigrationAction H D (w, c) (w', c')) (hl : LockInv w (c ::ₘ F))
    (h : RefInv w.ls (inHand (c ::ₘ F))) : RefInv w'.ls (inHand (c' ::ₘ F)) := by
  cases ha with
  | action ha => exact h.action ha hl
  | transaction hls hs hp hm =>
    rw [inHand_cons] at h ⊢
    rw [hls, hp]
    exact h
  | publish hD new hls hs hp hm =>
    rw [inHand_cons] at h ⊢
    rw [hls, hp, holds, zero_add]
    exact (h.addLayer new).getReference

theorem LockInv.migrationAction (ha : MigrationAction H D (w, c) (w', c'))
    (hr : RefInv w.ls (inHand (c ::ₘ F))) (h : LockInv w (c ::ₘ F)) : LockInv w' (c' ::ₘ F) := by
  cases ha with
  | action ha => exact h.action ha hr
  | transaction hls hs hp hm => exact h.of_eq (by rw [hls]) (by rw [hls]) hs hm
  | publish hD new hls hs hp hm => exact h.of_eq (by rw [hls]; rfl) (by rw [hls]; rfl) hs hm

end

/-! ## The steps of the calls -/

/-- The states differ in the clock and in the open transactions only. -/
structure TxFrame (s s' : World × Call) : Prop where
  ls : s'.1.ls = s.1.ls
  mounts : s'.1.store.mounts = s.1.store.mounts
  parent : s'.2.parent = s.2.parent
  mount : s'.2.mount = s.2.mount

/-- `x` changes the clock and the open transactions only. -/
def Frames {α : Type} (x : P α) : Prop := ∀ s, Triple x s fun _ s' => TxFrame s s'

namespace Frames

variable {α β : Type}

theorem refl (s : World × Call) : TxFrame s s := ⟨rfl, rfl, rfl, rfl⟩

theorem trans {s s₁ s₂ : World × Call} (h₁ : TxFrame s s₁) (h₂ : TxFrame s₁ s₂) : TxFrame s s₂ :=
  ⟨h₂.ls.trans h₁.ls, h₂.mounts.trans h₁.mounts, h₂.parent.trans h₁.parent, h₂.mount.trans h₁.mount⟩

theorem bindE {x : LS α} {f : α → LS β} (hx : Frames x.run) (hf : ∀ a, Frames (f a).run) :
    Frames (x >>= f).run := by
  intro s
  refine Triple.bindE ((hx s).mono fun r s₁ h₁ => ?_)
  cases r with
  | error e => exact h₁
  | ok a => exact (hf a s₁).mono fun _ s₂ h₂ => trans h₁ h₂

theorem ask {op : Op} {onOk onFail : Answer → World × Call → World × Call}
    (ok : ∀ a s, TxFrame s (onOk a s)) (fail : ∀ a s, TxFrame s (onFail a s)) :
    Frames (ask op onOk onFail).run := by
  intro s
  refine Triple.step fun r s' h => ?_
  have tick : TxFrame s (s.1.tick, s.2) := ⟨rfl, rfl, rfl, rfl⟩
  simp only at h
  split at h
  · cases h; exact trans tick (ok _ _)
  · cases h; exact trans tick (fail _ _)

theorem noEffect {op : Op} : Frames (Layer.ask op Layer.noEffect Layer.noEffect).run :=
  ask (fun _ s => refl s) fun _ s => refl s

theorem writeTx {op : Op} {tx : String} {f : FileName} {x : File} : Frames (writeTx op tx f x).run := by
  have write (s : World × Call) (x : File) : TxFrame s ({ s.1 with store := s.1.store.writeTmp tx f x },
      { s.2 with tx := s.2.tx.map fun t => (t.1, t.2.insert f x) }) :=
    ⟨rfl, MetadataStore.mounts_writeTmp .., rfl, rfl⟩
  refine bindE (ask (fun _ s => write s x) fun a s => ?_) fun _ s => Triple.ret (refl s)
  cases a.left with
  | nothing => exact refl s
  | directory => exact refl s
  | truncated t => exact write s (.text t)

theorem storeLayer {tx : String} {i : LayerInfo} {parent : Option RoLayer} :
    Frames (storeLayer tx i parent).run :=
  storeLayer_rule (Q := fun x => Frames x.run) (fun _ _ _ => writeTx) (fun s => Triple.ret (refl s)) (fun _ _ => bindE) i parent

theorem startTransaction : Frames startTransaction.run := by
  intro s
  refine Triple.step fun r s' h => ?_
  simp only at h
  split at h
  · cases h; exact ⟨rfl, rfl, rfl, rfl⟩
  · split at h
    · cases h
    · cases h; exact ⟨rfl, rfl, rfl, rfl⟩

theorem cancelTx {tx : String} : Frames (cancelTx tx) := by
  intro s
  refine Triple.bind (Triple.mono (ask ?_ ?_ s) fun _ _ h => Triple.ret h)
  · exact fun _ _ => ⟨rfl, rfl, rfl, rfl⟩
  · exact fun _ s => refl s

end Frames

section

variable {H : Hash} {D : RoLayer → Prop} {w : World} {c : Call}

theorem Frames.copyLayer {i : LayerInfo} {parent : Option RoLayer} {tx : String} :
    Frames (copyLayer i parent tx).run :=
  writeTx.bindE fun _ => noEffect.bindE fun _ => noEffect.bindE fun _ => storeLayer

/-- What `RegisterByGraphID` does in its transaction. -/
theorem registerByGraphIDIn_triple {i : LayerInfo} {tx : String} {s₀ : World × Call} (h₀ : TxFrame (w, c) s₀)
    (hD : ∀ p, c.parent = some p → D p) (new : w.ls.layerMap.lookup i.chainID = none) :
    Triple (registerByGraphIDIn i c.parent tx).run s₀ fun r s => match r with
      | .ok _ => MigrationAction H D (w, c) s ∧ s.2.mount = c.mount ∧ s.2.parent = none
      | .error _ => TxFrame (w, c) s := by
  refine Triple.bindE ((Frames.copyLayer s₀).mono fun r s₁ h₁ => ?_)
  have h₁ := Frames.trans h₀ h₁
  cases r with
  | error e => exact h₁
  | ok _ =>
    refine Triple.step fun r s₂ h => ?_
    rcases hcommit : s₁.1.commit tx i.chainID with ⟨_ | _, w₂⟩
    · simp only [hcommit] at h
      cases h
      obtain rfl := commit_false hcommit
      exact Frames.trans h₁ ⟨rfl, rfl, rfl, rfl⟩
    · simp only [hcommit] at h
      cases h
      obtain ⟨d, -, -, rfl⟩ := commit_true hcommit
      refine ⟨.publish hD new ?_ h₁.mounts rfl h₁.mount, h₁.mount, rfl⟩
      show ((s₁.1.ls.addLayer i c.parent).2.getReference (s₁.1.ls.addLayer i c.parent).1).2 = _
      rw [show s₁.1.ls = w.ls from h₁.ls]

/-- The critical section of `RegisterByGraphID` is one action. -/
theorem registerByGraphIDLocked_triple {i : LayerInfo} (hD : ∀ p, c.parent = some p → D p) :
    Triple (registerByGraphIDLocked i c.parent).run (w, c) fun r s => MigrationAction H D (w, c) s ∧
      s.2.mount = c.mount ∧ match r with
        | .ok _ => s.2.parent = none
        | .error _ => s.2.parent = c.parent := by
  have framed {s : World × Call} (h : TxFrame (w, c) s) : MigrationAction H D (w, c) s ∧
      s.2.mount = c.mount ∧ s.2.parent = c.parent :=
    ⟨.transaction h.ls h.mounts h.parent h.mount, h.mount, h.parent⟩
  refine Triple.bindE (Triple.step fun r s₁ h₁ => ?_)
  cases hl : w.ls.layerMap.lookup i.chainID with
  | some l =>
    simp only [LayerStore.getWithoutLock, hl] at h₁
    cases h₁
    exact ⟨.action (.reference hl), rfl, rfl⟩
  | none =>
    simp only [LayerStore.getWithoutLock, hl] at h₁
    cases h₁
    refine Triple.bindE ((Frames.startTransaction (w, c)).mono fun r s₂ h₂ => ?_)
    cases r with
    | error e => exact framed h₂
    | ok tx =>
      refine Triple.onError ((registerByGraphIDIn_triple (H := H) h₂ hD hl).mono fun r s₃ h₃ => ?_)
      cases r with
      | ok _ => exact h₃
      | error e => exact (Frames.cancelTx s₃).mono fun _ s₄ h₄ => framed (Frames.trans h₃ h₄)

/-- The steps of `RegisterByGraphID` once it has taken its parent. -/
theorem registerByGraphIDLocked_follows {i : LayerInfo} {parent : Option RoLayer} {c : Call} (hc : c.parent = parent)
    (hD : ∀ p, parent = some p → D p) :
    Follows (Assumes False) (MigrationAction H D) (registerByGraphIDLocked i parent).run.atomic c fun r c' =>
      c'.mount = c.mount ∧ match r with
        | .ok _ => c'.parent = none
        | .error _ => c'.parent = parent := by
  subst hc
  exact Follows.atomic fun w _ => registerByGraphIDLocked_triple hD

/-- The steps of `RegisterByGraphID`, where the parent that it finds
satisfies `B`. -/
theorem registerByGraphID_follows {graphID : String} {parent : ChainID} {diffID : DiffID} {size : Int64}
    {B : RoLayer → Bool} (hB : ∀ p, B p = true → D p) :
    Follows (Assumes False) (MigrationAction H D)
      ((registerByGraphIDOrUndo H graphID parent diffID size).run.startIf fun s =>
        (s.1.ls.layerMap.lookup parent).all B) {}
      fun _ c' => c'.At none none := by
  unfold registerByGraphIDOrUndo
  by_cases hp : parent = ""
  · simp only [hp, ne_eq, not_true_eq_false, if_false]
    refine Follows.startIf_of (Follows.mono (registerByGraphIDLocked_follows rfl nofun) fun r c' hr => ?_)
    cases r <;> exact ⟨hr.2, hr.1⟩
  · simp only [hp, ne_eq, not_false_eq_true, if_true]
    refine Follows.startIf fun w b w' c' _ hC hm => ?_
    cases hl : w.ls.layerMap.lookup parent with
    | none =>
      simp only [LayerStore.getWithoutLock, hl] at hm
      cases hm
      exact ⟨.action .skip, rfl, rfl⟩
    | some p =>
      simp only [LayerStore.getWithoutLock, hl] at hm
      cases hm
      refine ⟨.action (.getParent rfl hl), ?_⟩
      have hp : D p := hB p (by simpa [hl] using hC)
      have hbody := @registerByGraphIDLocked_follows H D
        { chainID := createChainIDFromParent H parent [diffID], cacheID := graphID, descriptor := {}, diffID, size }
        (some p) { parent := some p } rfl fun q hq => by cases hq; exact hp
      refine Follows.onError (hbody.mono fun r c₁ hr => ?_)
      cases r with
      | ok _ => exact ⟨hr.2, hr.1⟩
      | error e =>
        refine ((releaseParentOnError_follows hr.2).imp fun _ _ h => .action h).mono fun _ c₂ h₂ => ?_
        subst h₂
        exact ⟨rfl, hr.1⟩

theorem orExisting_follows {x : LS LayerRef} {C : World × Call → Bool}
    (h : Follows (Assumes False) (MigrationAction H D) (x.run.startIf C) {} fun _ c' => c'.At none none) :
    Follows (Assumes False) (MigrationAction H D) ((orExisting x).startIf C) {} fun _ c' => c'.At none none :=
  Follows.startIf_bind (h.mono fun r c' hc' => by split <;> exact hc')

/-- The steps of every call are among the actions, where the parents that
`RegisterByGraphID` finds satisfy `B`. -/
theorem Migration.follows {B : RoLayer → Bool} (hB : ∀ p, B p = true → D p) (q : Migration) :
    Follows (Assumes False) (MigrationAction H D) (q.progIf H B) {} fun _ c' => c'.At none none := by
  cases q with
  | request q => exact q.follows.imp fun _ _ h => .action h
  | registerByGraphID =>
    exact Follows.startIf_bind ((orExisting_follows (registerByGraphID_follows hB)).mono fun _ _ h => h)

end

/-! ## Runs -/

/-- The configurations that any interleaving of calls reaches, from an empty
layer store in the environment `env`. -/
abbrev Migrates (H : Hash) (env : Nat → Op → Answer) : Config World Call → Prop :=
  Reachable (Migration.prog H) {} { env }

/-- Those that are reached by runs in which the parents that
`RegisterByGraphID` finds satisfy `B`. -/
abbrev MigratesIf (H : Hash) (env : Nat → Op → Answer) (B : RoLayer → Bool) : Config World Call → Prop :=
  Reachable (Migration.progIf H B) {} { env }

/-- The reference counts and the locks are kept in every run of programs whose
steps are among the actions. -/
theorem migration_inv {H : Hash} {env : Nat → Op → Answer} {prog : Migration → P Unit} {x : Config World Call}
    (hprog : ∀ q, Follows (Assumes False) (MigrationAction H fun _ => True) (prog q) {} fun _ c => c.At none none)
    (hx : Reachable prog {} { env } x) : RefInv x.1.ls (inHand x.calls) ∧ LockInv x.1 x.calls :=
  reachable_inv (A := Assumes False) (R := MigrationAction H fun _ => True) (D := Call.At none none)
    (I := fun w F => RefInv w.ls (inHand F) ∧ LockInv w F) hprog (fun _ _ _ h => h.elim)
    ⟨RefInv.empty, LockInv.empty env⟩ (fun _ _ h => ⟨h.1.call, h.2.call⟩)
    (fun _ _ _ hc h => ⟨h.1.return hc, h.2.return hc⟩)
    (fun _ _ _ _ _ ha h => ⟨h.1.migrationAction ha h.2, h.2.migrationAction ha h.1⟩) hx

theorem migrates_inv {H : Hash} {env : Nat → Op → Answer} {B : RoLayer → Bool} {x : Config World Call}
    (hx : MigratesIf H env B x) : RefInv x.1.ls (inHand x.calls) ∧ LockInv x.1 x.calls :=
  migration_inv (Migration.follows fun _ _ => trivial) hx

end Moby.Layer
