import Moby.Framework.Calls
import Moby.Layer.Filestore

/-!
# The layer store

`layerStore`, with the graph driver and the metadata store it works on
(`World`), and its operations as programs of atomic steps: every call of the
driver, of the metadata store, of the tar library, of an init function or of
the random source is a step, which the environment answers (`World.env`) and
can let fail, and so is every critical section of `layerL`; `mountL` is a
lock. A failing `Create`, `CreateReadWrite` or `Remove` of the driver may have
had its effect all the same, and a failing write leaves what the environment
says; a failing `os.Rename` or `os.RemoveAll` has no effect.
-/

namespace Moby.Layer

open Moby.Framework Moby.Digest

/-- The calls that the environment answers. -/
inductive Op where
  | driverCreate
  | driverCreateReadWrite
  | driverGet
  | driverPut
  | driverRemove
  | applyDiff
  | newInputTarStream
  | startTransaction
  | tarSplitWriter
  | setSize
  | setParent
  | setDiffID
  | setCacheID
  | setDescriptor
  | commit
  | cancel
  | storeRemove
  | setMountID
  | setInitID
  | setMountParent
  | removeMount
  | initFunc
  | generateRandomID
  | openTarData
  | copyTarData
  deriving DecidableEq, Repr

/-- What a failing write leaves: nothing, an empty directory, or a file
with part of the text. -/
inductive Left where
  | nothing
  | directory
  | truncated (s : String)

/-- An answer of the environment: whether the call succeeds, whether a failing
call of the driver has had its effect, and what the call returns (a random ID
or the name of a temporary directory, the size of a layer) or leaves behind. -/
structure Answer where
  ok : Bool := true
  done : Bool := false
  id : String := ""
  size : Int64 := 0
  left : Left := .nothing

/-- `releaseLayer`'s panics. -/
inductive Panic where
  | layerNotRetained
  | cannotRemoveLayerWithChild
  | cannotDeleteReferencedLayer
  deriving DecidableEq, Repr

/-- The errors of the layer store. `layerAlreadyExists`, with a reference to
the layer, undoes a registration and is no error for the caller. -/
inductive Err where
  | layerDoesNotExist
  | layerNotRetained
  | mountDoesNotExist
  | mountNameConflict
  | maxDepthExceeded
  | layerAlreadyExists (h : LayerRef)
  | failed (op : Op)
  | panic (p : Panic)
  deriving DecidableEq

/-- The maps of `layerStore`, the counters of its layers by address, and the
next free address and reference. -/
structure LayerStore where
  layerMap : Map ChainID RoLayer := ∅
  mounts : Map String MountedLayer := ∅
  mountL : Bool := false
  counters : Nat → Counter := fun _ => ⟨0, ∅⟩
  nextPtr : Nat := 0
  nextRef : Nat := 0
  panicked : Option Panic := none

/-- A layer store, the layers of its graph driver, its metadata store, the
random IDs drawn so far, and the environment's answers, one at each
tick of the clock. -/
structure World where
  env : Nat → Op → Answer
  clock : Nat := 0
  ls : LayerStore := {}
  driver : Finset String := ∅
  store : MetadataStore := {}
  issued : Finset String := ∅

/-- What the holder of `mountL` knows of the name it has looked up: the mount
and its directory in the metadata store. -/
structure MountView where
  name : String
  mount : Option MountedLayer
  dir : Option Dir

/-- The view after `MkdirAll` of the directory. -/
def MountView.mkdir (v : MountView) : MountView := { v with dir := some (v.dir.getD ∅) }

/-- The view after a write to a file of the directory. -/
def MountView.write (v : MountView) (f : FileName) (x : File) : MountView :=
  { v with dir := some ((v.dir.getD ∅).insert f x) }

/-- The state of a call in flight. -/
structure Call where
  parent : Option RoLayer := none
  mount : Option MountView := none
  id : Option String := none
  created : Option String := none
  tx : Option (String × Dir) := none

/-! ## Counters and maps -/

namespace LayerStore

def referenceCount (s : LayerStore) (l : RoLayer) : Nat := (s.counters l.ptr).referenceCount

def references (s : LayerStore) (l : RoLayer) : Finset Nat := (s.counters l.ptr).references

/-- Change the counter of `l`. -/
def modify (s : LayerStore) (l : RoLayer) (f : Counter → Counter) : LayerStore :=
  { s with counters := Function.update s.counters l.ptr (f (s.counters l.ptr)) }

/-- `l.referenceCount++`. -/
def retain (s : LayerStore) (l : RoLayer) : LayerStore :=
  s.modify l fun c => { c with referenceCount := c.referenceCount + 1 }

/-- `l.referenceCount--`. -/
def unretain (s : LayerStore) (l : RoLayer) : LayerStore :=
  s.modify l fun c => { c with referenceCount := c.referenceCount - 1 }

/-- `getReference`: a new reference to `l`. -/
def getReference (s : LayerStore) (l : RoLayer) : LayerRef × LayerStore :=
  (⟨l, s.nextRef⟩,
    { s.modify l fun c => { c with references := insert s.nextRef c.references } with
      nextRef := s.nextRef + 1 })

/-- `deleteReference`. -/
def deleteReference (s : LayerStore) (l : RoLayer) (r : Nat) : LayerStore :=
  s.modify l fun c => { c with references := c.references.erase r }

/-- `getWithoutLock`. -/
def getWithoutLock (s : LayerStore) (id : ChainID) : Option RoLayer × LayerStore :=
  match s.layerMap.lookup id with
  | none => (none, s)
  | some l => (some l, s.retain l)

/-- `ls.layerMap[layer.chainID] = layer`, of a new layer with
`referenceCount: 1`. -/
def addLayer (s : LayerStore) (i : LayerInfo) (p : Option RoLayer) : RoLayer × LayerStore :=
  let l := RoLayer.make s.nextPtr i p
  (l, { s with
    layerMap := s.layerMap.insert i.chainID l
    counters := Function.update s.counters s.nextPtr ⟨1, ∅⟩
    nextPtr := s.nextPtr + 1 })

/-- `delete(ls.layerMap, l.chainID)`. -/
def removeLayer (s : LayerStore) (l : RoLayer) : LayerStore :=
  { s with layerMap := s.layerMap.erase l.chainID }

end LayerStore

/-! ## Releasing a layer -/

namespace World

/-- The environment's answer to a call now. -/
def answer (w : World) (op : Op) : Answer := w.env w.clock op

def tick (w : World) : World := { w with clock := w.clock + 1 }

/-- A call that succeeds, with an effect, or fails without one. -/
def request (w : World) (op : Op) (effect : World → World) : Bool × World :=
  if (w.answer op).ok then (true, effect w.tick) else (false, w.tick)

/-- `ls.driver.Remove`. -/
def driverRemove (w : World) (id : String) : Bool × World :=
  let a := w.answer .driverRemove
  (a.ok, if a.ok || a.done then { w.tick with driver := w.driver.erase id } else w.tick)

/-- `ls.store.Remove`. -/
def storeRemove (w : World) (id : ChainID) : Bool × World :=
  w.request .storeRemove fun w => { w with store := { w.store with layers := w.store.layers.erase id } }

/-- `tx.Commit`: `os.Rename` of the transaction's directory to the layer's,
which fails if that is there already. -/
def commit (w : World) (tx : String) (id : ChainID) : Bool × World :=
  match w.store.tmp.lookup tx with
  | none => (false, w.tick)
  | some d =>
    if id ∈ w.store.layers then (false, w.tick)
    else w.request .commit fun w =>
      { w with store := { w.store with
        tmp := w.store.tmp.erase tx, layers := w.store.layers.insert id d } }

/-- `panic(…)`. -/
def panic {α : Type} (w : World) (p : Panic) : Except Err α × World :=
  (.error (.panic p), { w with ls := { w.ls with panicked := some p } })

/-- `deleteLayer`. -/
def deleteLayer (w : World) (l : RoLayer) : Except Err Metadata × World :=
  match w.driverRemove l.cacheID with
  | (false, w) => (.error (.failed .driverRemove), w)
  | (true, w) =>
    match w.storeRemove l.chainID with
    | (false, w) => (.error (.failed .storeRemove), w)
    | (true, w) => (.ok ⟨l.chainID, l.info.diffID, l.totalSize, l.info.size⟩, w)

/-- One round of `releaseLayer`'s loop: it returns (`inl`), or it has removed
the layer and goes on to its parent. -/
def releaseOne (w : World) (l : RoLayer) (depth : Nat) (removed : List Metadata) :
    (Except Err (List Metadata) ⊕ List Metadata) × World :=
  if w.ls.referenceCount l = 0 then
    let (e, w) := w.panic .layerNotRetained
    (.inl e, w)
  else
    let w := { w with ls := w.ls.unretain l }
    if w.ls.referenceCount l ≠ 0 then (.inl (.ok removed), w)
    else if removed.length = 0 ∧ depth > 0 then
      let (e, w) := w.panic .cannotRemoveLayerWithChild
      (.inl e, w)
    else if (w.ls.references l).Nonempty then
      let (e, w) := w.panic .cannotDeleteReferencedLayer
      (.inl e, w)
    else
      match w.deleteLayer l with
      | (.error e, w) => (.inl (.error e), w)
      | (.ok metadata, w) => (.inr (removed ++ [metadata]), { w with ls := w.ls.removeLayer l })

/-- `releaseLayer`'s loop, up the parents of `l`. -/
def releaseLoop (w : World) (depth : Nat) (removed : List Metadata) :
    RoLayer → Except Err (List Metadata) × World
  | .base a i =>
    match w.releaseOne (.base a i) depth removed with
    | (.inl r, w) => (r, w)
    | (.inr removed, w) => (.ok removed, w)
  | .child a i p =>
    match w.releaseOne (.child a i p) depth removed with
    | (.inl r, w) => (r, w)
    | (.inr removed, w) => releaseLoop w (depth + 1) removed p

/-- `releaseLayer`. -/
def releaseLayer (w : World) (l : RoLayer) : Except Err (List Metadata) × World :=
  w.releaseLoop 0 [] l

/-- The critical section of `Get`. -/
def get (w : World) (id : ChainID) : Except Err LayerRef × World :=
  match w.ls.getWithoutLock id with
  | (none, ls) => (.error .layerDoesNotExist, { w with ls })
  | (some l, ls) =>
    let (h, ls) := ls.getReference l
    (.ok h, { w with ls })

/-- The critical section of `Release`. -/
def release (w : World) (l : LayerRef) : Except Err (List Metadata) × World :=
  match w.ls.layerMap.lookup l.layer.chainID with
  | none => (.ok [], w)
  | some layer =>
    if l.ref ∉ w.ls.references layer then (.error .layerNotRetained, w)
    else { w with ls := w.ls.deleteReference layer l.ref }.releaseLayer layer

end World

/-! ## Steps -/

/-- A program of the layer store. -/
abbrev P := Prog World Call

/-- A program of the layer store that can fail. -/
abbrev LS := ExceptT Err P

/-- A call of the environment. -/
def ask (op : Op) (onOk onFail : Answer → World × Call → World × Call) : LS Answer :=
  .mk <| .step fun s =>
    let a := s.1.answer op
    if a.ok then some (.ok a, onOk a (s.1.tick, s.2))
    else some (.error (.failed op), onFail a (s.1.tick, s.2))

def noEffect (_ : Answer) (s : World × Call) : World × Call := s

/-- What a failing call of the driver leaves. -/
def ifDone (effect : World × Call → World × Call) (a : Answer) (s : World × Call) : World × Call :=
  if a.done then effect s else s

section

variable {effect : World × Call → World × Call} {a : Answer} {s : World × Call}

theorem ifDone_of_done (h : a.done = true) : ifDone effect a s = effect s := if_pos h

theorem ifDone_of_not_done (h : a.done = false) : ifDone effect a s = s := if_neg (Bool.eq_false_iff.mp h)

theorem ifDone_rule {P : World × Call → Prop} (hdone : P (effect s)) (hnot : P s) : P (ifDone effect a s) := by
  cases h : a.done with
  | true => exact ifDone_of_done h ▸ hdone
  | false => exact ifDone_of_not_done h ▸ hnot

end

/-- The driver has one layer more. -/
def addDriver (id : String) (s : World × Call) : World × Call := ({ s.1 with driver := insert id s.1.driver }, s.2)

/-- The driver has one layer less. -/
def eraseDriver (id : String) (s : World × Call) : World × Call := ({ s.1 with driver := s.1.driver.erase id }, s.2)

/-- `stringid.GenerateRandomID`: an ID that was never drawn before. -/
def generateRandomID : LS String :=
  .mk <| .step fun s =>
    let id := (s.1.answer .generateRandomID).id
    if IsRandomID id ∧ id ∉ s.1.issued then
      some (.ok id, { s.1.tick with issued := insert id s.1.issued }, { s.2 with id := some id })
    else none

def driverCreate (id : String) : LS Unit := do
  let _ ← ask .driverCreate
    (fun _ s => ({ s.1 with driver := insert id s.1.driver }, { s.2 with created := some id }))
    (ifDone (addDriver id))

/-- `StartTransaction`: a new directory, with a name that is not in use. -/
def startTransaction : LS String :=
  .mk <| .step fun s =>
    let a := s.1.answer .startTransaction
    if !a.ok then some (.error (.failed .startTransaction), s.1.tick, s.2)
    else if a.id ∈ s.1.store.tmp then none
    else some (.ok a.id,
      { s.1.tick with store := { s.1.store with tmp := s.1.store.tmp.insert a.id ∅ } },
      { s.2 with tx := some (a.id, ∅) })

/-- Write a file of the transaction. -/
def writeTx (op : Op) (tx : String) (f : FileName) (x : File) : LS Unit := do
  let write (x : File) (s : World × Call) : World × Call :=
    ({ s.1 with store := s.1.store.writeTmp tx f x },
      { s.2 with tx := s.2.tx.map fun t => (t.1, t.2.insert f x) })
  let _ ← ask op (fun _ => write x) fun a s =>
    match a.left with
    | .truncated t => write (.text t) s
    | _ => s

/-- Write a file of a mount, as the holder of `mountL`. -/
def writeMount (op : Op) (mount : String) (f : FileName) (x : File) : LS Unit := do
  let write (x : File) (s : World × Call) : World × Call :=
    ({ s.1 with store := s.1.store.writeMount mount f x },
      { s.2 with mount := s.2.mount.map (·.write f x) })
  let _ ← ask op (fun _ => write x) fun a s =>
    match a.left with
    | .nothing => s
    | .directory => ({ s.1 with store := s.1.store.mkdirMount mount },
      { s.2 with mount := s.2.mount.map (·.mkdir) })
    | .truncated t => write (.text t) s

/-- `ls.driver.Remove`, of a driver layer that the call has made, and
`tx.Cancel`: the clean-up of a registration. -/
def cleanup (cacheID tx : String) : P Unit := do
  let removed (s : World × Call) : World × Call :=
    ({ s.1 with driver := s.1.driver.erase cacheID }, { s.2 with created := none, id := none })
  let _ ← (ask .driverRemove (fun _ => removed) (ifDone removed)).run
  let _ ← (ask .cancel (fun _ s => ({ s.1 with store := { s.1.store with
    tmp := s.1.store.tmp.erase tx } }, { s.2 with tx := none })) noEffect).run

/-- `ls.get`, of the layer that the call takes as parent. -/
def getParent (id : ChainID) : LS RoLayer :=
  .mk <| .step fun s =>
    match s.1.ls.getWithoutLock id with
    | (none, ls) => some (.error .layerDoesNotExist, { s.1 with ls }, s.2)
    | (some l, ls) => some (.ok l, { s.1 with ls }, { s.2 with parent := some l })

/-- `ls.layerL.Lock(); ls.releaseLayer(p); ls.layerL.Unlock()`, of the layer
that the call has taken as parent. -/
def releaseParent (p : RoLayer) : P (Except Err (List Metadata)) :=
  .step fun s =>
    let r := s.1.releaseLayer p
    some (r.1, r.2, { s.2 with parent := none })

/-! ## Register -/

/-- `applyTar`: the diff ID and the size of the layer. -/
def applyTar (H : Hash) (tx : String) (ts : List UInt8) : LS (DiffID × Int64) := do
  writeTx .tarSplitWriter tx .tarSplit (.text "")
  let _ ← ask .newInputTarStream noEffect noEffect
  let a ← ask .applyDiff noEffect noEffect
  return (H.fromBytes ts, a.size)

/-- `storeLayer`. -/
def storeLayer (tx : String) (i : LayerInfo) (parent : Option RoLayer) : LS Unit := do
  writeTx .setDiffID tx .diff (.text i.diffID)
  writeTx .setSize tx .size (.text (formatInt i.size))
  writeTx .setCacheID tx .cacheID (.text i.cacheID)
  -- Do not store empty descriptors
  if i.descriptor.digest ≠ "" then
    writeTx .setDescriptor tx .descriptor (.json i.descriptor.marshal)
  match parent with
  | none => pure ()
  | some p => writeTx .setParent tx .parent (.text p.chainID)

/-- What every write into a transaction has, and what is kept in sequence, `storeLayer` has. -/
theorem storeLayer_rule {tx : String} {Q : LS Unit → Prop} (hwrite : ∀ op f x, Q (writeTx op tx f x)) (hpure : Q (pure ()))
    (hbind : ∀ (x : LS Unit) (f : Unit → LS Unit), Q x → (∀ u, Q (f u)) → Q (x >>= f)) (i : LayerInfo)
    (parent : Option RoLayer) : Q (storeLayer tx i parent) := by
  unfold storeLayer
  refine hbind _ _ (hwrite ..) fun _ => hbind _ _ (hwrite ..) fun _ => hbind _ _ (hwrite ..) fun _ => ?_
  by_cases hd : i.descriptor.digest = ""
  · simp only [hd, ne_eq, not_true_eq_false, if_false]
    cases parent with
    | none => exact hpure
    | some p => exact hwrite ..
  · simp only [hd, ne_eq, not_false_eq_true, if_true]
    refine hbind _ _ (hwrite ..) fun _ => ?_
    cases parent with
    | none => exact hpure
    | some p => exact hwrite ..

/-- The critical section at the end of a registration: the layer is there
already, or it is committed and published. -/
def publish (tx : String) (i : LayerInfo) (parent : Option RoLayer) : LS LayerRef :=
  .mk <| .step fun s =>
    match s.1.ls.getWithoutLock i.chainID with
    | (some existing, ls) =>
      let (h, ls) := ls.getReference existing
      some (.error (.layerAlreadyExists h), { s.1 with ls }, s.2)
    | (none, _) =>
      match s.1.commit tx i.chainID with
      | (false, w) => some (.error (.failed .commit), w, s.2)
      | (true, w) =>
        let (l, ls) := w.ls.addLayer i parent
        let (h, ls) := ls.getReference l
        some (.ok h, { w with ls },
          { s.2 with parent := none, id := none, created := none, tx := none })

/-- The chain ID of a layer on its parent, if there is one. -/
def layerChainID (H : Hash) (diffID : DiffID) : Option RoLayer → ChainID
  | none => diffID
  | some p => createChainIDFromParent H p.chainID [diffID]

/-- `registerWithDescriptor` in its transaction. -/
def registerIn (H : Hash) (ts : List UInt8) (parent : Option RoLayer) (descriptor : Descriptor)
    (cacheID tx : String) : LS LayerRef := do
  let (diffID, size) ← applyTar H tx ts
  let i : LayerInfo :=
    { chainID := layerChainID H diffID parent, diffID, cacheID, size, descriptor }
  storeLayer tx i parent
  publish tx i parent

/-- `registerWithDescriptor` once the parent is taken. -/
def registerOn (H : Hash) (ts : List UInt8) (parent : Option RoLayer) (descriptor : Descriptor) :
    LS LayerRef := do
  let cacheID ← generateRandomID
  driverCreate cacheID
  let tx ← startTransaction
  Prog.onError (cleanup cacheID tx) (registerIn H ts parent descriptor cacheID tx)

/-- `releaseParent`, for a deferred clean-up. -/
def releaseParentOnError (p : RoLayer) : P Unit := do
  let _ ← releaseParent p

/-- `registerWithDescriptor`, with the error that triggers its clean-up. -/
def registerOrUndo (H : Hash) (ts : List UInt8) (parent : ChainID) (descriptor : Descriptor) :
    LS LayerRef :=
  if parent ≠ "" then do
    let p ← getParent parent
    Prog.onError (releaseParentOnError p) do
      if p.depth ≥ maxLayerDepth then throw .maxDepthExceeded
      registerOn H ts (some p) descriptor
  else registerOn H ts none descriptor

/-- The layer that `x` registers, or the one that is there already. -/
def orExisting (x : LS LayerRef) : P (Except Err LayerRef) := do
  match ← x.run with
  | .ok h => return .ok h
  | .error (.layerAlreadyExists h) => return .ok h
  | .error e => return .error e

/-- `registerWithDescriptor`. -/
def registerWithDescriptor (H : Hash) (ts : List UInt8) (parent : ChainID)
    (descriptor : Descriptor) : P (Except Err LayerRef) :=
  orExisting (registerOrUndo H ts parent descriptor)

/-- `Register`. -/
def register (H : Hash) (ts : List UInt8) (parent : ChainID) : P (Except Err LayerRef) :=
  registerWithDescriptor H ts parent {}

/-- `Get`. -/
def get (id : ChainID) : P (Except Err LayerRef) := .atomically (·.get id)

/-- `Release`. -/
def release (l : LayerRef) : P (Except Err (List Metadata)) := .atomically (·.release l)

/-! ## Mounts -/

/-- `ls.mountL.Lock()` and `ls.mounts[name]`. -/
def lockMount (name : String) : P (Option MountedLayer) :=
  .step fun s =>
    if s.1.ls.mountL then none
    else
      let m := s.1.ls.mounts.lookup name
      some (m, { s.1 with ls := { s.1.ls with mountL := true } },
        { s.2 with mount := some ⟨name, m, s.1.store.mounts.lookup name⟩ })

/-- `ls.mountL.Unlock()`. -/
def unlockMount : P Unit :=
  .step fun s =>
    some ((), { s.1 with ls := { s.1.ls with mountL := false } }, { s.2 with mount := none })

/-- Change the mount `m.name` to `m`, as the holder of `mountL`. -/
def setMount (m : MountedLayer) (s : World × Call) : World × Call :=
  ({ s.1 with ls := { s.1.ls with mounts := s.1.ls.mounts.insert m.name m } },
    { s.2 with mount := s.2.mount.map fun v => { v with mount := some m } })

/-- `m.getReference()`. -/
def mountReference (m : MountedLayer) : P RWLayerRef :=
  .step fun s =>
    let r := s.1.ls.nextRef
    let s := setMount { m with references := insert r m.references } s
    some (⟨m.name, r⟩, { s.1 with ls := { s.1.ls with nextRef := r + 1 } }, s.2)

/-- `ls.mounts[mount.name] = mount`: from here on the mount holds the layer
that the call has taken as parent. -/
def publishMount (m : MountedLayer) : P Unit :=
  .step fun s =>
    let s := setMount m s
    some ((), s.1, { s.2 with parent := none, id := none })

/-- `m.deleteReference(l)` and `m.retakeReference(l)`: the mount with other
references. -/
def updateMount (m : MountedLayer) : P Unit := .step fun s => some ((), setMount m s)

/-- `delete(ls.mounts, m.Name())`: from here on the call holds the parent of
the mount. -/
def deleteMount (m : MountedLayer) : P Unit :=
  .step fun s =>
    some ((), { s.1 with ls := { s.1.ls with mounts := s.1.ls.mounts.erase m.name } },
      { s.2 with
        parent := m.parent, mount := s.2.mount.map fun v => { v with mount := none } })

/-- `initMount`: the ID of the init layer. -/
def initMount (graphID : String) : LS String := do
  let initID := graphID ++ "-init"
  let _ ← ask .driverCreate (fun _ => addDriver initID) (ifDone (addDriver initID))
  let _ ← ask .driverGet noEffect noEffect
  let _ ← Prog.onError (do let _ ← (ask .driverPut noEffect noEffect).run) <|
    ask .initFunc noEffect noEffect
  let _ ← ask .driverPut noEffect noEffect
  return initID

/-- `initMount`, if there is an init function. -/
def initMountIf (init : Bool) (graphID : String) : LS String :=
  if init then initMount graphID else pure ""

/-- The writes of `saveMount`. -/
def writeMountFiles (m : MountedLayer) : LS Unit := do
  writeMount .setMountID m.name .mountID (.text m.mountID)
  if m.initID ≠ "" then
    writeMount .setInitID m.name .initID (.text m.initID)
  match m.parent with
  | none => pure ()
  | some p => writeMount .setMountParent m.name .parent (.text p.chainID)

/-- `saveMount`. -/
def saveMount (m : MountedLayer) : LS Unit := do
  writeMountFiles m
  publishMount m

/-- `CreateRWLayer` once the parent is taken. `init` says whether there is an
init function. -/
def createRWLayerOn (name : String) (parent : Option RoLayer) (init : Bool) : LS RWLayerRef := do
  let mountID ← generateRandomID
  let initID ← initMountIf init mountID
  let m : MountedLayer := { name, mountID, initID, parent, references := ∅ }
  let _ ← ask .driverCreateReadWrite (fun _ => addDriver mountID) (ifDone (addDriver mountID))
  saveMount m
  mountReference m

/-- `CreateRWLayer` under `mountL`. -/
def createRWLayerLocked (name : String) (parent : ChainID) (init : Bool) :
    Option MountedLayer → LS RWLayerRef
  | some _ => throw .mountNameConflict
  | none =>
    if parent ≠ "" then do
      let p ← getParent parent
      Prog.onError (releaseParentOnError p) do
        createRWLayerOn name (some p) init
    else createRWLayerOn name none init

/-- `CreateRWLayer`. -/
def createRWLayer (name : String) (parent : ChainID) (init : Bool) : P (Except Err RWLayerRef) := do
  let m ← lockMount name
  let r ← (createRWLayerLocked name parent init m).run
  unlockMount
  return r

/-- `GetRWLayer`. -/
def getRWLayer (id : String) : P (Except Err RWLayerRef) := do
  match ← lockMount id with
  | none =>
    unlockMount
    return .error .mountDoesNotExist
  | some m =>
    let h ← mountReference m
    unlockMount
    return .ok h

/-- The removals of `ReleaseRWLayer`: the driver layers of the mount and its
metadata. -/
def removeMount (m : MountedLayer) : LS Unit := do
  let remove (id : String) : LS Answer :=
    ask .driverRemove (fun _ => eraseDriver id) (ifDone (eraseDriver id))
  let _ ← remove m.mountID
  if m.initID ≠ "" then
    let _ ← remove m.initID
  let _ ← ask .removeMount (fun _ s => ({ s.1 with store := { s.1.store with
    mounts := s.1.store.mounts.erase m.name } },
    { s.2 with mount := s.2.mount.map fun v => { v with dir := none } })) noEffect

/-- `ReleaseRWLayer` under `mountL`, of a mount that is there. -/
def releaseMount (l : RWLayerRef) (m : MountedLayer) : P (Except Err (List Metadata)) := do
  if l.ref ∉ m.references then return .error .layerNotRetained
  let m' := { m with references := m.references.erase l.ref }
  updateMount m'
  if m'.references.Nonempty then return .ok []
  match ← (removeMount m').run with
  | .error e =>
    updateMount { m' with references := insert l.ref m'.references }
    return .error e
  | .ok () =>
    deleteMount m'
    match m.parent with
    | none => return .ok []
    | some p => releaseParent p

/-- `ReleaseRWLayer`. -/
def releaseRWLayer (l : RWLayerRef) : P (Except Err (List Metadata)) := do
  match ← lockMount l.name with
  | none =>
    unlockMount
    return .ok []
  | some m =>
    let r ← releaseMount l m
    unlockMount
    return r

/-! ## Runs -/

/-- A call of the layer store. -/
inductive Request where
  | register (ts : List UInt8) (parent : ChainID) (descriptor : Descriptor)
  | get (id : ChainID)
  | release (l : LayerRef)
  | createRWLayer (name : String) (parent : ChainID) (init : Bool)
  | getRWLayer (name : String)
  | releaseRWLayer (l : RWLayerRef)

/-- The program of a call, without its result. -/
def Request.prog (H : Hash) : Request → P Unit
  | register ts parent descriptor => do let _ ← registerWithDescriptor H ts parent descriptor
  | get id => do let _ ← Layer.get id
  | release l => do let _ ← Layer.release l
  | createRWLayer name parent init => do let _ ← Layer.createRWLayer name parent init
  | getRWLayer name => do let _ ← Layer.getRWLayer name
  | releaseRWLayer l => do let _ ← Layer.releaseRWLayer l

/-- The configurations that any interleaving of calls reaches, from an empty
layer store in the environment `env`. -/
abbrev Reaches (H : Hash) (env : Nat → Op → Answer) : Config World Call → Prop :=
  Reachable (Request.prog H) {} { env }

end Moby.Layer
