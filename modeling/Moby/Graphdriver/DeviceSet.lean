import Moby.Framework.Bitmap
import Moby.Framework.Machine
import Moby.Framework.Map

/-!
# The transactions of the devicemapper driver (daemon/graphdriver/devmapper)

A thin pool holds the devices, by their IDs, and the number of the last transaction that
has been closed. For each device there is a metadata file, and a transaction file names
the device that is being created or deleted. `DeviceSet` is what the daemon keeps in
memory: the entries, and a bitmap of the IDs in use. A crash loses it, and `initMetaData`
makes it anew from the files and then rolls a transaction back that is not closed.
-/

namespace Moby.Graphdriver

open Moby.Framework

namespace DeviceSet

/-- The hash of a device, which tells its metadata file. That of the base image is empty,
and its file is called `base`. -/
inductive Hash (κ : Type)
  | base
  | layer (id : κ)
  deriving DecidableEq

def maxDeviceID : ℕ := 0xffffff

structure DevInfo where
  deviceID : ℕ
  size : ℕ
  transactionID : ℕ
  initialized : Bool
  deleted : Bool
  deriving DecidableEq

structure Transaction (κ : Type) where
  openTransactionID : ℕ
  deviceIDHash : Hash κ
  deviceID : ℕ
  deriving DecidableEq

variable {κ : Type}

/-- What there is after a crash: the files and the pool. -/
structure Disk (κ : Type) where
  /-- The metadata files of the devices. -/
  files : Map (Hash κ) DevInfo
  transaction : Option (Transaction κ)
  /-- What is read from the file `deviceset-metadata`. -/
  nextDeviceID : ℕ
  pool : ℕ → Bool
  poolTransactionID : ℕ

/-- The transaction that `loadTransactionMetaData` finds. -/
def Disk.loadTransaction (disk : Disk κ) : Transaction κ :=
  disk.transaction.getD { openTransactionID := disk.poolTransactionID, deviceIDHash := .base, deviceID := 0 }

end DeviceSet

open DeviceSet

structure DeviceSet (κ : Type) where
  devices : Map (Hash κ) DevInfo
  transactionID : ℕ
  nextDeviceID : ℕ
  deviceIDMap : Bitmap
  transaction : Transaction κ

namespace DeviceSet

variable {κ : Type}

/-! ## The IDs of devices -/

def incNextDeviceID (next : ℕ) : ℕ := (next + 1) &&& maxDeviceID

/-- The loop of `getNextFreeDeviceID`: whether it has found a free ID, and the
`NextDeviceID` it ends with. -/
def scan (deviceIDMap : Bitmap) : ℕ → ℕ → Bool × ℕ
  | 0, next => (false, next)
  | i + 1, next => if deviceIDMap.test next then scan deviceIDMap i (incNextDeviceID next) else (true, next)

/-- The ID that is found is the `nextDeviceID`. -/
def getNextFreeDeviceID (set : DeviceSet κ) : Bool × DeviceSet κ :=
  let r := scan set.deviceIDMap (maxDeviceID + 1) (incNextDeviceID set.nextDeviceID)
  if r.1 then (true, { set with nextDeviceID := r.2, deviceIDMap := set.deviceIDMap.mark r.2 })
  else (false, { set with nextDeviceID := r.2 })

instance : LeftCommutative fun (info : DevInfo) (m : Bitmap) => m.mark info.deviceID where
  left_comm _ _ _ := Bitmap.mark_comm _ _ _

/-- The order of the entries does not matter. -/
def constructDeviceIDMap (devices : Map (Hash κ) DevInfo) : Bitmap :=
  devices.values.foldr (fun info m => m.mark info.deviceID) Bitmap.zero

/-! ## The operations -/

/-- A device that is to be created: the base image, or a snapshot. -/
structure New (κ : Type) where
  base : Bool
  hash : Hash κ
  size : ℕ
  deviceID : ℕ
  deriving DecidableEq

/-- What an operation does next. -/
inductive Point (κ : Type)
  /-- The daemon is not running. -/
  | down
  /-- The start deletes the device of the transaction, its metadata file, and the
  transaction file. -/
  | rollbackDevice
  | rollbackMetadata
  | rollbackTransaction
  | idle
  /-- `createRegisterDevice` and `createRegisterSnapDevice`: they save the transaction,
  create the device, save the transaction with another ID, save the metadata, and close
  the transaction. -/
  | openCreate (n : New κ)
  | create (n : New κ)
  | refresh (n : New κ)
  | register (n : New κ)
  | closeCreate (n : New κ)
  /-- They have failed, and remove the metadata file and the device. -/
  | unregister (n : New κ)
  | discard (n : New κ)
  /-- `createBaseImage` saves the metadata of the initialized device. -/
  | format
  /-- `deleteDevice`: it deactivates the device, saves the transaction, deletes the
  device, removes the metadata file, or marks it as deleted, and closes the
  transaction. -/
  | deactivate (hash : Hash κ) (info : DevInfo) (syncDelete : Bool)
  | openDelete (hash : Hash κ) (info : DevInfo) (syncDelete : Bool)
  | delete (hash : Hash κ) (info : DevInfo) (syncDelete : Bool)
  | remove (hash : Hash κ) (info : DevInfo)
  | defer (hash : Hash κ) (info : DevInfo)
  | closeDelete
  deriving DecidableEq

/-- The start is over. -/
def Point.up : Point κ → Bool
  | .down => false
  | .rollbackDevice => false
  | .rollbackMetadata => false
  | .rollbackTransaction => false
  | _ => true

/-- A metadata file is being removed. -/
def Point.removes : Point κ → Bool
  | .unregister _ => true
  | .remove _ _ => true
  | _ => false

inductive Answer
  | ok
  | busy
  | error
  deriving DecidableEq

inductive Event (κ : Type)
  /-- `AddDevice`, with the size of the options (0 if they have none), and whether there
  is enough space. -/
  | add (hash baseHash : Hash κ) (size : ℕ) (free : Bool)
  /-- `createBaseImage`, with the size of its file system. -/
  | createBase (size : ℕ)
  | deleteDevice (hash : Hash κ) (syncDelete : Bool)
  /-- `saveDeviceSetMetaData`. -/
  | save
  /-- What the operation that is under way has asked for is done, or has failed. -/
  | answer (r : Answer)
  | crash
  /-- A start of the daemon, with or without the deferred deletion. -/
  | start (deferredDelete : Bool)
  deriving DecidableEq

structure System (κ : Type) where
  disk : Disk κ
  deferredDelete : Bool
  set : DeviceSet κ
  point : Point κ

namespace System

variable [DecidableEq κ]

/-- The daemon has not been started yet. -/
def new (pool : ℕ → Bool) (poolTransactionID : ℕ) : System κ where
  disk :=
    { files := ∅, transaction := none, nextDeviceID := 0, pool := pool, poolTransactionID := poolTransactionID }
  deferredDelete := false
  set :=
    { devices := ∅, transactionID := 0, nextDeviceID := 0, deviceIDMap := Bitmap.zero,
      transaction := { openTransactionID := 0, deviceIDHash := .base, deviceID := 0 } }
  point := .down

/-! ### Small changes -/

def goto (s : System κ) (p : Point κ) : System κ := { s with point := p }

def setDevices (s : System κ) (devices : Map (Hash κ) DevInfo) : System κ := { s with set.devices := devices }

def setFiles (s : System κ) (files : Map (Hash κ) DevInfo) : System κ := { s with disk.files := files }

/-- A device of the pool comes or goes. -/
def setPool (s : System κ) (id : ℕ) (b : Bool) : System κ := { s with disk.pool := Function.update s.disk.pool id b }

def markFree (s : System κ) (id : ℕ) : System κ := { s with set.deviceIDMap := s.set.deviceIDMap.clear id }

/-- The transaction as it will be saved. -/
def setTransaction (s : System κ) (hash : Hash κ) (id : ℕ) : System κ :=
  { s with set.transaction :=
      { openTransactionID := s.set.transactionID + 1, deviceIDHash := hash, deviceID := id } }

def saveTransaction (s : System κ) : System κ := { s with disk.transaction := some s.set.transaction }

/-- `updatePoolTransactionID`, where the pool does it. -/
def closeTransaction (s : System κ) : System κ :=
  { s with
    disk.poolTransactionID := s.set.transaction.openTransactionID
    set.transactionID := s.set.transaction.openTransactionID }

/-- An ID that is too large is not accepted. -/
def loadMetadata (s : System κ) (hash : Hash κ) : Option DevInfo :=
  (s.disk.files.lookup hash).filter fun info => info.deviceID ≤ maxDeviceID

/-- `lookupDevice` reads the file of a device that it does not know. -/
def lookupDevice (s : System κ) (hash : Hash κ) : System κ :=
  match s.set.devices.lookup hash, s.loadMetadata hash with
  | none, some info => s.setDevices (s.set.devices.insert hash info)
  | _, _ => s

/-! ### Steps -/

/-- The beginning of `createRegisterDevice` and `createRegisterSnapDevice`. -/
def beginCreate (s : System κ) (base : Bool) (hash : Hash κ) (size : ℕ) : System κ :=
  let r := s.set.getNextFreeDeviceID
  let s := { s with set := r.2 }
  if r.1 then
    (s.setTransaction hash r.2.nextDeviceID).goto
      (.openCreate { base := base, hash := hash, size := size, deviceID := r.2.nextDeviceID })
  else s

def addDevice (s : System κ) (hash baseHash : Hash κ) (size : ℕ) (free : Bool) : System κ :=
  let s := s.lookupDevice baseHash
  match s.set.devices.lookup baseHash with
  | none => s
  | some baseInfo =>
    if baseInfo.deleted then s
    else
      let s := s.lookupDevice hash
      if (s.set.devices.lookup hash).isSome then s
      else
        let size := if size = 0 then baseInfo.size else size
        if size < baseInfo.size ∨ free = false then s else s.beginCreate false hash size

/-- `setupBaseImage` has deleted the base image if it was there. -/
def createBase (s : System κ) (size : ℕ) : System κ :=
  let s := s.lookupDevice .base
  if (s.set.devices.lookup .base).isSome then s else s.beginCreate true .base size

def beginDelete (s : System κ) (hash : Hash κ) (syncDelete : Bool) : System κ :=
  let s := s.lookupDevice hash
  match s.set.devices.lookup hash with
  | none => s
  | some info => s.goto (.deactivate hash info syncDelete)

/-- What `registerDevice` stores. -/
def newInfo (s : System κ) (n : New κ) : DevInfo :=
  { deviceID := n.deviceID, size := n.size, transactionID := s.set.transaction.openTransactionID,
    initialized := false, deleted := false }

/-- The pool has been asked to create a device. If it has one with this ID, the next free
ID is tried. -/
def createDevice (s : System κ) (n : New κ) (r : Answer) : System κ :=
  if s.disk.pool n.deviceID then
    let f := s.set.getNextFreeDeviceID
    let s := { s with set := f.2 }
    if f.1 then
      { s with set.transaction.deviceID := f.2.nextDeviceID }.goto (.refresh { n with deviceID := f.2.nextDeviceID })
    else s.goto .idle
  else if r = .ok then
    ((s.setPool n.deviceID true).setDevices (s.set.devices.insert n.hash (s.newInfo n))).goto (.register n)
  else (s.markFree n.deviceID).goto .idle

/-- The pool has been asked to delete a device. -/
def deletePool (s : System κ) (hash : Hash κ) (info : DevInfo) (syncDelete : Bool) (r : Answer) : System κ :=
  if s.disk.pool info.deviceID then
    match r with
    | .ok => ((s.setPool info.deviceID false).setDevices (s.set.devices.erase hash)).goto (.remove hash info)
    | .busy =>
      if syncDelete ∨ s.deferredDelete = false ∨ info.deleted then s.goto .closeDelete
      else (s.setDevices (s.set.devices.insert hash { info with deleted := true })).goto (.defer hash info)
    | .error => s.goto .closeDelete
  else s.goto .closeDelete

/-- The pool changes its transaction ID if it is the one that it is told. -/
def closes (s : System κ) (r : Answer) : Bool := r = .ok ∧ s.disk.poolTransactionID = s.set.transactionID

def answer (s : System κ) (r : Answer) : Option (System κ) :=
  match s.point with
  | .down => none
  | .idle => none
  | .rollbackDevice =>
    some ((if r = .ok then s.setPool s.set.transaction.deviceID false else s).goto .rollbackMetadata)
  | .rollbackMetadata =>
    some ((if r = .ok then
      (s.setFiles (s.disk.files.erase s.set.transaction.deviceIDHash)).markFree s.set.transaction.deviceID
      else s).goto .rollbackTransaction)
  | .rollbackTransaction =>
    let s := if r = .ok then { s with disk.transaction := none } else s
    some ({ s with set.transaction.openTransactionID := s.set.transactionID }.goto .idle)
  | .openCreate n =>
    some (if r = .ok then s.saveTransaction.goto (.create n) else (s.markFree n.deviceID).goto .idle)
  | .create n => some (s.createDevice n r)
  | .refresh n => some ((if r = .ok then s.saveTransaction else s).goto (.create n))
  | .register n =>
    some (if r = .ok then (s.setFiles (s.disk.files.insert n.hash (s.newInfo n))).goto (.closeCreate n)
      else (s.setDevices (s.set.devices.erase n.hash)).goto (.discard n))
  | .closeCreate n =>
    some (if s.closes r then s.closeTransaction.goto (if n.base then .format else .idle)
      else (s.setDevices (s.set.devices.erase n.hash)).goto (.unregister n))
  | .unregister n =>
    some ((if r = .ok then s.setFiles (s.disk.files.erase n.hash) else s).goto (.discard n))
  | .discard n =>
    some (((if r = .ok then s.setPool n.deviceID false else s).markFree n.deviceID).goto .idle)
  | .format =>
    match r, s.set.devices.lookup .base with
    | .ok, some info =>
      let info := { info with initialized := true }
      some (((s.setFiles (s.disk.files.insert .base info)).setDevices (s.set.devices.insert .base info)).goto .idle)
    | _, _ => some (s.goto .idle)
  | .deactivate hash info syncDelete =>
    some (if r = .ok then (s.setTransaction hash info.deviceID).goto (.openDelete hash info syncDelete) else s.goto .idle)
  | .openDelete hash info syncDelete =>
    some (if r = .ok then s.saveTransaction.goto (.delete hash info syncDelete) else s.goto .idle)
  | .delete hash info syncDelete => some (s.deletePool hash info syncDelete r)
  | .remove hash info =>
    some ((if r = .ok then (s.setFiles (s.disk.files.erase hash)).markFree info.deviceID else s).goto .closeDelete)
  | .defer hash info =>
    some ((if r = .ok then s.setFiles (s.disk.files.insert hash { info with deleted := true })
      else s.setDevices (s.set.devices.insert hash info)).goto .closeDelete)
  | .closeDelete => some ((if s.closes r then s.closeTransaction else s).goto .idle)

/-- `initMetaData` and `loadDeviceSetMetaData`. A file with an ID that is too large makes
the start fail. -/
def start (s : System κ) (deferredDelete : Bool) : Option (System κ) :=
  if s.point = .down ∧ ∀ info ∈ s.disk.files.values, info.deviceID ≤ maxDeviceID then
    some
      { disk := s.disk
        deferredDelete := deferredDelete
        set :=
          { devices := s.disk.files
            transactionID := s.disk.poolTransactionID
            nextDeviceID := s.disk.nextDeviceID
            deviceIDMap := constructDeviceIDMap s.disk.files
            transaction := s.disk.loadTransaction }
        point := if s.disk.loadTransaction.openTransactionID ≤ s.disk.poolTransactionID then .idle else .rollbackDevice }
  else none

def exec (s : System κ) : Event κ → Option (System κ)
  | .add hash baseHash size free => if s.point = .idle then some (s.addDevice hash baseHash size free) else none
  | .createBase size => if s.point = .idle then some (s.createBase size) else none
  | .deleteDevice hash syncDelete => if s.point = .idle then some (s.beginDelete hash syncDelete) else none
  | .save => if s.point = .idle then some { s with disk.nextDeviceID := s.set.nextDeviceID } else none
  | .answer r => s.answer r
  | .crash => some { s with point := .down }
  | .start deferredDelete => s.start deferredDelete

end System

/-! ## Entries that agree with the pool and the files -/

section

variable [DecidableEq κ]

/-- The entries have different IDs, which are marked, and those that are not deleted have
their devices. -/
structure Consistent (devices : Map (Hash κ) DevInfo) (m : Bitmap) (pool : ℕ → Bool) : Prop where
  injective : ∀ h h' i i', devices.lookup h = some i → devices.lookup h' = some i' → i.deviceID = i'.deviceID → h = h'
  used : ∀ h i, devices.lookup h = some i → m.test i.deviceID = true
  present : ∀ h i, devices.lookup h = some i → i.deleted = false → pool i.deviceID = true

/-- No entry has this ID. -/
def Free (devices : Map (Hash κ) DevInfo) (id : ℕ) : Prop := ∀ h i, devices.lookup h = some i → i.deviceID ≠ id

/-- What is in the files is in the entries, but for one file that may have been left
behind. -/
structure Agree (devices : Map (Hash κ) DevInfo) (m : Bitmap) (pool : ℕ → Bool) (files : Map (Hash κ) DevInfo)
    (left : Option (Hash κ)) : Prop extends Consistent devices m pool where
  entry : ∀ h i, files.lookup h = some i → left ≠ some h → ∃ j, devices.lookup h = some j ∧ j.deviceID = i.deviceID
  device : ∀ h i, files.lookup h = some i → left ≠ some h → i.deleted = false → pool i.deviceID = true

variable {devices files : Map (Hash κ) DevInfo} {m : Bitmap} {pool : ℕ → Bool} {left : Option (Hash κ)} {h : Hash κ}
  {i : DevInfo} {id : ℕ}

/-- An entry is taken away. -/
theorem Consistent.free_erase (hc : Consistent devices m pool) (hi : devices.lookup h = some i) :
    Free (devices.erase h) i.deviceID := by
  intro h' i' hi' hid
  rw [Finmap.lookup_erase'] at hi'
  split at hi'
  · cases hi'
  · rename_i hne
    exact hne (hc.injective h' h i' i hi' hi hid)

theorem Consistent.erase (hc : Consistent devices m pool) (h : Hash κ) : Consistent (devices.erase h) m pool := by
  have hsub : ∀ h' i, (devices.erase h).lookup h' = some i → devices.lookup h' = some i := by
    intro h' i hi
    rw [Finmap.lookup_erase'] at hi
    split at hi
    · cases hi
    · exact hi
  exact
    { injective := fun h₁ h₂ i₁ i₂ hi₁ hi₂ => hc.injective h₁ h₂ i₁ i₂ (hsub _ _ hi₁) (hsub _ _ hi₂)
      used := fun h' i hi => hc.used h' i (hsub _ _ hi)
      present := fun h' i hi => hc.present h' i (hsub _ _ hi) }

/-- An entry with an ID of its own comes, or takes the place of another. -/
theorem Consistent.insert (hc : Consistent devices m pool)
    (hid : ∀ h' i', devices.lookup h' = some i' → i'.deviceID = i.deviceID → h' = h)
    (hused : m.test i.deviceID = true) (hpool : i.deleted = false → pool i.deviceID = true) :
    Consistent (devices.insert h i) m pool where
  injective h₁ h₂ i₁ i₂ hi₁ hi₂ he := by
    rw [Finmap.lookup_insert'] at hi₁ hi₂
    split at hi₁ <;> split at hi₂
    · simp_all
    · cases hi₁
      rename_i h₁h _
      exact h₁h.trans (hid h₂ i₂ hi₂ he.symm).symm
    · cases hi₂
      rename_i _ h₂h
      exact (hid h₁ i₁ hi₁ he).trans h₂h.symm
    · exact hc.injective h₁ h₂ i₁ i₂ hi₁ hi₂ he
  used h' i' hi' := by
    rw [Finmap.lookup_insert'] at hi'
    split at hi'
    · cases hi'
      exact hused
    · exact hc.used h' i' hi'
  present h' i' hi' := by
    rw [Finmap.lookup_insert'] at hi'
    split at hi'
    · cases hi'
      exact hpool
    · exact hc.present h' i' hi'

namespace Agree

theorem mark (ha : Agree devices m pool files left) (id : ℕ) : Agree devices (m.mark id) pool files left :=
  { ha with used := fun h i hi => by simp [ha.used h i hi] }

theorem clear (ha : Agree devices m pool files left) (hf : Free devices id) : Agree devices (m.clear id) pool files left :=
  { ha with used := fun h i hi => by simp [ha.used h i hi, hf h i hi] }

/-- The pool gets a device. -/
theorem create (ha : Agree devices m pool files left) (id : ℕ) :
    Agree devices m (Function.update pool id true) files left where
  toConsistent :=
    { ha.toConsistent with
      present := fun h i hi hd => by
        by_cases hid : i.deviceID = id
        · rw [hid, Function.update_self]
        · rw [Function.update_of_ne hid, ha.present h i hi hd] }
  entry := ha.entry
  device h i hi hl hd := by
    by_cases hid : i.deviceID = id
    · rw [hid, Function.update_self]
    · rw [Function.update_of_ne hid, ha.device h i hi hl hd]

/-- The pool loses a device that is nobody's. -/
theorem delete (ha : Agree devices m pool files left) (hf : Free devices id) :
    Agree devices m (Function.update pool id false) files left where
  toConsistent :=
    { ha.toConsistent with
      present := fun h i hi hd => by rw [Function.update_of_ne (hf h i hi), ha.present h i hi hd] }
  entry := ha.entry
  device h i hi hl hd := by
    obtain ⟨j, hj, hid⟩ := ha.entry h i hi hl
    have hne : i.deviceID ≠ id := hid ▸ hf h j hj
    rw [Function.update_of_ne hne, ha.device h i hi hl hd]

/-- An entry is taken away and its file is left behind. -/
theorem erase (ha : Agree devices m pool files none) (h : Hash κ) : Agree (devices.erase h) m pool files (some h) where
  toConsistent := ha.toConsistent.erase h
  entry h' i hi hl := by
    have hne : h' ≠ h := fun he => hl (by rw [he])
    rw [Finmap.lookup_erase', if_neg hne]
    exact ha.entry h' i hi (by simp)
  device h' i hi _ := ha.device h' i hi (by simp)

/-- A file is removed. -/
theorem eraseFile (ha : Agree devices m pool files left) (hl : left = none ∨ left = some h) :
    Agree devices m pool (files.erase h) none where
  toConsistent := ha.toConsistent
  entry h' i hi _ := by
    rw [Finmap.lookup_erase'] at hi
    split at hi
    · cases hi
    · rename_i hne
      refine ha.entry h' i hi fun he => ?_
      rcases hl with hl | hl <;> rw [hl] at he <;> cases he
      exact hne rfl
  device h' i hi _ := by
    rw [Finmap.lookup_erase'] at hi
    split at hi
    · cases hi
    · rename_i hne
      refine ha.device h' i hi fun he => ?_
      rcases hl with hl | hl <;> rw [hl] at he <;> cases he
      exact hne rfl

/-- A file that is not there has not been left behind. -/
theorem of_left (ha : Agree devices m pool files (some h)) (hn : files.lookup h = none) :
    Agree devices m pool files none where
  toConsistent := ha.toConsistent
  entry h' i hi _ := ha.entry h' i hi fun he => by
    cases he
    rw [hn] at hi
    cases hi
  device h' i hi _ := ha.device h' i hi fun he => by
    cases he
    rw [hn] at hi
    cases hi

/-- The file of an entry is written. -/
theorem insertFile (ha : Agree devices m pool files none) {j : DevInfo} (hj : devices.lookup h = some j)
    (hid : j.deviceID = i.deviceID) (hpool : i.deleted = false → pool i.deviceID = true) :
    Agree devices m pool (files.insert h i) none where
  toConsistent := ha.toConsistent
  entry h' i' hi' hl := by
    rw [Finmap.lookup_insert'] at hi'
    split at hi'
    · rename_i he
      cases hi'
      exact ⟨j, by rw [he, hj], hid⟩
    · exact ha.entry h' i' hi' hl
  device h' i' hi' hl := by
    rw [Finmap.lookup_insert'] at hi'
    split at hi'
    · cases hi'
      exact hpool
    · exact ha.device h' i' hi' hl

/-- An entry comes, or one with the same ID takes its place. -/
theorem insert (ha : Agree devices m pool files none)
    (hid : ∀ h' i', devices.lookup h' = some i' → i'.deviceID = i.deviceID → h' = h)
    (hfile : ∀ i', files.lookup h = some i' → i.deviceID = i'.deviceID)
    (hused : m.test i.deviceID = true) (hpool : i.deleted = false → pool i.deviceID = true) :
    Agree (devices.insert h i) m pool files none where
  toConsistent := ha.toConsistent.insert hid hused hpool
  entry h' i' hi' hl := by
    rw [Finmap.lookup_insert']
    split
    · rename_i he
      rw [he] at hi'
      exact ⟨i, rfl, hfile i' hi'⟩
    · exact ha.entry h' i' hi' hl
  device := ha.device

end Agree

/-! ## IDs that are found -/

omit [DecidableEq κ] in
theorem test_scan (m : Bitmap) (n next : ℕ) (h : (scan m n next).1 = true) : m.test (scan m n next).2 = false := by
  induction n generalizing next with
  | zero => cases h
  | succ n ih =>
    rw [scan] at h ⊢
    split at h
    · rename_i hused
      rw [if_pos hused]
      exact ih _ h
    · rename_i hfree
      rw [if_neg hfree]
      exact Bool.eq_false_iff.mpr hfree

omit [DecidableEq κ] in
/-- An ID that was not marked, and is now. -/
theorem getNextFreeDeviceID_true (set : DeviceSet κ) (h : set.getNextFreeDeviceID.1 = true) :
    ∃ id, set.deviceIDMap.test id = false ∧
      set.getNextFreeDeviceID.2 = { set with nextDeviceID := id, deviceIDMap := set.deviceIDMap.mark id } := by
  simp only [getNextFreeDeviceID] at h ⊢
  split at h
  · rename_i hr
    rw [if_pos hr]
    exact ⟨_, test_scan _ _ _ hr, rfl⟩
  · cases h

omit [DecidableEq κ] in
theorem getNextFreeDeviceID_false (set : DeviceSet κ) (h : ¬ set.getNextFreeDeviceID.1 = true) :
    ∃ id, set.getNextFreeDeviceID.2 = { set with nextDeviceID := id } := by
  simp only [getNextFreeDeviceID] at h ⊢
  split at h
  · exact absurd rfl h
  · rename_i hr
    rw [if_neg hr]
    exact ⟨_, rfl⟩

/-- Every entry is marked. -/
theorem test_constructDeviceIDMap (hi : devices.lookup h = some i) :
    (constructDeviceIDMap devices).test i.deviceID = true := by
  have hmem : i ∈ devices.values := Finmap.mem_values.mpr ⟨h, hi⟩
  rw [constructDeviceIDMap]
  generalize devices.values = infos at hmem
  induction infos using Multiset.induction with
  | empty => simp at hmem
  | cons i' infos ih =>
    rw [Multiset.foldr_cons, Bitmap.test_mark, Bool.or_eq_true, decide_eq_true_eq]
    rcases Multiset.mem_cons.mp hmem with rfl | hmem
    · exact .inl rfl
    · exact .inr (ih hmem)

theorem Consistent.free_of_test (hc : Consistent devices m pool) (hid : m.test id = false) : Free devices id := by
  rintro h i hi rfl
  rw [hc.used h i hi] at hid
  cases hid

/-! ## The invariant -/

/-- The device of the transaction that is not closed. -/
def Disk.Pending (disk : Disk κ) (id : ℕ) : Prop :=
  ∃ t, disk.transaction = some t ∧ disk.poolTransactionID < t.openTransactionID ∧ t.deviceID = id

/-- The files have different IDs, and the devices of those that are not deleted are in
the pool, or have just been deleted. -/
structure Disk.Inv (disk : Disk κ) : Prop where
  injective : ∀ h h' i i', disk.files.lookup h = some i → disk.files.lookup h' = some i' →
    i.deviceID = i'.deviceID → h = h'
  device : ∀ h i, disk.files.lookup h = some i → i.deleted = false → disk.pool i.deviceID = true ∨ disk.Pending i.deviceID

namespace System

/-- The entries are good when the start is over. -/
def Ok (s : System κ) : Prop := s.point.up = true → Consistent s.set.devices s.set.deviceIDMap s.disk.pool

/-- No file has the ID of a transaction that the start rolls back, and a metadata file
that is to be removed is removed. -/
def Clear (s : System κ) : Event κ → Prop
  | .start _ => s.disk.poolTransactionID < s.disk.loadTransaction.openTransactionID →
      ∀ info ∈ s.disk.files.values, info.deviceID ≠ s.disk.loadTransaction.deviceID
  | .answer r => s.point.removes = true → r = .ok
  | _ => True

instance (s : System κ) (e : Event κ) : Decidable (s.Clear e) :=
  match e with
  | .start _ => inferInstanceAs (Decidable (s.disk.poolTransactionID < s.disk.loadTransaction.openTransactionID →
      ∀ info ∈ s.disk.files.values, info.deviceID ≠ s.disk.loadTransaction.deviceID))
  | .answer r => inferInstanceAs (Decidable (s.point.removes = true → r = .ok))
  | .add _ _ _ _ => .isTrue trivial
  | .createBase _ => .isTrue trivial
  | .deleteDevice _ _ => .isTrue trivial
  | .save => .isTrue trivial
  | .crash => .isTrue trivial

/-- Files and entries agree, and the daemon knows the transaction ID of the pool. -/
structure Up (s : System κ) (left : Option (Hash κ)) : Prop where
  agree : Agree s.set.devices s.set.deviceIDMap s.disk.pool s.disk.files left
  transaction : s.set.transactionID = s.disk.poolTransactionID

/-- The ID of a device to be created is marked and nobody else's. -/
structure Fresh (s : System κ) (n : New κ) : Prop where
  used : s.set.deviceIDMap.test n.deviceID = true
  free : Free s.set.devices n.deviceID
  new : s.set.devices.lookup n.hash = none

/-- The file that has been left behind has an ID that no entry has. -/
structure Left (s : System κ) (h : Hash κ) (id : ℕ) : Prop where
  free : Free s.set.devices id
  file : ∀ i, s.disk.files.lookup h = some i → i.deviceID = id

def Inv (s : System κ) : Prop :=
  match s.point with
  | .down => s.disk.Inv
  | .rollbackDevice | .rollbackMetadata | .rollbackTransaction =>
    s.Up none ∧ Free s.set.devices s.set.transaction.deviceID
  | .idle | .format | .closeDelete => s.Up none
  | .openCreate n | .create n | .refresh n => s.Up none ∧ s.Fresh n
  | .register n =>
    s.Up none ∧ s.set.devices.lookup n.hash = some (s.newInfo n) ∧ s.disk.files.lookup n.hash = none
  | .closeCreate n => s.Up none ∧ ∃ i, s.set.devices.lookup n.hash = some i ∧ i.deviceID = n.deviceID ∧ i.deleted = false
  | .unregister n => s.Up (some n.hash) ∧ s.Left n.hash n.deviceID ∧ s.disk.pool n.deviceID = true
  | .discard n => s.Up none ∧ Free s.set.devices n.deviceID
  | .deactivate h info _ => s.Up none ∧ s.set.devices.lookup h = some info
  | .openDelete h info _ => s.Up none ∧ s.set.devices.lookup h = some info ∧
    s.set.transaction.deviceID = info.deviceID ∧ s.set.transactionID < s.set.transaction.openTransactionID
  | .delete h info _ => s.Up none ∧ s.set.devices.lookup h = some info ∧ s.disk.Pending info.deviceID
  | .remove h info => s.Up (some h) ∧ s.Left h info.deviceID ∧ s.disk.Pending info.deviceID
  | .defer h info => s.Up none ∧ s.set.devices.lookup h = some { info with deleted := true } ∧
    s.disk.pool info.deviceID = true

variable {s s' : System κ} {n : New κ} {info : DevInfo} {r : Answer}

/-- What a crash leaves. -/
theorem Up.disk (hu : s.Up left)
    (hleft : ∀ h, left = some h → ∃ id, s.Left h id ∧ (s.disk.pool id = true ∨ s.disk.Pending id)) : s.disk.Inv where
  injective h₁ h₂ i₁ i₂ hi₁ hi₂ he := by
    have hentry : ∀ h i, s.disk.files.lookup h = some i →
        left = some h ∨ ∃ j, s.set.devices.lookup h = some j ∧ j.deviceID = i.deviceID :=
      fun h i hi => or_iff_not_imp_left.mpr (hu.agree.entry h i hi)
    rcases hentry h₁ i₁ hi₁ with hl₁ | ⟨j₁, hj₁, hid₁⟩ <;> rcases hentry h₂ i₂ hi₂ with hl₂ | ⟨j₂, hj₂, hid₂⟩
    · exact Option.some.inj (hl₁.symm.trans hl₂)
    · obtain ⟨id, hl, -⟩ := hleft h₁ hl₁
      exact absurd (hid₂.trans (he.symm.trans (hl.file i₁ hi₁))) (hl.free h₂ j₂ hj₂)
    · obtain ⟨id, hl, -⟩ := hleft h₂ hl₂
      exact absurd (hid₁.trans (he.trans (hl.file i₂ hi₂))) (hl.free h₁ j₁ hj₁)
    · exact hu.agree.injective h₁ h₂ j₁ j₂ hj₁ hj₂ (hid₁.trans (he.trans hid₂.symm))
  device h i hi hd := by
    by_cases hl : left = some h
    · obtain ⟨id, hleft, hdev⟩ := hleft h hl
      rw [hleft.file i hi]
      exact hdev
    · exact .inl (hu.agree.device h i hi hl hd)

/-- A file is left behind only where its device is still there, or the transaction is
open. -/
theorem Inv.up (hs : s.Inv) (hp : s.point ≠ .down) : ∃ left, s.Up left ∧
    ∀ h, left = some h → ∃ id, s.Left h id ∧ (s.disk.pool id = true ∨ s.disk.Pending id) := by
  unfold Inv at hs
  split at hs
  · rename_i hdown
    exact absurd hdown hp
  all_goals first
    | exact ⟨none, hs, by simp⟩
    | exact ⟨none, hs.1, by simp⟩
    | exact ⟨_, hs.1, fun h hh => Option.some.inj hh ▸ ⟨_, hs.2.1, .inl hs.2.2⟩⟩
    | exact ⟨_, hs.1, fun h hh => Option.some.inj hh ▸ ⟨_, hs.2.1, .inr hs.2.2⟩⟩

theorem Inv.disk (hs : s.Inv) : s.disk.Inv := by
  by_cases hp : s.point = .down
  · simpa only [Inv, hp] using hs
  · obtain ⟨left, hu, hleft⟩ := hs.up hp
    exact hu.disk hleft

theorem Inv.ok (hs : s.Inv) : s.Ok := by
  intro hup
  obtain ⟨left, hu, -⟩ := hs.up fun hdown => by simp [hdown, Point.up] at hup
  exact hu.agree.toConsistent

/-! ### The beginning of an operation -/

/-- There is nothing to be read from the files. -/
theorem lookupDevice_eq (hu : s.Up none) (hash : Hash κ) : s.lookupDevice hash = s := by
  unfold lookupDevice
  split
  · rename_i info hnone hload
    obtain ⟨hfile, -⟩ := Option.filter_eq_some_iff.mp hload
    obtain ⟨j, hj, -⟩ := hu.agree.entry hash info hfile (by simp)
    rw [hnone] at hj
    cases hj
  · rfl

theorem inv_beginCreate (hu : s.Up none) (hp : s.point = .idle) {hash : Hash κ}
    (hnew : s.set.devices.lookup hash = none) (base : Bool) (size : ℕ) : (s.beginCreate base hash size).Inv := by
  simp only [beginCreate]
  split
  · rename_i hr
    obtain ⟨id, hid, hset⟩ := getNextFreeDeviceID_true s.set hr
    rw [hset]
    refine ⟨⟨hu.agree.mark id, hu.transaction⟩, ⟨?_, hu.agree.free_of_test hid, hnew⟩⟩
    simp [setTransaction, goto]
  · rename_i hr
    obtain ⟨id, hset⟩ := getNextFreeDeviceID_false s.set hr
    rw [hset]
    simp only [Inv, hp]
    exact ⟨hu.agree, hu.transaction⟩

theorem Up.inv (hu : s.Up none) (hp : s.point = .idle) : s.Inv := by
  simpa only [Inv, hp] using hu

theorem inv_addDevice (hu : s.Up none) (hp : s.point = .idle) (hash baseHash : Hash κ) (size : ℕ) (free : Bool) :
    (s.addDevice hash baseHash size free).Inv := by
  simp only [addDevice, lookupDevice_eq hu]
  split
  · exact hu.inv hp
  · split
    · exact hu.inv hp
    · split
      · exact hu.inv hp
      · rename_i baseInfo _ _ hnew
        generalize (if size = 0 then baseInfo.size else size) = size
        split
        · exact hu.inv hp
        · exact inv_beginCreate hu hp (by simpa using hnew) _ _

theorem inv_createBase (hu : s.Up none) (hp : s.point = .idle) (size : ℕ) : (s.createBase size).Inv := by
  simp only [createBase, lookupDevice_eq hu]
  split
  · exact hu.inv hp
  · rename_i hnew
    exact inv_beginCreate hu hp (by simpa using hnew) _ _

theorem inv_beginDelete (hu : s.Up none) (hp : s.point = .idle) (hash : Hash κ) (syncDelete : Bool) :
    (s.beginDelete hash syncDelete).Inv := by
  simp only [beginDelete, lookupDevice_eq hu]
  split
  · exact hu.inv hp
  · rename_i info hinfo
    exact ⟨⟨hu.agree, hu.transaction⟩, hinfo⟩

/-! ### Creation -/

/-- A file has an entry, so there is none where there is no entry. -/
theorem Up.file_none (hu : s.Up none) {hash : Hash κ} (hnew : s.set.devices.lookup hash = none) :
    s.disk.files.lookup hash = none := by
  by_contra hsome
  obtain ⟨i, hi⟩ := Option.ne_none_iff_exists'.mp hsome
  obtain ⟨j, hj, -⟩ := hu.agree.entry hash i hi (by simp)
  rw [hnew] at hj
  cases hj

theorem inv_createDevice (hu : s.Up none) (hn : s.Fresh n) : (s.createDevice n r).Inv := by
  simp only [createDevice]
  split
  · -- another device has the ID, which stays marked
    split
    · rename_i hr
      obtain ⟨id, hid, hset⟩ := getNextFreeDeviceID_true s.set hr
      rw [hset]
      refine ⟨⟨hu.agree.mark id, hu.transaction⟩, ⟨?_, hu.agree.free_of_test hid, hn.new⟩⟩
      simp [goto]
    · rename_i hr
      obtain ⟨id, hset⟩ := getNextFreeDeviceID_false s.set hr
      rw [hset]
      exact ⟨hu.agree, hu.transaction⟩
  · split
    · have hfile := hu.file_none hn.new
      have hinsert : Agree (s.set.devices.insert n.hash (s.newInfo n)) s.set.deviceIDMap
          (Function.update s.disk.pool n.deviceID true) s.disk.files none := by
        refine (hu.agree.create n.deviceID).insert (fun h i hi hid => absurd hid (hn.free h i hi)) ?_ hn.used ?_
        · intro i hi
          rw [hfile] at hi
          cases hi
        · intro _
          exact Function.update_self _ _ _
      exact ⟨⟨hinsert, hu.transaction⟩, Finmap.lookup_insert _, hfile⟩
    · exact ⟨hu.agree.clear hn.free, hu.transaction⟩

theorem inv_register (hu : s.Up none) (hi : s.set.devices.lookup n.hash = some (s.newInfo n))
    (hfile : s.disk.files.lookup n.hash = none) (r : Answer) :
    (if r = .ok then (s.setFiles (s.disk.files.insert n.hash (s.newInfo n))).goto (.closeCreate n)
      else (s.setDevices (s.set.devices.erase n.hash)).goto (.discard n)).Inv := by
  split
  · exact ⟨⟨hu.agree.insertFile hi rfl (hu.agree.present _ _ hi), hu.transaction⟩, _, hi, rfl, rfl⟩
  · exact ⟨⟨(hu.agree.erase n.hash).of_left hfile, hu.transaction⟩, hu.agree.free_erase hi⟩

theorem inv_closeCreate (hu : s.Up none) {i : DevInfo} (hi : s.set.devices.lookup n.hash = some i)
    (hid : i.deviceID = n.deviceID) (hd : i.deleted = false) (r : Answer) :
    (if s.closes r then s.closeTransaction.goto (if n.base then .format else .idle)
      else (s.setDevices (s.set.devices.erase n.hash)).goto (.unregister n)).Inv := by
  split
  · cases n.base
    · exact ⟨hu.agree, rfl⟩
    · exact ⟨hu.agree, rfl⟩
  · refine ⟨⟨hu.agree.erase n.hash, hu.transaction⟩, ⟨hid ▸ hu.agree.free_erase hi, fun i' hi' => ?_⟩, ?_⟩
    · obtain ⟨j, hj, hij⟩ := hu.agree.entry n.hash i' hi' (by simp)
      rw [hi] at hj
      cases hj
      exact hij.symm.trans hid
    · exact hid ▸ hu.agree.present _ _ hi hd

/-- The entry of a device changes, but for its ID. -/
theorem Up.replace (hu : s.Up none) {h : Hash κ} {i j : DevInfo} (hi : s.set.devices.lookup h = some i)
    (hid : j.deviceID = i.deviceID) (hpool : j.deleted = false → s.disk.pool j.deviceID = true) :
    Agree (s.set.devices.insert h j) s.set.deviceIDMap s.disk.pool s.disk.files none := by
  refine hu.agree.insert (fun h' i' hi' hid' => hu.agree.injective h' h i' i hi' hi (hid'.trans hid)) ?_ ?_ hpool
  · intro i' hi'
    obtain ⟨k, hk, hki⟩ := hu.agree.entry h i' hi' (by simp)
    rw [hi] at hk
    cases hk
    exact hid.trans hki
  · rw [hid]
    exact hu.agree.used h i hi

/-- The base image is initialized. -/
theorem inv_format (hu : s.Up none) (hp : s.point = .format) (he : s.answer r = some s') : s'.Inv := by
  simp only [answer, hp] at he
  split at he
  · rename_i info hinfo
    cases he
    have hpool := hu.agree.present _ _ hinfo
    have hagree : Agree (s.set.devices.insert .base { info with initialized := true }) s.set.deviceIDMap s.disk.pool
        s.disk.files none := hu.replace hinfo rfl hpool
    exact ⟨hagree.insertFile (Finmap.lookup_insert _) rfl hpool, hu.transaction⟩
  · cases he
    exact ⟨hu.agree, hu.transaction⟩

/-! ### Deletion -/

theorem inv_deletePool (hu : s.Up none) {h : Hash κ} (hi : s.set.devices.lookup h = some info)
    (hpending : s.disk.Pending info.deviceID) (syncDelete : Bool) (r : Answer) :
    (s.deletePool h info syncDelete r).Inv := by
  unfold deletePool
  split
  · rename_i hpool
    split
    · have hfree := hu.agree.free_erase hi
      refine ⟨⟨(hu.agree.erase h).delete hfree, hu.transaction⟩, ⟨hfree, fun i' hi' => ?_⟩, hpending⟩
      obtain ⟨j, hj, hij⟩ := hu.agree.entry h i' hi' (by simp)
      rw [hi] at hj
      cases hj
      exact hij.symm
    · split
      · exact ⟨hu.agree, hu.transaction⟩
      · exact ⟨⟨hu.replace hi rfl fun _ => hpool, hu.transaction⟩, Finmap.lookup_insert _, hpool⟩
    · exact ⟨hu.agree, hu.transaction⟩
  · exact ⟨hu.agree, hu.transaction⟩

theorem inv_defer (hu : s.Up none) {h : Hash κ} (hi : s.set.devices.lookup h = some { info with deleted := true })
    (hpool : s.disk.pool info.deviceID = true) (r : Answer) :
    ((if r = .ok then s.setFiles (s.disk.files.insert h { info with deleted := true })
      else s.setDevices (s.set.devices.insert h info)).goto .closeDelete).Inv := by
  split
  · exact ⟨hu.agree.insertFile hi rfl fun _ => hpool, hu.transaction⟩
  · exact ⟨hu.replace hi rfl fun _ => hpool, hu.transaction⟩

/-! ### Every step -/

theorem Inv.answer (hs : s.Inv) (hg : s.Clear (.answer r)) (he : s.answer r = some s') : s'.Inv := by
  unfold Inv at hs
  have hremove : s.point.removes = true → r = .ok := hg
  cases hp : s.point with
  | down => simp [System.answer, hp] at he
  | idle => simp [System.answer, hp] at he
  | rollbackDevice =>
    rw [hp] at hs
    simp only [System.answer, hp, Option.some.injEq] at he
    subst he
    split
    · exact ⟨⟨hs.1.agree.delete hs.2, hs.1.transaction⟩, hs.2⟩
    · exact ⟨⟨hs.1.agree, hs.1.transaction⟩, hs.2⟩
  | rollbackMetadata =>
    rw [hp] at hs
    simp only [System.answer, hp, Option.some.injEq] at he
    subst he
    split
    · exact ⟨⟨(hs.1.agree.eraseFile (.inl rfl)).clear hs.2, hs.1.transaction⟩, hs.2⟩
    · exact ⟨⟨hs.1.agree, hs.1.transaction⟩, hs.2⟩
  | rollbackTransaction =>
    rw [hp] at hs
    simp only [System.answer, hp, Option.some.injEq] at he
    subst he
    split
    · exact ⟨hs.1.agree, hs.1.transaction⟩
    · exact ⟨hs.1.agree, hs.1.transaction⟩
  | openCreate n =>
    rw [hp] at hs
    simp only [System.answer, hp, Option.some.injEq] at he
    subst he
    split
    · exact ⟨⟨hs.1.agree, hs.1.transaction⟩, ⟨hs.2.used, hs.2.free, hs.2.new⟩⟩
    · exact ⟨hs.1.agree.clear hs.2.free, hs.1.transaction⟩
  | create n =>
    rw [hp] at hs
    simp only [System.answer, hp, Option.some.injEq] at he
    subst he
    exact inv_createDevice hs.1 hs.2
  | refresh n =>
    rw [hp] at hs
    simp only [System.answer, hp, Option.some.injEq] at he
    subst he
    split
    · exact ⟨⟨hs.1.agree, hs.1.transaction⟩, ⟨hs.2.used, hs.2.free, hs.2.new⟩⟩
    · exact ⟨⟨hs.1.agree, hs.1.transaction⟩, ⟨hs.2.used, hs.2.free, hs.2.new⟩⟩
  | register n =>
    rw [hp] at hs
    simp only [System.answer, hp, Option.some.injEq] at he
    subst he
    exact inv_register hs.1 hs.2.1 hs.2.2 r
  | closeCreate n =>
    rw [hp] at hs
    simp only [System.answer, hp, Option.some.injEq] at he
    subst he
    obtain ⟨hu, i, hi, hid, hd⟩ := hs
    exact inv_closeCreate hu hi hid hd r
  | unregister n =>
    rw [hp] at hs hremove
    simp only [System.answer, hp, Option.some.injEq] at he
    subst he
    rw [if_pos (hremove rfl)]
    exact ⟨⟨hs.1.agree.eraseFile (.inr rfl), hs.1.transaction⟩, hs.2.1.free⟩
  | discard n =>
    rw [hp] at hs
    simp only [System.answer, hp, Option.some.injEq] at he
    subst he
    split
    · exact ⟨(hs.1.agree.delete hs.2).clear hs.2, hs.1.transaction⟩
    · exact ⟨hs.1.agree.clear hs.2, hs.1.transaction⟩
  | format =>
    rw [hp] at hs
    exact inv_format hs hp he
  | deactivate h info syncDelete =>
    rw [hp] at hs
    simp only [System.answer, hp, Option.some.injEq] at he
    subst he
    split
    · exact ⟨⟨hs.1.agree, hs.1.transaction⟩, hs.2, rfl, Nat.lt_succ_self _⟩
    · exact ⟨hs.1.agree, hs.1.transaction⟩
  | openDelete h info syncDelete =>
    rw [hp] at hs
    simp only [System.answer, hp, Option.some.injEq] at he
    subst he
    obtain ⟨hu, hi, hid, hopen⟩ := hs
    split
    · exact ⟨⟨hu.agree, hu.transaction⟩, hi, _, rfl, hu.transaction ▸ hopen, hid⟩
    · exact ⟨hu.agree, hu.transaction⟩
  | delete h info syncDelete =>
    rw [hp] at hs
    simp only [System.answer, hp, Option.some.injEq] at he
    subst he
    exact inv_deletePool hs.1 hs.2.1 hs.2.2 syncDelete r
  | remove h info =>
    rw [hp] at hs hremove
    simp only [System.answer, hp, Option.some.injEq] at he
    subst he
    rw [if_pos (hremove rfl)]
    exact ⟨(hs.1.agree.eraseFile (.inr rfl)).clear hs.2.1.free, hs.1.transaction⟩
  | defer h info =>
    rw [hp] at hs
    simp only [System.answer, hp, Option.some.injEq] at he
    subst he
    exact inv_defer hs.1 hs.2.1 hs.2.2 r
  | closeDelete =>
    rw [hp] at hs
    simp only [System.answer, hp, Option.some.injEq] at he
    subst he
    split
    · exact ⟨hs.agree, rfl⟩
    · exact ⟨hs.agree, hs.transaction⟩

/-- The entries are those of the files, and the device that the start deletes is none of
theirs. -/
theorem Inv.start {deferredDelete : Bool} (hs : s.Inv) (hg : s.Clear (.start deferredDelete))
    (he : s.start deferredDelete = some s') : s'.Inv := by
  simp only [System.start, Option.ite_none_right_eq_some] at he
  obtain ⟨-, he⟩ := he
  cases he
  have hdisk := hs.disk
  have hnot : ∀ h i, s.disk.files.lookup h = some i → ¬ s.disk.Pending i.deviceID := by
    rintro h i hi ⟨t, ht, hlt, hid⟩
    have hload : s.disk.loadTransaction = t := by rw [Disk.loadTransaction, ht]; rfl
    exact hg (by rwa [hload]) i (Finmap.mem_values.mpr ⟨h, hi⟩) (by rw [hload, hid])
  have hup : ∀ h i, s.disk.files.lookup h = some i → i.deleted = false → s.disk.pool i.deviceID = true :=
    fun h i hi hd => (hdisk.device h i hi hd).resolve_right (hnot h i hi)
  have hagree : Agree s.disk.files (constructDeviceIDMap s.disk.files) s.disk.pool s.disk.files none :=
    { injective := hdisk.injective
      used := fun _ _ => test_constructDeviceIDMap
      present := hup
      entry := fun h i hi _ => ⟨i, hi, rfl⟩
      device := fun h i hi _ => hup h i hi }
  by_cases hopen : s.disk.loadTransaction.openTransactionID ≤ s.disk.poolTransactionID
  · rw [if_pos hopen]
    exact ⟨hagree, rfl⟩
  · rw [if_neg hopen]
    exact ⟨⟨hagree, rfl⟩, fun h i hi => hg (Nat.lt_of_not_le hopen) i (Finmap.mem_values.mpr ⟨h, hi⟩)⟩

theorem Inv.exec {e : Event κ} (hs : s.Inv) (hg : s.Clear e) (he : s.exec e = some s') : s'.Inv := by
  have hidle : s.point = .idle → s.Up none := fun hp => by simpa only [Inv, hp] using hs
  cases e with
  | add hash baseHash size free =>
    simp only [System.exec, Option.ite_none_right_eq_some] at he
    cases he.2
    exact inv_addDevice (hidle he.1) he.1 hash baseHash size free
  | createBase size =>
    simp only [System.exec, Option.ite_none_right_eq_some] at he
    cases he.2
    exact inv_createBase (hidle he.1) he.1 size
  | deleteDevice hash syncDelete =>
    simp only [System.exec, Option.ite_none_right_eq_some] at he
    cases he.2
    exact inv_beginDelete (hidle he.1) he.1 hash syncDelete
  | save =>
    simp only [System.exec, Option.ite_none_right_eq_some] at he
    cases he.2
    have hu := hidle he.1
    simp only [Inv, he.1]
    exact ⟨hu.agree, hu.transaction⟩
  | answer r => exact hs.answer hg he
  | crash =>
    cases he
    exact hs.disk
  | start deferredDelete => exact hs.start hg he

theorem inv_new (pool : ℕ → Bool) (id : ℕ) : (new pool id : System κ).Inv :=
  { injective := by simp [new]
    device := by simp [new] }

/-- A start that is not clear deletes the device of an entry and frees its ID. -/
theorem not_ok_of_start {deferredDelete : Bool} (he : s.exec (.start deferredDelete) = some s')
    (hg : ¬ s.Clear (.start deferredDelete)) : ∃ s'', Reaches exec s' s'' ∧ ¬ s''.Ok := by
  simp only [Clear, Classical.not_imp, not_forall, not_not] at hg
  obtain ⟨hopen, info, hinfo, hid⟩ := hg
  obtain ⟨hash, hlookup⟩ := Finmap.mem_values.mp hinfo
  simp only [System.exec, System.start, Option.ite_none_right_eq_some] at he
  obtain ⟨-, he⟩ := he
  rw [if_neg (Nat.not_le_of_lt hopen)] at he
  cases he
  refine ⟨_, ReachesIf.of_execAll (l := [.answer .ok, .answer .ok, .answer .ok]) rfl, fun hok => ?_⟩
  have hused := (hok rfl).used hash info hlookup
  simp [goto, markFree, setFiles, setPool, hid] at hused

/-- In every run whose starts find no file with the ID of the transaction that they roll
back, and whose removals of metadata files do not fail, the entries are good. A start that
finds such a file leads to a bad entry. -/
theorem devices_ok (pool : ℕ → Bool) (id : ℕ) (h : ReachesIf exec Clear (new pool id) s) :
    s.Ok ∧ ∀ deferredDelete s', s.exec (.start deferredDelete) = some s' → ¬ s.Clear (.start deferredDelete) →
      ∃ s'', Reaches exec s' s'' ∧ ¬ s''.Ok :=
  ⟨(h.inv (inv_new pool id) fun _ _ _ _ hs hg he => hs.exec hg he).ok, fun _ _ he hg => not_ok_of_start he hg⟩

/-- A crash before the metadata of a device are saved: the start deletes the device, and
its ID is used again. -/
theorem devices_ok_crash : ∃ s : System String, ReachesIf exec Clear (new (fun _ => false) 0) s ∧
    (s.point = .idle ∧ ((s.set.devices.lookup (.layer "a")).map DevInfo.deviceID) = some 3 ∧
      s.set.devices.lookup (.layer "b") = none ∧ s.disk.pool 2 = false) ∧ s.Ok := by
  obtain ⟨s, h, hs⟩ := ReachesIf.of_view exec Clear (new (fun _ => false) 0 : System String)
    [.start false, .createBase 10, .answer .ok, .answer .ok, .answer .ok, .answer .ok, .answer .ok, .save,
      .add (.layer "b") .base 0 true, .answer .ok, .answer .ok, .crash,
      .start true, .answer .ok, .answer .ok, .answer .ok,
      .add (.layer "b") .base 0 true, .answer .ok, .answer .error,
      .add (.layer "a") .base 0 true, .answer .ok, .answer .ok, .answer .ok, .answer .ok]
    (fun s => decide (s.point = .idle ∧ ((s.set.devices.lookup (.layer "a")).map DevInfo.deviceID) = some 3 ∧
      s.set.devices.lookup (.layer "b") = none ∧ s.disk.pool 2 = false)) (b := true) (by decide +kernel)
  exact ⟨s, h, of_decide_eq_true hs, (devices_ok _ _ h).1⟩

/-- A crash after the metadata have been saved and before the transaction is closed: the
entry is there after the start, its device is not, and its ID is free. -/
theorem devices_rolled_back : ∃ s : System String, Reaches exec (new (fun _ => false) 0) s ∧ ¬ s.Ok := by
  obtain ⟨s, h, hs⟩ := ReachesIf.of_view exec (fun _ _ => True) (new (fun _ => false) 0 : System String)
    [.start false, .createBase 10, .answer .ok, .answer .ok, .answer .ok, .answer .ok, .answer .ok,
      .add (.layer "a") .base 0 true, .answer .ok, .answer .ok, .answer .ok, .crash,
      .start false, .answer .ok, .answer .ok, .answer .ok]
    (fun s => decide (s.point.up = true ∧ (s.set.devices.lookup (.layer "a")).map DevInfo.deviceID = some 2 ∧
      s.set.deviceIDMap.test 2 = false ∧ s.disk.pool 2 = false)) (b := true) (by decide +kernel)
  obtain ⟨hup, hid, hfree, -⟩ := of_decide_eq_true hs
  obtain ⟨info, hinfo, hid⟩ := Option.map_eq_some_iff.mp hid
  refine ⟨s, h, fun hok => ?_⟩
  have hused := (hok hup).used _ _ hinfo
  rw [hid, hfree] at hused
  cases hused

end System

end

end DeviceSet

end Moby.Graphdriver
