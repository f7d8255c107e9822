import Mathlib.Data.Finset.Card
import Mathlib.Data.Finset.Range
import Moby.Graphdriver.DeviceSet

/-!
# Failures of AddDevice (daemon/graphdriver/devmapper/deviceset.go)

`AddDevice` finds an ID, opens a transaction, creates a snapshot in the pool, registers it, closes the
transaction, and then grows the file system if the options ask for a larger one. A step that fails takes
back what has been done, except for two: the growing comes after the transaction has been closed, and
`CreateSnapDevice` fails with the snapshot created if it cannot resume the base device
(`addDevice_clean_iff`).
-/

namespace Moby.Graphdriver.DeviceSet.AddDevice

open Moby.Framework

/-- The step that fails. The loop that creates the snapshot has numbered rounds. -/
inductive Fault
  | openTransaction
  | suspend (k : ℕ)
  | createSnap (k : ℕ)
  | resume (k : ℕ)
  | refresh (k : ℕ)
  | register
  | closeTransaction
  | growFS
  deriving DecidableEq

inductive Error
  | unknownBase
  | baseDeleted
  | alreadyExists
  | storageOpt
  | tooSmall
  | noSpace
  | noFreeID
  | openTransaction
  | suspend
  | createSnap
  | resume
  | register
  | closeTransaction
  | growFS
  deriving DecidableEq

/-- What `CreateSnapDevice` returns. -/
inductive Snap
  | created
  | idExists
  | failed (e : Error)

variable {κ : Type}

/-- `devicemapper.CreateSnapDevice`. An active base device is suspended for it. -/
def createSnapDevice (s : System κ) (id baseID : ℕ) (active : Bool) (fault : Option Fault) (k : ℕ) : System κ × Snap :=
  if active ∧ fault = some (.suspend k) then (s, .failed .suspend)
  else if fault = some (.createSnap k) then (s, .failed .createSnap)
  else if s.disk.pool id then (s, .idExists)
  else if s.disk.pool baseID = false then (s, .failed .createSnap)
  else if active ∧ fault = some (.resume k) then (s.setPool id true, .failed .resume)
  else (s.setPool id true, .created)

/-- Its error is not looked at. -/
def refreshTransaction (s : System κ) (id : ℕ) (fault : Option Fault) (k : ℕ) : System κ :=
  let s := { s with set.transaction.deviceID := id }
  if fault = some (.refresh k) then s else s.saveTransaction

/-- The loop of `createRegisterSnapDevice`, of at most as many rounds as given. -/
def snapLoop (baseID : ℕ) (active : Bool) (fault : Option Fault) :
    ℕ → ℕ → System κ → ℕ → Option (System κ × Except Error ℕ)
  | 0, _, _, _ => none
  | rounds + 1, k, s, id =>
    match createSnapDevice s id baseID active fault k with
    | (s, .created) => some (s, .ok id)
    | (s, .idExists) =>
      let f := s.set.getNextFreeDeviceID
      let s := { s with set := f.2 }
      if f.1 then
        snapLoop baseID active fault rounds (k + 1) (refreshTransaction s f.2.nextDeviceID fault k) f.2.nextDeviceID
      else some (s, .error .noFreeID)
    | (s, .failed e) => some (s.markFree id, .error e)

variable [DecidableEq κ]

/-- `createRegisterSnapDevice` from `registerDevice` on. -/
def registerSnap (s : System κ) (n : New κ) (fault : Option Fault) : System κ × Option Error :=
  let info := s.newInfo n
  let s := s.setDevices (s.set.devices.insert n.hash info)
  if fault = some .register then
    (((s.setDevices (s.set.devices.erase n.hash)).setPool n.deviceID false).markFree n.deviceID, some .register)
  else
    let s := s.setFiles (s.disk.files.insert n.hash info)
    if s.closes (if fault = some .closeTransaction then .error else .ok) then (s.closeTransaction, none)
    else
      let s := (s.setDevices (s.set.devices.erase n.hash)).setFiles (s.disk.files.erase n.hash)
      ((s.setPool n.deviceID false).markFree n.deviceID, some .closeTransaction)

def createRegisterSnapDevice (s : System κ) (hash : Hash κ) (baseInfo : DevInfo) (size : ℕ) (active free : Bool)
    (fault : Option Fault) : Option (System κ × Option Error) :=
  if free = false then some (s, some .noSpace)
  else
    let r := s.set.getNextFreeDeviceID
    let s := { s with set := r.2 }
    if r.1 = false then some (s, some .noFreeID)
    else
      let id := r.2.nextDeviceID
      let s := s.setTransaction hash id
      if fault = some .openTransaction then some (s.markFree id, some .openTransaction)
      else
        match snapLoop baseInfo.deviceID active fault (maxDeviceID + 2) 0 s.saveTransaction id with
        | none => none
        | some (s, .error e) => some (s, some e)
        | some (s, .ok id) => some (registerSnap s { base := false, hash := hash, size := size, deviceID := id } fault)

/-- `AddDevice`. `size` is what `parseStorageOpt` returns, `active` whether the base device is active, and
`free` whether `poolHasFreeSpace`. -/
def addDevice (s : System κ) (hash baseHash : Hash κ) (size : Option ℕ) (active free : Bool) (fault : Option Fault) :
    Option (System κ × Option Error) :=
  let s := s.lookupDevice baseHash
  match s.set.devices.lookup baseHash with
  | none => some (s, some .unknownBase)
  | some baseInfo =>
    if baseInfo.deleted then some (s, some .baseDeleted)
    else
      let s := s.lookupDevice hash
      if (s.set.devices.lookup hash).isSome then some (s, some .alreadyExists)
      else
        match size with
        | none => some (s, some .storageOpt)
        | some size =>
          let size := if size = 0 then baseInfo.size else size
          if size < baseInfo.size then some (s, some .tooSmall)
          else
            match createRegisterSnapDevice s hash baseInfo size active free fault with
            | none => none
            | some (s, some e) => some (s, some e)
            | some (s, none) =>
              if baseInfo.size < size ∧ fault = some .growFS then some (s, some .growFS) else some (s, none)

/-- Nothing is left of the device: no entry and no file, the pool is as it was, and so are the marks of
all IDs that the pool does not have. -/
structure Clean (s s' : System κ) (hash : Hash κ) : Prop where
  entry : s'.set.devices.lookup hash = none
  file : s'.disk.files.lookup hash = none
  pool : ∀ id, s'.disk.pool id = s.disk.pool id
  free : ∀ id, s.disk.pool id = false → s'.set.deviceIDMap.test id = s.set.deviceIDMap.test id

/-! ## How far AddDevice comes -/

/-- The ID that `getNextFreeDeviceID` finds after `next`. -/
def freeID (m : Bitmap) (next : ℕ) : Option ℕ :=
  let r := scan m (maxDeviceID + 1) (incNextDeviceID next)
  if r.1 then some r.2 else none

/-- In the round `k` the pool does not get to look at the ID. -/
def Stops (active : Bool) (fault : Option Fault) (k : ℕ) : Prop :=
  active = true ∧ fault = some (.suspend k) ∨ fault = some (.createSnap k)

/-- A loop that is in the round `k`, with the marks `m` and the ID `id`, creates the snapshot in the round `j`: the
first with an ID that the pool does not have. -/
inductive Snaps (pool : ℕ → Bool) (baseID : ℕ) (active : Bool) (fault : Option Fault) : ℕ → Bitmap → ℕ → ℕ → Prop
  | here {k id : ℕ} {m : Bitmap} (hgo : ¬ Stops active fault k) (hid : pool id = false) (hbase : pool baseID = true) :
    Snaps pool baseID active fault k m id k
  | next {k id id' j : ℕ} {m : Bitmap} (hgo : ¬ Stops active fault k) (hid : pool id = true)
    (hfree : freeID m id = some id') (h : Snaps pool baseID active fault (k + 1) (m.mark id') id' j) :
    Snaps pool baseID active fault k m id j

/-- `createRegisterSnapDevice` creates the snapshot in the round `j`. -/
structure Snapped (s : System κ) (baseID : ℕ) (active free : Bool) (fault : Option Fault) (j : ℕ) : Prop where
  space : free = true
  opened : fault ≠ some .openTransaction
  rounds : ∃ id, freeID s.set.deviceIDMap s.set.nextDeviceID = some id ∧
    Snaps s.disk.pool baseID active fault 0 (s.set.deviceIDMap.mark id) id j

/-- The device that `lookupDevice` finds. -/
def known (s : System κ) (hash : Hash κ) : Option DevInfo := (s.set.devices.lookup hash).or (s.loadMetadata hash)

/-- `AddDevice` creates a snapshot of the base device, in the round `j`. -/
structure Made (s : System κ) (hash baseHash : Hash κ) (size : Option ℕ) (active free : Bool) (fault : Option Fault)
    (baseInfo : DevInfo) (j : ℕ) : Prop where
  base : known s baseHash = some baseInfo
  kept : baseInfo.deleted = false
  new : known s hash = none
  size : ∃ n ∈ size, n = 0 ∨ baseInfo.size ≤ n
  snapped : Snapped s baseInfo.deviceID active free fault j

/-- The base device is not resumed after the snapshot of the round `j`. -/
def Unresumed (active : Bool) (fault : Option Fault) (j : ℕ) : Prop := active = true ∧ fault = some (.resume j)

/-- The pool does not close a transaction that it has been told to close. -/
def Unclosed (s : System κ) (active : Bool) (fault : Option Fault) (j : ℕ) : Prop :=
  ¬ Unresumed active fault j ∧ fault ≠ some .register ∧
    (fault = some .closeTransaction ∨ s.disk.poolTransactionID ≠ s.set.transactionID)

/-- A file system that is to be larger than that of the base device is not grown, after the transaction. -/
def Ungrown (s : System κ) (size : Option ℕ) (fault : Option Fault) (baseInfo : DevInfo) : Prop :=
  (∃ n ∈ size, baseInfo.size < n) ∧ fault = some .growFS ∧ s.disk.poolTransactionID = s.set.transactionID

/-- Nothing is left of a device that `AddDevice` fails to add: there was nothing, the base device is resumed, and it is
not the growing that fails. A file that is not accepted is removed only where the transaction is not closed. -/
def Leaves (s : System κ) (hash baseHash : Hash κ) (size : Option ℕ) (active free : Bool) (fault : Option Fault) : Prop :=
  s.set.devices.lookup hash = none ∧
  (s.disk.files.lookup hash = none ∨
    ∃ i j, Made s hash baseHash size active free fault i j ∧ Unclosed s active fault j) ∧
  ∀ i j, Made s hash baseHash size active free fault i j → ¬ Unresumed active fault j ∧ ¬ Ungrown s size fault i

variable {pool : ℕ → Bool} {baseID k id id' : ℕ} {active free : Bool} {fault : Option Fault} {m : Bitmap}

theorem Snaps.unique {i j : ℕ} (hi : Snaps pool baseID active fault k m id i)
    (hj : Snaps pool baseID active fault k m id j) : i = j := by
  induction hi with
  | here _ hid _ =>
    cases hj with
    | here => rfl
    | next _ hid' => simp [hid] at hid'
  | next _ hid hfree _ ih =>
    cases hj with
    | here _ hid' => simp [hid] at hid'
    | next _ _ hfree' h' =>
      rw [hfree, Option.some.injEq] at hfree'
      exact ih (hfree' ▸ h')

/-! ## The loop ends -/

section

omit [DecidableEq κ]

theorem createSnapDevice_set (s : System κ) (id baseID : ℕ) (active : Bool) (fault : Option Fault) (k : ℕ) :
    (createSnapDevice s id baseID active fault k).1.set = s.set := by
  rw [createSnapDevice]
  split_ifs <;> rfl

theorem refreshTransaction_set (s : System κ) (id : ℕ) (fault : Option Fault) (k : ℕ) :
    (refreshTransaction s id fault k).set = { s.set with transaction.deviceID := id } := by
  simp only [refreshTransaction]
  split_ifs <;> rfl

/-- The numbers below `n` that are not marked. -/
@[irreducible] def unmarked (n : ℕ) (m : Bitmap) : Finset ℕ := (Finset.range n).filter fun id => m.test id = false

theorem card_unmarked_le (n : ℕ) (m : Bitmap) : (unmarked n m).card ≤ n := by
  have hle : (unmarked n m).card ≤ (Finset.range n).card := by
    rw [unmarked]
    exact Finset.card_filter_le _ _
  rwa [Finset.card_range] at hle

theorem card_unmarked_mark {n id : ℕ} {m : Bitmap} (hid : id < n) (hfree : m.test id = false) :
    (unmarked n (m.mark id)).card < (unmarked n m).card := by
  refine Finset.card_lt_card (Finset.ssubset_iff_of_subset (fun x hx => ?_) |>.mpr ⟨id, ?_, ?_⟩)
  · simp only [unmarked, Finset.mem_filter, Bitmap.test_mark, Bool.or_eq_false_iff] at hx ⊢
    exact ⟨hx.1, hx.2.2⟩
  · rw [unmarked]
    exact Finset.mem_filter.mpr ⟨Finset.mem_range.mpr hid, hfree⟩
  · simp [unmarked]

theorem scan_le (m : Bitmap) (n next : ℕ) (hnext : next ≤ maxDeviceID) : (scan m n next).2 ≤ maxDeviceID := by
  induction n generalizing next with
  | zero => exact hnext
  | succ n ih =>
    rw [scan]
    split_ifs
    · exact ih _ Nat.and_le_right
    · exact hnext

/-- One more ID is marked. -/
theorem unmarked_next {set : DeviceSet κ} (h : set.getNextFreeDeviceID.1 = true) :
    (unmarked (maxDeviceID + 1) set.getNextFreeDeviceID.2.deviceIDMap).card <
      (unmarked (maxDeviceID + 1) set.deviceIDMap).card := by
  rw [getNextFreeDeviceID] at h ⊢
  have hle := scan_le set.deviceIDMap (maxDeviceID + 1) (incNextDeviceID set.nextDeviceID) Nat.and_le_right
  have htest := test_scan set.deviceIDMap (maxDeviceID + 1) (incNextDeviceID set.nextDeviceID)
  generalize scan set.deviceIDMap (maxDeviceID + 1) (incNextDeviceID set.nextDeviceID) = r at h hle htest ⊢
  by_cases hr : r.1 = true
  · rw [if_pos hr]
    refine card_unmarked_mark ?_ (htest hr)
    omega
  · rw [if_neg hr] at h
    cases h

theorem snapLoop_isSome (baseID : ℕ) (active : Bool) (fault : Option Fault) (rounds k : ℕ) (s : System κ) (id : ℕ)
    (hrounds : (unmarked (maxDeviceID + 1) s.set.deviceIDMap).card < rounds) :
    (snapLoop baseID active fault rounds k s id).isSome = true := by
  induction rounds generalizing k s id with
  | zero => exact absurd hrounds (Nat.not_lt_zero _)
  | succ rounds ih =>
    have hset := createSnapDevice_set s id baseID active fault k
    rw [snapLoop]
    generalize createSnapDevice s id baseID active fault k = r at hset
    obtain ⟨s₁, snap⟩ := r
    dsimp only at hset
    cases snap with
    | created => rfl
    | failed e => rfl
    | idExists =>
      dsimp only
      split_ifs with hnext
      · have hless := unmarked_next hnext
        rw [hset] at hless
        refine ih (k + 1) _ _ ?_
        rw [refreshTransaction_set]
        dsimp only
        rw [hset]
        exact hless.trans_le (Nat.lt_succ_iff.mp hrounds)
      · rfl

/-! ## What the loop leaves -/

/-- No device is registered or removed, and no transaction closed. -/
structure Kept (s s' : System κ) : Prop where
  devices : s'.set.devices = s.set.devices
  files : s'.disk.files = s.disk.files
  poolTransactionID : s'.disk.poolTransactionID = s.disk.poolTransactionID
  transactionID : s'.set.transactionID = s.set.transactionID

theorem refreshTransaction_same (s : System κ) (id : ℕ) (fault : Option Fault) (k : ℕ) :
    Kept s (refreshTransaction s id fault k) ∧ (refreshTransaction s id fault k).disk.pool = s.disk.pool := by
  simp only [refreshTransaction]
  split_ifs <;> exact ⟨⟨rfl, rfl, rfl, rfl⟩, rfl⟩

/-- What a loop that starts with the marks `m` and another ID leaves; it creates the snapshot in the rounds `P`. -/
inductive Looped (active : Bool) (fault : Option Fault) (m : Bitmap) (s : System κ) (P : ℕ → Prop) :
    System κ × Except Error ℕ → Prop
  | created {s' : System κ} {id j : ℕ} (hj : P j) (hresumed : ¬ Unresumed active fault j) (hkept : Kept s s')
    (hid : s.disk.pool id = false) (hfree : m.test id = false)
    (hpool : s'.disk.pool = Function.update s.disk.pool id true)
    (hmarks : ∀ x ≠ id, s.disk.pool x = false → s'.set.deviceIDMap.test x = m.test x) :
    Looped active fault m s P (s', .ok id)
  | resume {s' : System κ} {id j : ℕ} (hj : P j) (hresumed : Unresumed active fault j) (hid : s.disk.pool id = false)
    (hpool : s'.disk.pool id = true) : Looped active fault m s P (s', .error .resume)
  | failed {s' : System κ} {e : Error} (hno : ∀ j, ¬ P j) (hkept : Kept s s')
    (hpool : s'.disk.pool = s.disk.pool) (hmarks : ∀ x, s.disk.pool x = false → s'.set.deviceIDMap.test x = m.test x) :
    Looped active fault m s P (s', .error e)

/-- The marks in a round: all are as they were but for that of the ID, and those of IDs that the pool has. -/
structure Held (m : Bitmap) (s : System κ) (id : ℕ) : Prop where
  free : s.disk.pool id = false → m.test id = false
  marks : ∀ x ≠ id, s.disk.pool x = false → s.set.deviceIDMap.test x = m.test x

theorem Kept.trans {s s₁ s₂ : System κ} (h : Kept s s₁) (h' : Kept s₁ s₂) : Kept s s₂ :=
  ⟨h'.devices.trans h.devices, h'.files.trans h.files, h'.poolTransactionID.trans h.poolTransactionID,
    h'.transactionID.trans h.transactionID⟩

theorem Looped.of_kept {s s₁ : System κ} {P P' : ℕ → Prop}
    {r : System κ × Except Error ℕ} (hl : Looped active fault m s₁ P' r) (hP : ∀ j, P' j ↔ P j) (hkept : Kept s s₁)
    (hpool : s₁.disk.pool = s.disk.pool) : Looped active fault m s P r := by
  obtain rfl : P' = P := funext fun j => propext (hP j)
  cases hl with
  | created hj hresumed hk hid hfree hp hmarks =>
    rw [hpool] at hid hp hmarks
    exact .created hj hresumed (hkept.trans hk) hid hfree hp hmarks
  | resume hj hresumed hid hp =>
    rw [hpool] at hid
    exact .resume hj hresumed hid hp
  | failed hno hk hp hmarks =>
    rw [hpool] at hp hmarks
    exact .failed hno (hkept.trans hk) hp hmarks

theorem Held.markFree {s : System κ} (hh : Held m s id) (x : ℕ) (hx : s.disk.pool x = false) :
    (s.markFree id).set.deviceIDMap.test x = m.test x := by
  rw [show (s.markFree id).set.deviceIDMap = s.set.deviceIDMap.clear id from rfl, Bitmap.test_clear]
  by_cases hid : x = id
  · rw [hid] at hx ⊢
    simp [hh.free hx]
  · simp [hid, hh.marks x hid hx]

/-- The ID is the one that `freeID` tells. -/
theorem freeID_of_true {set : DeviceSet κ} (h : set.getNextFreeDeviceID.1 = true) : ∃ id,
    freeID set.deviceIDMap set.nextDeviceID = some id ∧ set.deviceIDMap.test id = false ∧
      set.getNextFreeDeviceID.2 = { set with nextDeviceID := id, deviceIDMap := set.deviceIDMap.mark id } := by
  obtain ⟨id, hid, hset⟩ := getNextFreeDeviceID_true set h
  refine ⟨id, ?_, hid, hset⟩
  rw [getNextFreeDeviceID] at h hset
  split_ifs at h hset with hr
  rw [freeID, if_pos hr]
  exact congrArg some (congrArg nextDeviceID hset)

theorem freeID_of_false {set : DeviceSet κ} (h : ¬ set.getNextFreeDeviceID.1 = true) :
    freeID set.deviceIDMap set.nextDeviceID = none := by
  rw [getNextFreeDeviceID] at h
  split_ifs at h with hr
  · exact absurd rfl h
  · exact if_neg hr

/-- The rounds from one on whose ID the pool has. -/
theorem snaps_next_iff {j : ℕ} (hgo : ¬ Stops active fault k) (hid : pool id = true) (hfree : freeID m id = some id') :
    Snaps pool baseID active fault (k + 1) (m.mark id') id' j ↔ Snaps pool baseID active fault k m id j := by
  refine ⟨.next hgo hid hfree, fun h => ?_⟩
  cases h with
  | here _ hid' => simp [hid] at hid'
  | next _ _ hfree' h =>
    rw [hfree, Option.some.injEq] at hfree'
    exact hfree' ▸ h

theorem looped_snapLoop {m : Bitmap} (baseID : ℕ) (active : Bool) (fault : Option Fault) {rounds k : ℕ} {s : System κ} {id : ℕ}
    (hid : s.set.nextDeviceID = id) (hh : Held m s id) {r : System κ × Except Error ℕ}
    (hr : snapLoop baseID active fault rounds k s id = some r) :
    Looped active fault m s (Snaps s.disk.pool baseID active fault k s.set.deviceIDMap id) r := by
  induction rounds generalizing k s id with
  | zero => cases hr
  | succ rounds ih =>
    have hstops (hs : Stops active fault k) (j : ℕ) : ¬ Snaps s.disk.pool baseID active fault k s.set.deviceIDMap id j := by
      rintro (⟨hgo, -, -⟩ | ⟨hgo, -, -, -⟩) <;> exact hgo hs
    have hsnaps (hgo : ¬ Stops active fault k) (hid : ¬ s.disk.pool id = true) (hbase : ¬ s.disk.pool baseID = false) :
        Snaps s.disk.pool baseID active fault k s.set.deviceIDMap id k :=
      .here hgo (Bool.eq_false_iff.mpr hid) (Bool.not_eq_false _ ▸ hbase)
    rw [snapLoop, createSnapDevice] at hr
    split_ifs at hr with hsuspend hcreate hexists hbase hresume
    · cases hr
      exact .failed (hstops (.inl hsuspend)) ⟨rfl, rfl, rfl, rfl⟩ rfl hh.markFree
    · cases hr
      exact .failed (hstops (.inr hcreate)) ⟨rfl, rfl, rfl, rfl⟩ rfl hh.markFree
    · have hgo : ¬ Stops active fault k := not_or.mpr ⟨hsuspend, hcreate⟩
      dsimp only at hr
      split_ifs at hr with hnext
      · obtain ⟨id', hfree, hid', hset⟩ := freeID_of_true hnext
        rw [hset] at hr
        have hsame := refreshTransaction_same
          { s with set := { s.set with nextDeviceID := id', deviceIDMap := s.set.deviceIDMap.mark id' } } id' fault k
        refine (ih (by rw [refreshTransaction_set]) ⟨fun hp => ?_, fun x hx hp => ?_⟩ hr).of_kept (fun j => ?_)
          ⟨hsame.1.devices, hsame.1.files, hsame.1.poolTransactionID, hsame.1.transactionID⟩ hsame.2
        · -- The pool has the ID of this round, so the next one is another.
          rw [hsame.2] at hp
          have hne : id' ≠ id := fun he => by simp [he, hexists] at hp
          rw [← hh.marks id' hne hp, hid']
        · rw [hsame.2] at hp
          have hne : x ≠ id := fun he => by simp [he, hexists] at hp
          rw [refreshTransaction_set, ← hh.marks x hne hp]
          simp [hx]
        · rw [hsame.2, refreshTransaction_set]
          exact snaps_next_iff hgo hexists (hid ▸ hfree)
      · cases hr
        obtain ⟨id', hset⟩ := getNextFreeDeviceID_false s.set hnext
        have hfree := freeID_of_false hnext
        rw [hid] at hfree
        rw [hset]
        refine .failed ?_ ⟨rfl, rfl, rfl, rfl⟩ rfl fun x hp => hh.marks x (fun he => ?_) hp
        · rintro j (⟨-, hid', -⟩ | ⟨-, -, hfree', -⟩)
          · simp [hexists] at hid'
          · simp [hfree] at hfree'
        · simp [he, hexists] at hp
    · cases hr
      refine .failed ?_ ⟨rfl, rfl, rfl, rfl⟩ rfl hh.markFree
      rintro j (⟨-, -, hbase'⟩ | ⟨-, hid', -, -⟩)
      · simp [hbase] at hbase'
      · exact hexists hid'
    · cases hr
      exact .resume (hsnaps (not_or.mpr ⟨hsuspend, hcreate⟩) hexists hbase) hresume (Bool.eq_false_iff.mpr hexists)
        (Function.update_self ..)
    · cases hr
      have hid := Bool.eq_false_iff.mpr hexists
      exact .created (hsnaps (not_or.mpr ⟨hsuspend, hcreate⟩) hexists hbase) hresume ⟨rfl, rfl, rfl, rfl⟩ hid
        (hh.free hid) rfl hh.marks

end

/-! ## What AddDevice leaves -/

variable {s s₁ : System κ} {hash baseHash : Hash κ}

/-- What `createRegisterSnapDevice` leaves of a device that has no entry; `P` are the rounds of the snapshot. -/
inductive Registered (active : Bool) (fault : Option Fault) (s : System κ) (hash : Hash κ) (P : ℕ → Prop) :
    System κ × Option Error → Prop
  | done {s' : System κ} {j : ℕ} (hj : P j) (hclosed : s.disk.poolTransactionID = s.set.transactionID)
    (hentry : s'.set.devices.lookup hash ≠ none) : Registered active fault s hash P (s', none)
  | resume {s' : System κ} {id j : ℕ} (hj : P j) (hresumed : Unresumed active fault j) (hid : s.disk.pool id = false)
    (hpool : s'.disk.pool id = true) : Registered active fault s hash P (s', some .resume)
  | close {s' : System κ} {j : ℕ} (hj : P j) (hclosed : Unclosed s active fault j) (hclean : Clean s s' hash) :
    Registered active fault s hash P (s', some .closeTransaction)
  | failed {s' : System κ} {e : Error} (hno : ∀ j, P j → fault = some .register)
    (hentry : s'.set.devices.lookup hash = none) (hfile : s'.disk.files.lookup hash = s.disk.files.lookup hash)
    (hpool : s'.disk.pool = s.disk.pool)
    (hmarks : ∀ x, s.disk.pool x = false → s'.set.deviceIDMap.test x = s.set.deviceIDMap.test x) :
    Registered active fault s hash P (s', some e)

/-- The device that has been created is deleted again. -/
theorem pool_deleted {pool : ℕ → Bool} {id : ℕ} (hid : pool id = false) :
    Function.update (Function.update pool id true) id false = pool := by
  rw [Function.update_idem, ← hid, Function.update_eq_self]

theorem registered_registerSnap (n : New κ) {P : ℕ → Prop} {j : ℕ} (hj : P j) (hresumed : ¬ Unresumed active fault j)
    (hid : s.disk.pool n.deviceID = false) (hfree : s.set.deviceIDMap.test n.deviceID = false) (hkept : Kept s s₁)
    (hpool : s₁.disk.pool = Function.update s.disk.pool n.deviceID true)
    (hmarks : ∀ x ≠ n.deviceID, s.disk.pool x = false → s₁.set.deviceIDMap.test x = s.set.deviceIDMap.test x) :
    Registered active fault s n.hash P (registerSnap s₁ n fault) := by
  have hdeleted : Function.update s₁.disk.pool n.deviceID false = s.disk.pool := by rw [hpool, pool_deleted hid]
  have hclear : ∀ x, s.disk.pool x = false →
      (s₁.set.deviceIDMap.clear n.deviceID).test x = s.set.deviceIDMap.test x := by
    intro x hx
    rw [Bitmap.test_clear]
    by_cases hxid : x = n.deviceID
    · simp [hxid, hfree]
    · simp [hxid, hmarks x hxid hx]
  simp only [registerSnap]
  generalize hanswer : (if fault = some .closeTransaction then Answer.error else .ok) = answer
  have hok : answer = .ok ↔ ¬ fault = some .closeTransaction := by rw [← hanswer]; split_ifs with hf <;> simp [hf]
  have hcloses : (answer = .ok ∧ s₁.disk.poolTransactionID = s₁.set.transactionID) ↔
      ¬ (fault = some .closeTransaction ∨ s.disk.poolTransactionID ≠ s.set.transactionID) := by
    rw [hok, hkept.poolTransactionID, hkept.transactionID, not_or, not_not]
  split_ifs with hregister hclose
  · exact .failed (fun _ _ => hregister) (Finmap.lookup_erase _ _) (by rw [← hkept.files]; rfl) hdeleted hclear
  · have hclosed := not_or.mp (hcloses.mp (of_decide_eq_true hclose))
    exact .done hj (not_not.mp hclosed.2) (by simp [System.closeTransaction, System.setFiles, System.setDevices])
  · have hclosed := not_not.mp (mt hcloses.mpr fun h => hclose (decide_eq_true h))
    exact .close hj ⟨hresumed, hregister, hclosed⟩
      ⟨Finmap.lookup_erase _ _, Finmap.lookup_erase _ _, congrFun hdeleted, hclear⟩

theorem registered_create {baseInfo : DevInfo} {size : ℕ} (hnew : s.set.devices.lookup hash = none)
    {r : System κ × Option Error} (hr : createRegisterSnapDevice s hash baseInfo size active free fault = some r) :
    Registered active fault s hash (Snapped s baseInfo.deviceID active free fault) r := by
  simp only [createRegisterSnapDevice] at hr
  by_cases hspace : free = false
  · rw [if_pos hspace] at hr
    cases hr
    exact .failed (fun j hj => absurd hj.space (by simp [hspace])) hnew rfl rfl fun _ _ => rfl
  rw [if_neg hspace] at hr
  by_cases hnext : s.set.getNextFreeDeviceID.1 = true
  · obtain ⟨id, hfreeID, hid, hset⟩ := freeID_of_true hnext
    rw [if_neg (by simp [hnext]), hset] at hr
    dsimp only at hr
    set s₁ : System κ := { s with set := { s.set with nextDeviceID := id, deviceIDMap := s.set.deviceIDMap.mark id } }
    have hheld : Held s.set.deviceIDMap s₁ id := ⟨fun _ => hid, fun x hx _ => by simp [s₁, hx]⟩
    split_ifs at hr with hopen
    · cases hr
      exact .failed (fun j hj => absurd hopen hj.opened) hnew rfl rfl hheld.markFree
    · have hlooped := fun r => @looped_snapLoop κ s.set.deviceIDMap baseInfo.deviceID active fault (maxDeviceID + 2) 0
        (s₁.setTransaction hash id).saveTransaction id rfl ⟨hheld.free, hheld.marks⟩ r
      have hsnapped (j : ℕ) : Snapped s baseInfo.deviceID active free fault j ↔
          Snaps s.disk.pool baseInfo.deviceID active fault 0 (s.set.deviceIDMap.mark id) id j := by
        refine ⟨fun ⟨_, _, id', hid', h⟩ => ?_, fun h => ⟨Bool.eq_true_of_not_eq_false hspace, hopen, id, hfreeID, h⟩⟩
        rw [hfreeID, Option.some.injEq] at hid'
        exact hid' ▸ h
      generalize snapLoop baseInfo.deviceID active fault (maxDeviceID + 2) 0 _ id = loop at hr hlooped
      rcases loop with - | ⟨s₂, e | id'⟩
      · cases hr
      · cases hr
        cases hlooped _ rfl with
        | resume hj hresumed hid' hpool => exact .resume ((hsnapped _).mpr hj) hresumed hid' hpool
        | failed hno hkept hpool hmarks =>
          exact .failed (fun j hj => absurd ((hsnapped j).mp hj) (hno j)) (hkept.devices ▸ hnew)
            (by rw [hkept.files]; rfl) hpool hmarks
      · cases hr
        cases hlooped _ rfl with
        | created hj hresumed hkept hid' hfree hpool hmarks =>
          exact registered_registerSnap (s := s) { base := false, hash := hash, size := size, deviceID := id' }
            ((hsnapped _).mpr hj) hresumed hid' hfree
            ⟨hkept.devices, hkept.files, hkept.poolTransactionID, hkept.transactionID⟩ hpool hmarks
  · obtain ⟨id, hset⟩ := getNextFreeDeviceID_false s.set hnext
    rw [if_pos (by simpa using hnext), hset] at hr
    cases hr
    refine .failed (fun j ⟨_, _, id', hid', _⟩ => ?_) hnew rfl rfl fun _ _ => rfl
    rw [freeID_of_false hnext] at hid'
    cases hid'

theorem createRegisterSnapDevice_isSome (s : System κ) (hash : Hash κ) (baseInfo : DevInfo) (size : ℕ) (active free : Bool)
    (fault : Option Fault) : (createRegisterSnapDevice s hash baseInfo size active free fault).isSome = true := by
  simp only [createRegisterSnapDevice]
  split_ifs
  · rfl
  · rfl
  · rfl
  · have hsome := snapLoop_isSome baseInfo.deviceID active fault (maxDeviceID + 2) 0
      (({ s with set := s.set.getNextFreeDeviceID.2 }.setTransaction hash
        s.set.getNextFreeDeviceID.2.nextDeviceID).saveTransaction)
      s.set.getNextFreeDeviceID.2.nextDeviceID (Nat.lt_succ_of_le (card_unmarked_le _ _))
    generalize snapLoop baseInfo.deviceID active fault (maxDeviceID + 2) 0 _ _ = loop at hsome ⊢
    rcases loop with - | ⟨s₂, e | id'⟩
    · cases hsome
    · rfl
    · rfl

/-- `lookupDevice` may add an entry of a file. -/
structure Looked (s s₁ : System κ) (hash : Hash κ) : Prop where
  disk : s₁.disk = s.disk
  marks : s₁.set.deviceIDMap = s.set.deviceIDMap
  nextDeviceID : s₁.set.nextDeviceID = s.set.nextDeviceID
  transactionID : s₁.set.transactionID = s.set.transactionID
  entry : s₁.set.devices.lookup hash = none → s.set.devices.lookup hash = none
  same : s.disk.files.lookup hash = none → s₁.set.devices.lookup hash = s.set.devices.lookup hash
  known : known s₁ hash = known s hash

theorem lookup_lookupDevice (s : System κ) (hash : Hash κ) : (s.lookupDevice hash).set.devices.lookup hash = known s hash := by
  rw [System.lookupDevice, known]
  cases hd : s.set.devices.lookup hash with
  | some info => simp [hd]
  | none =>
    cases hl : s.loadMetadata hash with
    | some info => simp [System.setDevices]
    | none => simp [hd]

theorem looked_lookupDevice (s : System κ) (hash h : Hash κ) : Looked s (s.lookupDevice h) hash := by
  rw [System.lookupDevice]
  split
  · rename_i info hnone hload
    have hfile := (Option.filter_eq_some_iff.mp hload).1
    have hlookup := Finmap.lookup_insert' s.set.devices h hash info
    by_cases hh : hash = h
    · subst hh
      rw [if_pos rfl] at hlookup
      refine ⟨rfl, rfl, rfl, rfl, fun _ => hnone, fun hno => ?_, ?_⟩
      · rw [hfile] at hno
        cases hno
      · rw [known, known, hnone, hload]
        exact congrArg (Option.or · _) hlookup
    · rw [if_neg hh] at hlookup
      exact ⟨rfl, rfl, rfl, rfl, fun hentry => hlookup ▸ hentry, fun _ => hlookup, congrArg (Option.or · _) hlookup⟩
  · exact ⟨rfl, rfl, rfl, rfl, fun h => h, fun _ => rfl, rfl⟩

theorem Looked.trans {s₂ : System κ} (h : Looked s s₁ hash) (h' : Looked s₁ s₂ hash) : Looked s s₂ hash where
  disk := h'.disk.trans h.disk
  marks := h'.marks.trans h.marks
  nextDeviceID := h'.nextDeviceID.trans h.nextDeviceID
  transactionID := h'.transactionID.trans h.transactionID
  entry hn := h.entry (h'.entry hn)
  same hf := (h'.same (h.disk ▸ hf)).trans (h.same hf)
  known := h'.known.trans h.known

variable {size : Option ℕ}

theorem Made.unique {i i' : DevInfo} {j j' : ℕ} (h : Made s hash baseHash size active free fault i j)
    (h' : Made s hash baseHash size active free fault i' j') : j = j' := by
  obtain rfl : i = i' := Option.some.inj (h.base.symm.trans h'.base)
  obtain ⟨id, hid, hs⟩ := h.snapped.rounds
  obtain ⟨id', hid', hs'⟩ := h'.snapped.rounds
  obtain rfl : id = id' := Option.some.inj (hid.symm.trans hid')
  exact hs.unique hs'

/-- Where no snapshot is created, or not registered. -/
theorem leaves_iff_of_register (hno : ∀ i j, Made s hash baseHash size active free fault i j → fault = some .register) :
    Leaves s hash baseHash size active free fault ↔ s.set.devices.lookup hash = none ∧ s.disk.files.lookup hash = none := by
  refine ⟨fun ⟨hentry, hfile, _⟩ => ⟨hentry, ?_⟩, fun ⟨hentry, hfile⟩ => ⟨hentry, .inl hfile, fun i j hmade => ?_⟩⟩
  · rcases hfile with hfile | ⟨i, j, hmade, hclosed⟩
    · exact hfile
    · exact absurd (hno i j hmade) hclosed.2.1
  · have hf := hno i j hmade
    exact ⟨fun h => absurd h.2 (by simp [hf]), fun h => absurd h.2.1 (by simp [hf])⟩

theorem clean_iff_of_looked (hl : Looked s s₁ hash)
    (hno : ∀ i j, Made s hash baseHash size active free fault i j → fault = some .register) :
    Clean s s₁ hash ↔ Leaves s hash baseHash size active free fault := by
  rw [leaves_iff_of_register hno]
  constructor
  · intro hc
    exact ⟨hl.entry hc.entry, hl.disk ▸ hc.file⟩
  · rintro ⟨hentry, hfile⟩
    exact ⟨(hl.same hfile).trans hentry, by rwa [hl.disk], fun _ => by rw [hl.disk], fun _ _ => by rw [hl.marks]⟩

theorem clean_iff_of_registered {P : ℕ → Prop} {i : DevInfo} (hl : Looked s s₁ hash)
    (hnew : s₁.set.devices.lookup hash = none) (hP : ∀ j, P j → Made s hash baseHash size active free fault i j)
    (hM : ∀ i j, Made s hash baseHash size active free fault i j → P j) {s' : System κ} {e : Error}
    (hr : Registered active fault s₁ hash P (s', some e)) :
    Clean s s' hash ↔ Leaves s hash baseHash size active free fault := by
  have hentry := hl.entry hnew
  cases hr with
  | resume hj hresumed hid hpool =>
    refine ⟨fun hc => ?_, fun h => absurd hresumed (h.2.2 i _ (hP _ hj)).1⟩
    rw [hl.disk, ← hc.pool, hpool] at hid
    cases hid
  | close hj hclosed hc =>
    rw [Unclosed, hl.disk, hl.transactionID] at hclosed
    refine ⟨fun _ => ⟨hentry, .inr ⟨i, _, hP _ hj, hclosed⟩, fun i' j' hmade => ?_⟩, fun _ => ?_⟩
    · rw [← (hP _ hj).unique hmade]
      refine ⟨hclosed.1, fun hgrown => hclosed.2.2.elim (fun hf => ?_) fun hne => hne hgrown.2.2⟩
      simp [hgrown.2.1] at hf
    · have hpool := hc.pool
      have hfree := hc.free
      rw [hl.disk] at hpool hfree
      rw [hl.marks] at hfree
      exact ⟨hc.entry, hc.file, hpool, hfree⟩
  | failed hno hentry' hfile hpool hmarks =>
    rw [hl.disk] at hfile hpool hmarks
    rw [hl.marks] at hmarks
    rw [leaves_iff_of_register fun i j hmade => hno j (hM i j hmade)]
    constructor
    · intro hc
      exact ⟨hentry, hfile ▸ hc.file⟩
    · rintro ⟨-, hnone⟩
      exact ⟨hentry', hfile.trans hnone, congrFun hpool, hmarks⟩

theorem Looked.snapped_iff {baseID j : ℕ} (hl : Looked s s₁ hash) :
    Snapped s₁ baseID active free fault j ↔ Snapped s baseID active free fault j := by
  constructor <;> rintro ⟨hspace, hopened, hrounds⟩ <;> refine ⟨hspace, hopened, ?_⟩
  · rwa [hl.disk, hl.marks, hl.nextDeviceID] at hrounds
  · rwa [hl.disk, hl.marks, hl.nextDeviceID]

/-- A size of 0 is that of the base device. -/
theorem tooSmall_iff {n size : ℕ} : (if n = 0 then size else n) < size ↔ ¬ (n = 0 ∨ size ≤ n) := by
  split_ifs <;> omega

theorem grows_iff {n size : ℕ} : size < (if n = 0 then size else n) ↔ size < n := by
  split_ifs <;> omega

theorem ends_error {e : Error} {p : Prop} (h : Clean s s₁ hash ↔ p) :
    ∃ s' r, some (s₁, some e) = some (s', r) ∧ (r ≠ none → (Clean s s' hash ↔ p)) :=
  ⟨s₁, some e, rfl, fun _ => h⟩

/-- `AddDevice` returns, and if it fails then nothing is left of the device exactly if there was nothing
before and the step that fails is neither the resuming of the base device nor the growing of the file
system, in the terms of what is there before and of the step. -/
theorem addDevice_clean_iff (s : System κ) (hash baseHash : Hash κ) (size : Option ℕ) (active free : Bool)
    (fault : Option Fault) : ∃ s' r, addDevice s hash baseHash size active free fault = some (s', r) ∧
      (r ≠ none → (Clean s s' hash ↔ Leaves s hash baseHash size active free fault)) := by
  have hbase := looked_lookupDevice s hash baseHash
  have hboth := hbase.trans (looked_lookupDevice (s.lookupDevice baseHash) hash hash)
  have hknown : ((s.lookupDevice baseHash).lookupDevice hash).set.devices.lookup hash = known s hash := by
    rw [lookup_lookupDevice, hbase.known]
  simp only [addDevice, lookup_lookupDevice s baseHash, hknown]
  cases hi : known s baseHash with
  | none => exact ends_error (clean_iff_of_looked hbase fun i j hmade => absurd hmade.base (by simp [hi]))
  | some baseInfo =>
  have hinfo {i : DevInfo} {j : ℕ} (hmade : Made s hash baseHash size active free fault i j) : i = baseInfo :=
    Option.some.inj (hmade.base.symm.trans hi)
  dsimp only
  split_ifs with hdeleted hexists
  · refine ends_error (clean_iff_of_looked hbase fun i j hmade => ?_)
    have hkept := hmade.kept
    simp [hinfo hmade, hdeleted] at hkept
  · exact ends_error (clean_iff_of_looked hboth fun i j hmade => by simp [hmade.new] at hexists)
  have hnew : known s hash = none := by simpa using hexists
  cases size with
  | none => exact ends_error (clean_iff_of_looked hboth fun i j ⟨_, _, _, ⟨n, hn, _⟩, _⟩ => by cases hn)
  | some n =>
    dsimp only
    by_cases hsize : n = 0 ∨ baseInfo.size ≤ n
    swap
    · rw [if_pos (tooSmall_iff.mpr hsize)]
      refine ends_error (clean_iff_of_looked hboth fun i j hmade => absurd ?_ hsize)
      obtain ⟨_, ⟨⟩, hn⟩ := hmade.size
      rwa [hinfo hmade] at hn
    rw [if_neg fun h => tooSmall_iff.mp h hsize]
    obtain ⟨⟨s', r⟩, hr⟩ := Option.isSome_iff_exists.mp (createRegisterSnapDevice_isSome
      ((s.lookupDevice baseHash).lookupDevice hash) hash baseInfo (if n = 0 then baseInfo.size else n) active free fault)
    have hreg := registered_create (hknown.trans hnew) hr
    have hP (j : ℕ) (hj : Snapped _ baseInfo.deviceID active free fault j) :
        Made s hash baseHash (some n) active free fault baseInfo j :=
      ⟨hi, Bool.eq_false_iff.mpr hdeleted, hnew, ⟨n, rfl, hsize⟩, hboth.snapped_iff.mp hj⟩
    rw [hr]
    cases r with
    | some e =>
      refine ends_error (clean_iff_of_registered hboth (hknown.trans hnew) hP (fun i j hmade => ?_) hreg)
      exact hboth.snapped_iff.mpr (hinfo hmade ▸ hmade.snapped)
    | none =>
      dsimp only
      by_cases hgrow : baseInfo.size < (if n = 0 then baseInfo.size else n) ∧ fault = some .growFS
      · rw [if_pos hgrow]
        cases hreg with
        | done hj hclosed hentry =>
          rw [hboth.disk, hboth.transactionID] at hclosed
          refine ends_error ⟨fun hc => absurd hc.entry hentry, fun h => absurd ?_ (h.2.2 _ _ (hP _ hj)).2⟩
          exact ⟨⟨n, rfl, grows_iff.mp hgrow.1⟩, hgrow.2, hclosed⟩
      · rw [if_neg hgrow]
        exact ⟨_, _, rfl, fun h => absurd rfl h⟩

/-- A set with the base device, of the size 10. -/
def baseOnly : System ℕ where
  disk :=
    { files := (∅ : Map (Hash ℕ) DevInfo).insert .base
        { deviceID := 1, size := 10, transactionID := 1, initialized := true, deleted := false }
      transaction := none, nextDeviceID := 1, pool := (· == 1), poolTransactionID := 1 }
  deferredDelete := false
  set :=
    { devices := (∅ : Map (Hash ℕ) DevInfo).insert .base
        { deviceID := 1, size := 10, transactionID := 1, initialized := true, deleted := false }
      transactionID := 1, nextDeviceID := 1, deviceIDMap := Bitmap.zero.mark 1
      transaction := { openTransactionID := 1, deviceIDHash := .base, deviceID := 1 } }
  point := .idle

/-- The file system of a device of the size 20 cannot be grown: `AddDevice` fails, and the device has its
entry, its file, its device in the pool, and its ID. A second call is refused because of the entry. -/
theorem addDevice_not_clean : ∃ s', addDevice baseOnly (.layer 7) .base (some 20) false true (some .growFS) =
      some (s', some .growFS) ∧
    (s'.set.devices.lookup (.layer 7)).map DevInfo.deviceID = some 2 ∧
    (s'.disk.files.lookup (.layer 7)).map DevInfo.deviceID = some 2 ∧
    s'.disk.pool 2 = true ∧ s'.set.deviceIDMap.test 2 = true ∧
    (addDevice s' (.layer 7) .base (some 20) false true none).map Prod.snd = some (some .alreadyExists) := by
  have hview : (addDevice baseOnly (.layer 7) .base (some 20) false true (some .growFS)).map (fun r => decide
      (r.2 = some .growFS ∧ (r.1.set.devices.lookup (.layer 7)).map DevInfo.deviceID = some 2 ∧
        (r.1.disk.files.lookup (.layer 7)).map DevInfo.deviceID = some 2 ∧
        r.1.disk.pool 2 = true ∧ r.1.set.deviceIDMap.test 2 = true ∧
        (addDevice r.1 (.layer 7) .base (some 20) false true none).map Prod.snd = some (some .alreadyExists))) =
      some true := by
    decide +kernel
  obtain ⟨⟨s', r⟩, hr, hs'⟩ := Option.map_eq_some_iff.mp hview
  obtain ⟨rfl, hs'⟩ := of_decide_eq_true hs'
  exact ⟨s', hr, hs'⟩

end Moby.Graphdriver.DeviceSet.AddDevice
