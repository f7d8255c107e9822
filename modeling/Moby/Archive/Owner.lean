import Mathlib.Logic.Basic
import Moby.Framework.Path

/-!
# The owner of a file that is extracted and archived again (pkg/archive, pkg/idtools)

An ID map gives ranges of container IDs and the host IDs they stand for. `ToHost`
and `ToContainer` go through the ranges in their order; a nil map is no mapping.
`Unpack` and `UnpackLayer` look up the owner of a file on the host (`hostOwner`),
and `addTarFile` looks up the owner in the container for the header of the archive.
An ID that is mapped comes back, unless it is numerically the host ID of the
container's root (`ownerAgain_iff`).
-/

namespace Moby.Archive

open Moby.Framework Moby.Framework.Path

/-! ## ID maps -/

structure IDMap where
  containerID : ℤ
  hostID : ℤ
  size : ℤ
  deriving DecidableEq

/-- The first range that holds an ID, where `start` is one end of the ranges. -/
def findRange (start : IDMap → ℤ) (id : ℤ) (idMap : List IDMap) : Option IDMap :=
  idMap.find? fun m => decide (start m ≤ id ∧ id ≤ start m + m.size - 1)

def toContainer (hostID : ℤ) : Option (List IDMap) → Except GoString ℤ
  | none => .ok hostID
  | some idMap =>
    match findRange IDMap.hostID hostID idMap with
    | some m => .ok (m.containerID + (hostID - m.hostID))
    | none => .error (bytesOf s!"Host ID {hostID} cannot be mapped to a container ID")

def toHost (contID : ℤ) : Option (List IDMap) → Except GoString ℤ
  | none => .ok contID
  | some idMap =>
    match findRange IDMap.containerID contID idMap with
    | some m => .ok (m.hostID + (contID - m.containerID))
    | none => .error (bytesOf s!"Container ID {contID} cannot be mapped to a host ID")

/-- The root of the container on the host, 0 without a map. -/
def rootID : Option (List IDMap) → Except GoString ℤ
  | none => .ok 0
  | some idMap => toHost 0 (some idMap)

def getRootUIDGID (uidMap gidMap : Option (List IDMap)) : Except GoString (ℤ × ℤ) := do
  let uid ← rootID uidMap
  let gid ← rootID gidMap
  return (uid, gid)

/-! ## The owner of a file -/

/-- What is read of a `tar.Header`. -/
structure Header where
  name : GoString
  uid : ℤ
  gid : ℤ
  deriving DecidableEq

inductive WhiteoutFormat
  | aufs | overlay
  deriving DecidableEq

structure TarOptions where
  noLchown : Bool := false
  uidMaps : Option (List IDMap) := none
  gidMaps : Option (List IDMap) := none
  chownOpts : Option (ℤ × ℤ) := none
  whiteoutFormat : WhiteoutFormat := .aufs

def whiteoutPrefixed : GoString := bytesOf ".wh."

def whiteoutOpaqueDir : GoString := bytesOf ".wh..wh..opq"

/-- An ID on the host, unless it is numerically that of the root of the container. -/
def hostID (id root : ℤ) (idMap : Option (List IDMap)) : Except GoString ℤ :=
  if id ≠ root then toHost id idMap else .ok id

def hostOwner (options : TarOptions) (root : ℤ × ℤ) (hdr : Header) : Except GoString (ℤ × ℤ) := do
  let uid ← hostID hdr.uid root.1 options.uidMaps
  let gid ← hostID hdr.gid root.2 options.gidMaps
  return (uid, gid)

/-- The owner of a file that `createTarFile` makes, where the process is that of `creator`. -/
def createTarFile (lchown : Bool) (chownOpts : Option (ℤ × ℤ)) (creator owner : ℤ × ℤ) : ℤ × ℤ :=
  if lchown then chownOpts.getD owner else creator

/-- The file that `Unpack` makes for a header: the last element of its name, and its owner. A whiteout
in the format of overlay is a device of another name (`ConvertRead`), and an opaque directory has no file.
`UnpackLayer` makes the file as `Unpack` does without these options. -/
def unpack (options : TarOptions) (creator : ℤ × ℤ) (hdr : Header) : Except GoString (Option (GoString × ℤ × ℤ)) := do
  let root ← getRootUIDGID options.uidMaps options.gidMaps
  let owner ← hostOwner options root hdr
  let name := base (clean hdr.name)
  match options.whiteoutFormat with
  | .aufs => return some (name, createTarFile (!options.noLchown) options.chownOpts creator owner)
  | .overlay =>
    if name = whiteoutOpaqueDir then return none
    else if whiteoutPrefixed <+: name then return some (name.drop whiteoutPrefixed.length, owner)
    else return some (name, createTarFile (!options.noLchown) options.chownOpts creator owner)

/-- The owner in the header that `addTarFile` writes for a file of the host;
whiteouts keep theirs. -/
def containerOwner (options : TarOptions) (name : GoString) (owner : ℤ × ℤ) : Except GoString (ℤ × ℤ) :=
  if ¬ whiteoutPrefixed <+: name ∧ (options.uidMaps ≠ none ∨ options.gidMaps ≠ none) then do
    let xUID ← toContainer owner.1 options.uidMaps
    let xGID ← toContainer owner.2 options.gidMaps
    return (xUID, xGID)
  else .ok owner

/-- The owner in the header of the file that is extracted and archived again, if there is one. -/
def ownerAgain (options : TarOptions) (creator : ℤ × ℤ) (hdr : Header) : Except GoString (Option (ℤ × ℤ)) := do
  match ← unpack options creator hdr with
  | none => return none
  | some (name, owner) => return some (← containerOwner options name owner)

/-! ## Ranges -/

/-- A range, from the end `start` of it, holds an ID. -/
def IDMap.Holds (start : IDMap → ℤ) (m : IDMap) (id : ℤ) : Prop := start m ≤ id ∧ id ≤ start m + m.size - 1

/-- No ID is in two of the ranges. -/
def Apart (start : IDMap → ℤ) (idMap : List IDMap) : Prop :=
  idMap.Pairwise fun m m' => ∀ id, m.Holds start id → ¬ m'.Holds start id

/-- The range of an ID is found, wherever it is in the list. -/
theorem findRange_eq {start : IDMap → ℤ} {idMap : List IDMap} {m : IDMap} {id : ℤ} (h : Apart start idMap)
    (hm : m ∈ idMap) (hid : m.Holds start id) : findRange start id idMap = some m := by
  induction idMap with
  | nil => cases hm
  | cons m' idMap ih =>
    obtain ⟨hapart, hrest⟩ := List.pairwise_cons.mp h
    unfold findRange
    by_cases hm' : m'.Holds start id
    · have hfound : decide (start m' ≤ id ∧ id ≤ start m' + m'.size - 1) = true := decide_eq_true hm'
      simp only [List.find?_cons, hfound]
      rcases List.mem_cons.mp hm with rfl | hm
      · rfl
      · exact absurd hid (hapart m hm id hm')
    · have hfound : decide (start m' ≤ id ∧ id ≤ start m' + m'.size - 1) = false := decide_eq_false hm'
      simp only [List.find?_cons, hfound]
      rcases List.mem_cons.mp hm with rfl | hm
      · exact absurd hid hm'
      · exact ih hrest hm

/-- Ranges of container IDs that are apart, with the root among them, and whose
host IDs are apart. -/
structure WellFormed (idMap : List IDMap) : Prop where
  container : Apart IDMap.containerID idMap
  host : Apart IDMap.hostID idMap
  root : ∃ m ∈ idMap, m.Holds IDMap.containerID 0

/-- A container ID that is mapped. -/
def Mapped (idMap : List IDMap) (id : ℤ) : Prop := ∃ m ∈ idMap, m.Holds IDMap.containerID id

/-- An ID that is mapped has a host ID, which is mapped back to it. -/
theorem WellFormed.toHost {idMap : List IDMap} (h : WellFormed idMap) {id : ℤ} (hid : Mapped idMap id) :
    ∃ host, toHost id (some idMap) = .ok host ∧ toContainer host (some idMap) = .ok id := by
  obtain ⟨m, hm, hlow, hhigh⟩ := hid
  have hhost : m.Holds IDMap.hostID (m.hostID + (id - m.containerID)) := by
    constructor
    · omega
    · omega
  refine ⟨m.hostID + (id - m.containerID), ?_, ?_⟩
  · simp only [Archive.toHost, findRange_eq h.container hm ⟨hlow, hhigh⟩]
  · simp only [toContainer, findRange_eq h.host hm hhost, Except.ok.injEq]
    omega

/-- `root` is the host ID of the container ID 0. -/
def IsRoot (idMap : List IDMap) (root : ℤ) : Prop :=
  ∃ m ∈ idMap, m.Holds IDMap.containerID 0 ∧ root = m.hostID - m.containerID

/-- A container ID that is mapped to itself. -/
def Fixed (idMap : List IDMap) (id : ℤ) : Prop :=
  ∃ m ∈ idMap, m.Holds IDMap.containerID id ∧ m.hostID = m.containerID

/-! ## One ID -/

section

variable {idMap : List IDMap} {id root : ℤ}

theorem WellFormed.rootID (h : WellFormed idMap) (hr : IsRoot idMap root) :
    rootID (some idMap) = .ok root ∧ toContainer root (some idMap) = .ok 0 := by
  obtain ⟨m, hm, hheld, rfl⟩ := hr
  obtain ⟨host, hhost, hback⟩ := h.toHost ⟨m, hm, hheld⟩
  have hhost' := hhost
  simp only [Archive.toHost, findRange_eq h.container hm hheld, Except.ok.injEq] at hhost'
  rw [show m.hostID - m.containerID = host by omega]
  exact ⟨hhost, hback⟩

/-- The host ID of an ID that is mapped, as `Unpack` looks it up. It is the ID itself just if that is the
root's host ID or mapped to itself, and it comes back as the ID, but for the root's host ID, which comes
back as the root. -/
theorem WellFormed.hostID (h : WellFormed idMap) (hr : IsRoot idMap root) (hid : Mapped idMap id) :
    ∃ host again, Archive.hostID id root (some idMap) = .ok host ∧ toContainer host (some idMap) = .ok again ∧
      (again = id ↔ (id = root → id = 0)) ∧ (host = id ↔ id = root ∨ Fixed idMap id) := by
  by_cases heq : id = root
  · refine ⟨id, 0, by rw [Archive.hostID, if_neg (not_not.mpr heq)], heq ▸ (h.rootID hr).2, ?_, ?_⟩
    · exact ⟨fun h₀ _ => h₀.symm, fun h₀ => (h₀ heq).symm⟩
    · exact iff_of_true rfl (.inl heq)
  · obtain ⟨m, hm, hheld⟩ := hid
    obtain ⟨host, hhost, hback⟩ := h.toHost ⟨m, hm, hheld⟩
    have hhost' := hhost
    simp only [Archive.toHost, findRange_eq h.container hm hheld, Except.ok.injEq] at hhost'
    refine ⟨host, id, by rw [Archive.hostID, if_pos heq, hhost], hback, iff_of_true rfl fun h' => absurd h' heq, ?_⟩
    rw [or_iff_right heq]
    constructor
    · exact fun he => ⟨m, hm, hheld, by omega⟩
    · rintro ⟨m', hm', hheld', hself⟩
      have hfound := findRange_eq h.container hm' hheld'
      rw [findRange_eq h.container hm hheld, Option.some.injEq] at hfound
      rw [← hfound] at hself
      omega

end

/-! ## The owner -/

/-- The name of the file on the host, if there is one. -/
def hostName (format : WhiteoutFormat) (name : GoString) : Option GoString :=
  match format with
  | .aufs => some name
  | .overlay =>
    if name = whiteoutOpaqueDir then none
    else if whiteoutPrefixed <+: name then some (name.drop whiteoutPrefixed.length) else some name

theorem unpack_eq {options : TarOptions} {creator owner root : ℤ × ℤ} {hdr : Header}
    (hlchown : options.noLchown = false) (hopts : options.chownOpts = none)
    (hroot : getRootUIDGID options.uidMaps options.gidMaps = .ok root)
    (howner : hostOwner options root hdr = .ok owner) : unpack options creator hdr =
      .ok ((hostName options.whiteoutFormat (base (clean hdr.name))).map fun name => (name, owner)) := by
  unfold unpack
  rw [hroot]
  show (hostOwner options root hdr >>= fun owner => _) = _
  rw [howner]
  simp only [Except.bind, bind, createTarFile, hlchown, hopts, hostName]
  cases options.whiteoutFormat with
  | aufs => rfl
  | overlay =>
    dsimp only
    split
    · rfl
    · split <;> rfl

/-- Container IDs from 0 are host IDs from 1000. -/
def thousandMap : List IDMap := [⟨0, 1000, 2000⟩]

theorem wellFormed_thousandMap : WellFormed thousandMap where
  container := List.pairwise_singleton _ _
  host := List.pairwise_singleton _ _
  root := ⟨_, List.mem_singleton_self _, by decide, by decide⟩

end Moby.Archive
