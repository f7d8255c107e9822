import Moby.Layer.Types

/-!
# The metadata store on the file system

`fileMetadataStore`: one directory of small files for each committed layer
(`<root>/<algorithm>/<hex>`), for each mount (`<root>/mounts/<name>`, the
name one path component) and for each open transaction
(`<root>/tmp/layer-…`). The files hold text, except the descriptor's, which
holds a JSON object; the content of the tar-split file, which no modelled
function reads, is left out.
-/

namespace Moby.Layer

open Moby.Framework Moby.Digest

/-- The files of a layer's and of a mount's directory. -/
inductive FileName where
  | size
  | parent
  | diff
  | cacheID
  | descriptor
  | tarSplit
  | mountID
  | initID
  deriving DecidableEq, Repr

/-- The JSON object of a descriptor, with the members that are not empty
(`omitempty`). -/
structure DescriptorJson where
  mediaType : Option String
  size : Option Int64
  digest : Option String
  urls : Option (List String)
  deriving DecidableEq

/-- `json.Marshal` of a descriptor. -/
def Descriptor.marshal (d : Descriptor) : DescriptorJson where
  mediaType := if d.mediaType = "" then none else some d.mediaType
  size := if d.size = 0 then none else some d.size
  digest := if d.digest = "" then none else some d.digest
  urls := if d.urls = [] then none else some d.urls

/-- `json.Unmarshal` into a zero descriptor. -/
def DescriptorJson.unmarshal (j : DescriptorJson) : Descriptor where
  mediaType := j.mediaType.getD ""
  size := j.size.getD 0
  digest := j.digest.getD ""
  urls := j.urls.getD []

theorem unmarshal_marshal (d : Descriptor) : d.marshal.unmarshal = d := by
  have h {α : Type} [DecidableEq α] (x y : α) : (if x = y then none else some x).getD y = x := by
    split <;> simp_all
  simp only [Descriptor.marshal, DescriptorJson.unmarshal, h]

/-- The content of a file. -/
inductive File where
  | text (s : String)
  | json (j : DescriptorJson)
  deriving DecidableEq

abbrev Dir := Map FileName File

/-- `fileMetadataStore`: the directories of the open transactions, of the
committed layers and of the mounts. -/
structure MetadataStore where
  tmp : Map String Dir := ∅
  layers : Map ChainID Dir := ∅
  mounts : Map String Dir := ∅

/-- Why a `Get…` fails. -/
inductive ReadErr where
  | notExist
  | digest (e : Digest.Err)
  | invalidID
  | badFormat
  deriving DecidableEq

/-- `stringIDRegexp`: `^[a-f0-9]{64}(-init)?$`. -/
def matchesStringID (s : String) : Bool :=
  (s.toList.take 64).length = 64 && (s.toList.take 64).all isHexLower &&
    (s.toList.drop 64 = [] || s.toList.drop 64 = "-init".toList)

namespace MetadataStore

/-- Write a file of an open transaction. -/
def writeTmp (m : MetadataStore) (tx : String) (f : FileName) (x : File) : MetadataStore :=
  match m.tmp.lookup tx with
  | none => m
  | some d => { m with tmp := m.tmp.insert tx (d.insert f x) }

/-- `os.MkdirAll(fms.getMountDirectory(mount), 0755)`. -/
def mkdirMount (m : MetadataStore) (mount : String) : MetadataStore :=
  match m.mounts.lookup mount with
  | none => { m with mounts := m.mounts.insert mount ∅ }
  | some _ => m

/-- Write a file of a mount, in its directory, made if it is not there. -/
def writeMount (m : MetadataStore) (mount : String) (f : FileName) (x : File) : MetadataStore :=
  { m with mounts := m.mounts.insert mount (((m.mounts.lookup mount).getD ∅).insert f x) }

@[simp] theorem layers_writeTmp (m : MetadataStore) (tx : String) (f : FileName) (x : File) :
    (m.writeTmp tx f x).layers = m.layers := by
  unfold writeTmp; split <;> rfl

@[simp] theorem mounts_writeTmp (m : MetadataStore) (tx : String) (f : FileName) (x : File) :
    (m.writeTmp tx f x).mounts = m.mounts := by
  unfold writeTmp; split <;> rfl

@[simp] theorem layers_mkdirMount (m : MetadataStore) (mount : String) :
    (m.mkdirMount mount).layers = m.layers := by
  unfold mkdirMount; split <;> rfl

@[simp] theorem tmp_mkdirMount (m : MetadataStore) (mount : String) :
    (m.mkdirMount mount).tmp = m.tmp := by
  unfold mkdirMount; split <;> rfl

theorem lookup_mkdirMount (m : MetadataStore) (mount n : String) :
    (m.mkdirMount mount).mounts.lookup n =
      if n = mount then some ((m.mounts.lookup mount).getD ∅) else m.mounts.lookup n := by
  unfold mkdirMount
  cases h : m.mounts.lookup mount with
  | none => exact Finmap.lookup_insert' ..
  | some d =>
    show m.mounts.lookup n = if n = mount then some d else m.mounts.lookup n
    split
    · rename_i e; rw [e, h]
    · rfl

theorem lookup_writeMount (m : MetadataStore) (mount n : String) (f : FileName) (x : File) :
    (m.writeMount mount f x).mounts.lookup n =
      if n = mount then some (((m.mounts.lookup mount).getD ∅).insert f x)
      else m.mounts.lookup n :=
  Finmap.lookup_insert' ..

/-- `ioutil.ReadFile` of a file of a directory that may not be there. -/
def readText (d : Option Dir) (f : FileName) : Except ReadErr String :=
  match d.bind (Finmap.lookup f) with
  | none => .error .notExist
  | some (.text s) => .ok s
  | some (.json _) => .error .badFormat

/-- A digest of a file; `""` if the file is not there. -/
def readParent (d : Option Dir) : Except ReadErr ChainID :=
  match readText d .parent with
  | .error .notExist => .ok ""
  | .error e => .error e
  | .ok s =>
    match parseDigest (trimSpace s) with
    | .ok c => .ok c
    | .error e => .error (.digest e)

/-- An ID of a file. -/
def readID (d : Option Dir) (f : FileName) : Except ReadErr String :=
  match readText d f with
  | .error e => .error e
  | .ok s => if matchesStringID (trimSpace s) then .ok (trimSpace s) else .error .invalidID

def getSize (m : MetadataStore) (layer : ChainID) : Except ReadErr Int64 :=
  match readText (m.layers.lookup layer) .size with
  | .error e => .error e
  | .ok s =>
    match parseInt s with
    | none => .error .badFormat
    | some n => .ok n

def getParent (m : MetadataStore) (layer : ChainID) : Except ReadErr ChainID :=
  readParent (m.layers.lookup layer)

def getDiffID (m : MetadataStore) (layer : ChainID) : Except ReadErr DiffID :=
  match readText (m.layers.lookup layer) .diff with
  | .error e => .error e
  | .ok s =>
    match parseDigest (trimSpace s) with
    | .ok d => .ok d
    | .error e => .error (.digest e)

def getCacheID (m : MetadataStore) (layer : ChainID) : Except ReadErr String :=
  readID (m.layers.lookup layer) .cacheID

/-- `GetDescriptor`: an empty descriptor if none is stored. -/
def getDescriptor (m : MetadataStore) (layer : ChainID) : Except ReadErr Descriptor :=
  match (m.layers.lookup layer).bind (Finmap.lookup .descriptor) with
  | none => .ok {}
  | some (.json j) => .ok j.unmarshal
  | some (.text _) => .error .badFormat

def getMountID (m : MetadataStore) (mount : String) : Except ReadErr String :=
  readID (m.mounts.lookup mount) .mountID

/-- `GetInitID`: `""` if none is stored. -/
def getInitID (m : MetadataStore) (mount : String) : Except ReadErr String :=
  match readID (m.mounts.lookup mount) .initID with
  | .error .notExist => .ok ""
  | r => r

def getMountParent (m : MetadataStore) (mount : String) : Except ReadErr ChainID :=
  readParent (m.mounts.lookup mount)

/-! ### Reading back -/

variable {d : Dir} {f : FileName}

theorem readText_of_lookup {s : String} (h : d.lookup f = some (.text s)) : readText (some d) f = .ok s := by
  simp only [readText, Option.bind_some, h]

theorem readText_of_none (h : d.lookup f = none) : readText (some d) f = .error .notExist := by
  simp only [readText, Option.bind_some, h]

/-- A parent that is stored reads back. -/
theorem readParent_of_lookup {H : Hash} {b : List UInt8} (h : d.lookup .parent = some (.text (H.fromBytes b))) :
    readParent (some d) = .ok (H.fromBytes b) := by
  simp only [readParent, readText_of_lookup h, parseDigest_fromBytes]

theorem readParent_of_none (h : d.lookup .parent = none) : readParent (some d) = .ok "" := by
  simp only [readParent, readText_of_none h]

theorem isSpace_init : ∀ c ∈ "-init".toList, isSpace c = false := by
  have h : "-init".toList.all (fun c => !isSpace c) = true := by decide
  intro c hc
  simpa using List.all_eq_true.mp h c hc

/-- The strings of `stringIDRegexp`. -/
theorem matchesStringID_iff {s : String} :
    matchesStringID s = true ↔ IsHex64 s ∨ ∃ id, IsHex64 id ∧ s = id ++ "-init" := by
  have hsplit : s.toList.take 64 ++ s.toList.drop 64 = s.toList := List.take_append_drop ..
  constructor
  · intro h
    simp only [matchesStringID, Bool.and_eq_true, Bool.or_eq_true, decide_eq_true_eq] at h
    obtain ⟨⟨hlen, hhex⟩, hrest⟩ := h
    have hid : IsHex64 (String.ofList (s.toList.take 64)) := by
      refine ⟨?_, ?_⟩
      · rw [← String.length_toList, String.toList_ofList, hlen]
      · rw [String.toList_ofList]
        exact List.all_eq_true.mp hhex
    rcases hrest with hrest | hrest <;> rw [hrest] at hsplit
    · rw [List.append_nil] at hsplit
      rw [hsplit, String.ofList_toList] at hid
      exact .inl hid
    · refine .inr ⟨_, hid, String.toList_inj.mp ?_⟩
      rw [String.toList_append, String.toList_ofList, hsplit]
  · have hmatch {id : String} (h : IsHex64 id) (t : String) (ht : t = "" ∨ t = "-init") :
        matchesStringID (id ++ t) = true := by
      have hl : id.toList.length = 64 := by rw [String.length_toList]; exact h.1
      have hall : id.toList.all isHexLower = true := List.all_eq_true.mpr h.2
      simp only [matchesStringID, String.toList_append, List.take_left' hl, List.drop_left' hl, hl, hall]
      rcases ht with rfl | rfl <;> decide
    rintro (h | ⟨id, h, rfl⟩)
    · have := hmatch h "" (.inl rfl)
      rwa [String.append_empty] at this
    · exact hmatch h "-init" (.inr rfl)

theorem isSpace_of_matchesStringID {s : String} (h : matchesStringID s = true) : ∀ c ∈ s.toList, isSpace c = false := by
  intro c hc
  rcases matchesStringID_iff.mp h with hid | ⟨id, hid, rfl⟩
  · exact isSpace_of_isHexLower (hid.2 c hc)
  · rw [String.toList_append] at hc
    rcases List.mem_append.mp hc with hc | hc
    · exact isSpace_of_isHexLower (hid.2 c hc)
    · exact isSpace_init c hc

/-- An ID that is stored reads back. -/
theorem readID_of_lookup {id : String} (h : matchesStringID id = true) (hd : d.lookup f = some (.text id)) :
    readID (some d) f = .ok id := by
  simp only [readID, readText_of_lookup hd, trimSpace_of_forall (isSpace_of_matchesStringID h), h, if_true]

theorem matchesStringID_of_readID {d : Option Dir} {id : String} (h : readID d f = .ok id) :
    matchesStringID id = true := by
  unfold readID at h
  split at h
  · cases h
  · split at h
    · cases h
      assumption
    · cases h

/-- What `List` returns: the layers, of the one supported algorithm and with
a valid digest, and the mounts, in whatever order the directories are
read. -/
def Lists (m : MetadataStore) (ids : List ChainID) (mounts : List String) : Prop :=
  (ids.Nodup ∧ ∀ id, id ∈ ids ↔ id ∈ m.layers ∧ algorithm id = "sha256" ∧ validate id = .ok ()) ∧
  mounts.Nodup ∧ ∀ n, n ∈ mounts ↔ n ∈ m.mounts

end MetadataStore

end Moby.Layer
