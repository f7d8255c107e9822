import Moby.Framework.Fallible
import Moby.Framework.Map
import Moby.Layer.Types
import Moby.Reference.Store

/-!
# Loading images from an archive

`Load` of `image/tarexport/load.go`, for an archive with a manifest, on the
three stores as their users see them (`Stores`). `legacyLoad`, for one without,
is in `Moby.Tarexport.Legacy`.
-/

namespace Moby.Tarexport

open Framework
open Layer (DiffID)
open Reference (parseNamed)

abbrev ID := String

abbrev Bytes := List UInt8

abbrev Chain := List DiffID

/-- `image.History`. -/
structure History where
  created : String := ""
  author : String := ""
  createdBy : String := ""
  comment : String := ""
  emptyLayer : Bool := false
  deriving DecidableEq

/-- What an image's configuration decodes to, without the fields of its
`V1Image`. -/
structure Config where
  diffIDs : Chain
  history : List History := []
  deriving DecidableEq

/-- What is outside of the package: the decoder of a configuration, which must
have a `RootFS`, the digest of a configuration, and the DiffID of a layer's
tar, if it can be registered. -/
structure Codec where
  decode : Bytes → Option Config
  imageID : Bytes → ID
  diffID : Bytes → Option DiffID

/-- `tarexporter`: the configurations of the images and their parents, the
layers that are there, and the reference store. -/
structure Stores (c : Codec) where
  images : Map ID Bytes := ∅
  parents : Map ID ID := ∅
  layers : Finset Chain := ∅
  refs : Reference.Store
  /-- An image is named by the digest of its configuration. -/
  named : ∀ {id config}, images.lookup id = some config → c.imageID config = id := by simp

/-- `manifestItem`, without the sources of foreign layers. -/
structure ManifestItem where
  config : String
  repoTags : List String := []
  layers : List String := []
  parent : ID := ""
  deriving DecidableEq

/-- An extracted archive: its manifest, and the file that a path leads to,
symbolic links followed (`safePath`). -/
structure Archive where
  manifest : List ManifestItem
  file : String → Option Bytes

inductive Err
  | noFile (path : String)
  | invalidConfig
  | layersMismatch (expected actual : ℕ)
  | noLayer (path : String)
  | noParentLayer
  | invalidDiffID (expected actual : DiffID)
  | tooManyLayers
  | invalidTag (repoTag : String)
  | noImage (id : ID)
  | invalidParent (parent id : ID)
  deriving DecidableEq

/-! ## Parent links -/

/-- `parentLink`. -/
structure ParentLink where
  id : ID
  parentID : ID
  deriving DecidableEq

/-- `validatedParentLinks`: the links to images that are not among them are
dropped. -/
def validatedParentLinks (pl : List ParentLink) : List ParentLink :=
  pl.map fun p => if pl.any fun p2 => p2.id = p.parentID ∧ p2.id ≠ p.id then p else { p with parentID := "" }

/-- `checkValidParent`. -/
def checkValidParent (img parent : Config) : Bool :=
  if img.history.length = 0 ∧ parent.history.length = 0 then true
  else if (img.history.length : ℤ) - parent.history.length ≠ 1 then false
  else parent.history = img.history.take parent.history.length

namespace Stores

variable {c : Codec}

/-- `is.Get`. -/
def get (s : Stores c) (id : ID) : Except Err Config :=
  match (s.images.lookup id).bind c.decode with
  | none => .error (.noImage id)
  | some img => .ok img

/-- The image of a configuration is there. -/
def put (s : Stores c) (config : Bytes) : Stores c :=
  { s with
    images := s.images.insert (c.imageID config) config
    named := by
      intro id config' h
      rw [Finmap.lookup_insert'] at h
      split_ifs at h with hid
      · cases h; exact hid.symm
      · exact s.named h }

/-- A layer is there. -/
def addLayer (s : Stores c) (l : Chain) : Stores c := { s with layers := insert l s.layers }

/-- `layer.ReleaseAndLog` of the layers that a `Load` has taken: those that were
not there before it (`before`) and that no image has are removed. -/
def releaseLayers (s : Stores c) (before : Finset Chain) : Stores c :=
  { s with layers := s.layers.filter fun l => l ∈ before ∨
    ∃ id ∈ s.images.keys, ∃ img ∈ (s.images.lookup id).bind c.decode, l <+: img.diffIDs }

/-- `setLoadedTag`; an error of the reference store is dropped. -/
def setLoadedTag (s : Stores c) (ref : Reference.Named) (imgID : ID) : Stores c :=
  { s with refs := (s.refs.addTag ref imgID true).2 }

end Stores

/-- A program of the `tarexporter`. -/
abbrev Load (c : Codec) := Fallible Err (Stores c)

variable {c : Codec}

/-! ## Images -/

/-- `is.Get`. -/
def getImage (id : ID) : Load c Config := do
  match (← get).get id with
  | .error e => throw e
  | .ok img => return img

/-- `is.SetParent`. -/
def setParent (id parentID : ID) : Load c Unit := do
  let s ← get
  if parentID ∈ s.images then set { s with parents := s.parents.insert id parentID }
  else throw (.noImage parentID)

def setParentID (id parentID : ID) : Load c Unit := do
  let img ← getImage id
  let parent ← getImage parentID
  if checkValidParent img parent then setParent id parentID
  else throw (.invalidParent parentID id)

/-- `is.Create`. -/
def create (config : Bytes) : Load c ID := do
  match c.decode config with
  | none => throw .invalidConfig
  | some img =>
    if (img.history.filter fun h => !h.emptyLayer).length > img.diffIDs.length then throw .tooManyLayers
    else
      let s ← get
      if c.imageID config ∈ s.images then return c.imageID config
      else if img.diffIDs ≠ [] ∧ img.diffIDs ∉ s.layers then throw .noParentLayer
      else
        set (s.put config)
        return c.imageID config

/-! ## Layers -/

/-- `loadLayer`: the data at `path` are registered on the layer `rootFS`. -/
def loadLayer (file : String → Option Bytes) (path : String) (rootFS : Chain) : Load c Chain := do
  match (file path).bind c.diffID with
  | none => throw (.noLayer path)
  | some diffID =>
    let s ← get
    if rootFS ≠ [] ∧ rootFS ∉ s.layers then throw .noParentLayer
    else
      set (s.addLayer (rootFS ++ [diffID]))
      return rootFS ++ [diffID]

/-- A layer of an image is there already, or is loaded. -/
def getLayer (a : Archive) (path : String) (rootFS : Chain) (diffID : DiffID) : Load c Chain := do
  if rootFS ++ [diffID] ∈ (← get).layers then return rootFS ++ [diffID]
  else loadLayer a.file path rootFS

/-- The loop over the layers of an image, from `rootFS` up. -/
def loadLayers (a : Archive) (rootFS : Chain) : List (DiffID × String) → Load c Unit
  | [] => return
  | (diffID, path) :: rest => do
    let newLayer ← getLayer a path rootFS diffID
    if newLayer.getLastD "" ≠ diffID then throw (.invalidDiffID diffID (newLayer.getLastD ""))
    else loadLayers a (rootFS ++ [diffID]) rest

/-! ## Tags -/

/-- The loop over the tags of an image. -/
def loadTags (imgID : ID) : List String → Load c Unit
  | [] => return
  | repoTag :: rest => do
    match parseNamed repoTag with
    | .error _ => throw (.invalidTag repoTag)
    | .ok ref =>
      match ref.suffix with
      | .tag _ =>
        modify (·.setLoadedTag ref imgID)
        loadTags imgID rest
      | _ => throw (.invalidTag repoTag)

/-! ## Load -/

/-- An image of the manifest. -/
def loadItem (a : Archive) (m : ManifestItem) : Load c ID := do
  match a.file m.config with
  | none => throw (.noFile m.config)
  | some config =>
    match c.decode config with
    | none => throw .invalidConfig
    | some img =>
      if m.layers.length ≠ img.diffIDs.length then throw (.layersMismatch m.layers.length img.diffIDs.length)
      else
        loadLayers a [] (img.diffIDs.zip m.layers)
        let imgID ← create config
        loadTags imgID m.repoTags
        return imgID

/-- The loop over the manifest; `pl` are the parent links so far. -/
def loadItems (a : Archive) (pl : List ParentLink) : List ManifestItem → Load c (List ParentLink)
  | [] => return pl
  | m :: ms => do
    let imgID ← loadItem a m
    loadItems a (pl ++ [⟨imgID, m.parent⟩]) ms

/-- The loop over the validated links. -/
def setParents : List ParentLink → Load c Unit
  | [] => return
  | p :: pl => do
    if p.parentID = "" then setParents pl
    else
      setParentID p.id p.parentID
      setParents pl

/-- `Load`, without the release of the layers at its end. -/
def loadManifest (a : Archive) : Load c Unit := do
  let pl ← loadItems a [] a.manifest
  setParents (validatedParentLinks pl)

/-- `Load`. -/
def load (a : Archive) (s : Stores c) : Except Err Unit × Stores c :=
  let r := (loadManifest a).exec s
  (r.1, r.2.releaseLayers s.layers)

/-! ## Sample configurations -/

/-- Two configurations without a history. -/
def configA : Bytes := bytesOf "\x7b\"rootfs\":\x7b\x7d,\"author\":\"a\"\x7d"

def configB : Bytes := bytesOf "\x7b\"rootfs\":\x7b\x7d,\"author\":\"b\"\x7d"

/-- A configuration with a history of one entry. -/
def childConfig : Bytes := bytesOf "\x7b\"rootfs\":\x7b\x7d,\"history\":[\x7b\"empty_layer\":true\x7d]\x7d"

/-- The DiffID of a layer whose tar has no bytes. -/
def emptyDiffID : DiffID := "sha256:e3b0c44298fc1c149afbf4c8996fb92427ae41e4649b934ca495991b7852b855"

/-- A configuration with a history of one entry, for this layer. -/
def layerConfig : Bytes := bytesOf (
  "\x7b\"created\":\"2016-11-01T00:00:00Z\",\"rootfs\":\x7b\"type\":\"layers\",\"diff_ids\":[\"" ++ emptyDiffID ++
  "\"]\x7d,\"history\":[\x7b\"created\":\"2016-11-01T00:00:00Z\"\x7d]\x7d")

/-- SHA-256 of no bytes and of the configurations. -/
def sampleHash : Digest.Hash :=
  .ofTable [([], Digest.emptySum),
    (configA, ⟨"75b3099608acbbbe43b612bb113f0fc5300187a16155875e02f2d055ba294d21", by decide⟩),
    (configB, ⟨"63885b2f284a5ce54f371db152372186472f0b2eb2a451027031b66ad4a5b24d", by decide⟩),
    (childConfig, ⟨"85db2c1932749cc6d02c812f417eebef606800bc507f661aca91e85805c64b35", by decide⟩),
    (layerConfig, ⟨"f92a3ebe62c9fa792ad595780505650d3e549688a92d33ba1b9a7c57745eeccc", by decide⟩)]

def sampleCodec : Codec where
  decode b :=
    if b = configA ∨ b = configB then some ⟨[], []⟩
    else if b = childConfig then some ⟨[], [{ emptyLayer := true }]⟩
    else if b = layerConfig then some ⟨[emptyDiffID], [{ created := "2016-11-01T00:00:00Z" }]⟩
    else none
  imageID := sampleHash.fromBytes
  diffID b := some (sampleHash.fromBytes b)

def emptyStores (c : Codec) : Stores c := { refs := { env := fun _ => true } }

end Moby.Tarexport
