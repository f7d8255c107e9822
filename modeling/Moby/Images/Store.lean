import Moby.Framework.Calls
import Moby.Images.Backend
import Moby.Layer.Store

/-!
# The image store

`store`, on its backend and on the layer store (`World`), and its operations
as programs of atomic steps: `Create` writes the configuration first and takes
the lock of the store after that, `Delete` and `SetParent` do all that they do
under the lock. `newImageStore` is a store that is built from what the backend
has.
-/

namespace Moby.Images

open Moby.Framework Moby.Digest

/-- `RootFS`. -/
structure RootFS where
  type : String
  diffIDs : List Layer.DiffID
  deriving DecidableEq

/-- `RootFS.ChainID`: the chain ID of the top layer. -/
def RootFS.chainID (H : Hash) (r : RootFS) : Layer.ChainID := Layer.createChainID H r.diffIDs

/-- `History`. -/
structure History where
  emptyLayer : Bool
  deriving DecidableEq

/-- What a configuration decodes to. `RootFS` can be `nil`. -/
structure Config where
  rootFS : Option RootFS
  history : List History
  deriving DecidableEq

/-- `json.Unmarshal` into an `Image`. -/
abbrev Decoder := List UInt8 → Option Config

/-- `Image`, with a `RootFS` that is not `nil`. -/
structure Image where
  rootFS : RootFS
  history : List History
  rawJSON : List UInt8
  computedID : ID
  parent : ID
  deriving DecidableEq

/-- `imageMeta`. -/
structure ImageMeta where
  layer : Option Layer.LayerRef
  children : Finset ID
  deriving DecidableEq

/-- The errors of the image store. `nilRootFS` is a panic. -/
inductive Err where
  | unmarshal
  | noRootFS
  | nilRootFS
  | tooManyLayers
  | unrecognizedImageID (id : ID)
  | unknownParent (id : ID)
  | backend (e : BackendErr)
  | layer (e : Layer.Err)
  | digest (e : Digest.Err)
  deriving DecidableEq

/-- An image store: its backend, the layer store, and its maps. -/
structure World where
  fs : Backend
  ls : Layer.World
  images : Map ID ImageMeta := ∅
  digestSet : Finset ID := ∅

/-! ## Reading -/

/-- `NewFromJSON`, for the image `id` with the parent `parent`. -/
def newFromJSON (decode : Decoder) (src : List UInt8) (id parent : ID) : Except Err Image :=
  match decode src with
  | none => .error .unmarshal
  | some img =>
    match img.rootFS with
    | none => .error .noRootFS
    | some rootFS =>
      .ok { rootFS, history := img.history, rawJSON := src, computedID := id, parent }

namespace World

variable (H : Hash) (decode : Decoder)

/-- `GetParent`. -/
def getParent (w : World) (id : ID) : Except Err ID :=
  match w.fs.getMetadata H id "parent" with
  | .error e => .error (.backend e)
  | .ok d => .ok d

/-- `Get`. -/
def get (w : World) (id : ID) : Except Err Image :=
  match w.fs.get H id with
  | .error e => .error (.backend e)
  | .ok config =>
    newFromJSON decode config id <| match w.getParent H id with
      | .error _ => ""
      | .ok parent => parent

/-- `Children`. -/
def children (w : World) (id : ID) : Finset ID :=
  match w.images.lookup id with
  | none => ∅
  | some m => m.children

/-! ## Writing -/

/-- `is.ls.Get`, if there is a layer. -/
def getLayer (w : World) (chainID : Layer.ChainID) : Except Err (Option Layer.LayerRef) × World :=
  if chainID = "" then (.ok none, w)
  else
    match w.ls.get chainID with
    | (.error e, ls) => (.error (.layer e), { w with ls })
    | (.ok l, ls) => (.ok (some l), { w with ls })

/-- `delete(is.images[id].children, c)`, if the image is there. -/
def removeChild (w : World) (id c : ID) : World :=
  match w.images.lookup id with
  | none => w
  | some m => { w with images := w.images.insert id { m with children := m.children.erase c } }

/-- `is.images[id].children[c] = struct{}{}`, if the image is there. -/
def addChild (w : World) (id c : ID) : World :=
  match w.images.lookup id with
  | none => w
  | some m => { w with images := w.images.insert id { m with children := insert c m.children } }

/-- The link of `id` to its parent is taken from the maps, if there is one. -/
def unlink (w : World) (id : ID) : World :=
  match w.getParent H id with
  | .error _ => w
  | .ok parent => w.removeChild parent id

/-- `Create` under the lock. -/
def publish (w : World) (imageID : ID) (rootFS : RootFS) : Except Err ID × World :=
  if imageID ∈ w.images then (.ok imageID, w)
  else
    match w.getLayer (rootFS.chainID H) with
    | (.error e, w) => (.error e, w)
    | (.ok l, w) =>
      -- `digestSet.Add` checks the digest
      match validate imageID with
      | .error e => (.error (.digest e), { w with images := w.images.erase imageID })
      | .ok () => (.ok imageID,
        { w with
          images := w.images.insert imageID { layer := l, children := ∅ }
          digestSet := insert imageID w.digestSet })

/-- `Delete`. -/
def delete (w : World) (id : ID) : Except Err (List Layer.Metadata) × World :=
  match w.images.lookup id with
  | none => (.error (.unrecognizedImageID id), w)
  | some m =>
    let w := { w with fs := w.fs.deleteEach m.children "parent" }
    let w := w.unlink H id
    let w := { w with
      digestSet := match validate id with
        | .error _ => w.digestSet
        | .ok () => w.digestSet.erase id
      images := w.images.erase id
      fs := (w.fs.delete id).2 }
    match m.layer with
    | none => (.ok [], w)
    | some l =>
      match w.ls.release l with
      | (.error e, ls) => (.error (.layer e), { w with ls })
      | (.ok removed, ls) => (.ok removed, { w with ls })

/-- `SetParent`. An ID that is no digest is met by `GetParent`, with a panic. -/
def setParent (w : World) (id parent : ID) : Except Err Unit × World :=
  match w.images.lookup parent with
  | none => (.error (.unknownParent parent), w)
  | some _ =>
    if ':' ∉ id.toList then (.error (.backend .noSeparator), w)
    else
      let w := w.unlink H id
      let w := w.addChild parent id
      match w.fs.setMetadata H id "parent" parent with
      | (.error e, fs) => (.error (.backend e), { w with fs })
      | (.ok (), fs) => (.ok (), { w with fs })

/-! ## Restoring -/

/-- What `restore` does with an image of the backend. -/
def restoreImage (w : World) (id : ID) : Except Err Unit × World :=
  match w.get H decode id with
  | .error _ => (.ok (), w)
  | .ok img =>
    match w.getLayer (img.rootFS.chainID H) with
    | (.error e, w) => (.error e, w)
    | (.ok l, w) =>
      match validate id with
      | .error e => (.error (.digest e), w)
      | .ok () => (.ok (),
        { w with
          images := w.images.insert id { layer := l, children := ∅ }
          digestSet := insert id w.digestSet })

/-- The walk of `restore` over the images `ids`. -/
def restoreImages (w : World) : List ID → Except Err Unit × World
  | [] => (.ok (), w)
  | id :: ids =>
    match w.restoreImage H decode id with
    | (.error e, w) => (.error e, w)
    | (.ok (), w) => w.restoreImages ids

/-- The second pass of `restore`, which fills in the children of the images,
over `ids`. -/
def restoreChildren (w : World) : List ID → World
  | [] => w
  | id :: ids =>
    match w.getParent H id with
    | .error _ => w.restoreChildren ids
    | .ok parent => (w.addChild parent id).restoreChildren ids

/-- `restore`, where the backend lists the images `ids`. -/
def restore (w : World) (ids : List ID) : Except Err Unit × World :=
  match w.restoreImages H decode ids with
  | (.error e, w) => (.error e, w)
  | (.ok (), w) => (.ok (), w.restoreChildren H (ids.filter (· ∈ w.images)))

end World

/-- `NewImageStore`. -/
def newImageStore (H : Hash) (decode : Decoder) (ids : List ID) (fs : Backend) (ls : Layer.World) :
    Except Err Unit × World :=
  World.restore H decode { fs, ls } ids

/-! ## Calls -/

/-- A call in flight: a `Create` that has written the configuration of an
image and waits for the lock, a `Delete` that waits for it, or any other. -/
inductive Call where
  | idle
  | creating (id : ID)
  | deleting (id : ID)
  deriving DecidableEq

/-- A program of the image store. -/
abbrev P := Prog World Call

/-- A program of the image store that can fail. -/
abbrev IS := ExceptT Err P

/-- What `Create` checks of a configuration. -/
def checkConfig (decode : Decoder) (config : List UInt8) : Except Err RootFS :=
  match decode config with
  | none => .error .unmarshal
  | some img =>
    match img.rootFS with
    -- `img.RootFS.DiffIDs`
    | none => .error .nilRootFS
    | some rootFS =>
      if (img.history.filter fun h => !h.emptyLayer).length > rootFS.diffIDs.length then .error .tooManyLayers
      else .ok rootFS

/-- `is.fs.Set`. -/
def setConfig (H : Hash) (config : List UInt8) : IS ID :=
  .mk <| .step fun s =>
    match s.1.fs.set H config with
    | (.error e, fs) => some (.error (.backend e), { s.1 with fs }, s.2)
    | (.ok id, fs) => some (.ok id, { s.1 with fs }, .creating id)

/-- The part of `Create` under the lock. -/
def publish (H : Hash) (imageID : ID) (rootFS : RootFS) : IS ID :=
  .mk <| .step fun s =>
    let (r, w) := s.1.publish H imageID rootFS
    some (r, w, .idle)

/-- `Create`. -/
def create (H : Hash) (decode : Decoder) (config : List UInt8) : IS ID := do
  match checkConfig decode config with
  | .error e => throw e
  | .ok rootFS =>
    let imageID ← setConfig H config
    publish H imageID rootFS

/-- `Delete`. -/
def delete (H : Hash) (id : ID) : P (Except Err (List Layer.Metadata)) := do
  .step fun s => some ((), s.1, .deleting id)
  .step fun s =>
    let (r, w) := s.1.delete H id
    some (r, w, .idle)

/-- `SetParent`. -/
def setParent (H : Hash) (id parent : ID) : P (Except Err Unit) := .atomically (·.setParent H id parent)

/-- A call of the image store. -/
inductive Request where
  | create (config : List UInt8)
  | delete (id : ID)
  | setParent (id parent : ID)

/-- The program of a call, without its result. -/
def Request.prog (H : Hash) (decode : Decoder) : Request → P Unit
  | create config => do let _ ← (Images.create H decode config).run
  | delete id => do let _ ← Images.delete H id
  | setParent id parent => do let _ ← Images.setParent H id parent

end Moby.Images
