import Moby.Layer.Persist

/-!
# Loading layers and mounts

`NewStoreFromGraphDriver` loads the layers and the mounts that the metadata
store lists (`loadLayer`, `loadMount`), a layer after its parent, and counts
each child and each mount of a layer once.
-/

namespace Moby.Layer

open Moby.Framework Moby.Digest

/-! ## Loading -/

/-- Why a layer or a mount cannot be loaded: a file that cannot be read, or
no end of the chain of parents. -/
inductive LoadErr where
  | read (f : FileName) (e : ReadErr)
  | outOfFuel
  deriving DecidableEq

/-- The files of a layer: its fields, and its parent or `""`. -/
def readLayer (m : MetadataStore) (layer : ChainID) : Except LoadErr (LayerInfo × ChainID) := do
  let diffID ← (m.getDiffID layer).mapError (.read .diff)
  let size ← (m.getSize layer).mapError (.read .size)
  let cacheID ← (m.getCacheID layer).mapError (.read .cacheID)
  let parent ← (m.getParent layer).mapError (.read .parent)
  let descriptor ← (m.getDescriptor layer).mapError (.read .descriptor)
  return ({ chainID := layer, diffID, cacheID, size, descriptor }, parent)

/-- `ls.layerMap[cl.chainID] = cl`, of a loaded layer, which nothing holds
yet. -/
def LayerStore.loadedLayer (s : LayerStore) (i : LayerInfo) (p : Option RoLayer) : RoLayer × LayerStore :=
  let l := RoLayer.make s.nextPtr i p
  (l, { s with
    layerMap := s.layerMap.insert i.chainID l
    counters := Function.update s.counters s.nextPtr ⟨0, ∅⟩
    nextPtr := s.nextPtr + 1 })

/-- `loadLayer`, up a chain of at most `fuel` layers. -/
def loadLayer (m : MetadataStore) (fuel : Nat) (layer : ChainID) (s : LayerStore) :
    Except LoadErr RoLayer × LayerStore :=
  match fuel with
  | 0 => (.error .outOfFuel, s)
  | fuel + 1 =>
    match s.layerMap.lookup layer with
    | some cl => (.ok cl, s)
    | none =>
      match readLayer m layer with
      | .error e => (.error e, s)
      | .ok (i, parent) =>
        if parent = "" then
          let (cl, s) := s.loadedLayer i none
          (.ok cl, s)
        else
          match loadLayer m fuel parent s with
          | (.error e, s) => (.error e, s)
          | (.ok p, s) =>
            let (cl, s) := s.loadedLayer i (some p)
            (.ok cl, s)

/-- The files of a mount: its IDs, and its parent or `""`. -/
def readMount (m : MetadataStore) (mount : String) : Except LoadErr (String × String × ChainID) := do
  let mountID ← (m.getMountID mount).mapError (.read .mountID)
  let initID ← (m.getInitID mount).mapError (.read .initID)
  let parent ← (m.getMountParent mount).mapError (.read .parent)
  return (mountID, initID, parent)

/-- `ls.mounts[ml.name] = ml`. -/
def LayerStore.loadedMount (s : LayerStore) (x : MountedLayer) : LayerStore :=
  { s with mounts := s.mounts.insert x.name x }

/-- `loadMount`. -/
def loadMount (m : MetadataStore) (fuel : Nat) (mount : String) (s : LayerStore) :
    Except LoadErr Unit × LayerStore :=
  match s.mounts.lookup mount with
  | some _ => (.ok (), s)
  | none =>
    match readMount m mount with
    | .error e => (.error e, s)
    | .ok (mountID, initID, parent) =>
      let ml (p : Option RoLayer) : MountedLayer :=
        { name := mount, mountID, initID, parent := p, references := ∅ }
      if parent = "" then (.ok (), s.loadedMount (ml none))
      else
        match loadLayer m fuel parent s with
        | (.error e, s) => (.error e, s)
        | (.ok p, s) => (.ok (), (s.retain p).loadedMount (ml (some p)))

/-- The loop of `NewStoreFromGraphDriver` over the layers: one that cannot be
loaded is left out, and the parent of one that can is held. -/
def loadLayers (m : MetadataStore) (fuel : Nat) : List ChainID → LayerStore → LayerStore
  | [], s => s
  | id :: ids, s =>
    match loadLayer m fuel id s with
    | (.error _, s) => loadLayers m fuel ids s
    | (.ok l, s) =>
      loadLayers m fuel ids <| match l.parent with
        | none => s
        | some p => s.retain p

/-- The loop of `NewStoreFromGraphDriver` over the mounts. -/
def loadMounts (m : MetadataStore) (fuel : Nat) : List String → LayerStore → LayerStore
  | [], s => s
  | mount :: mounts, s => loadMounts m fuel mounts (loadMount m fuel mount s).2

/-- `NewStoreFromGraphDriver`, over a metadata store that lists `ids` and
`mounts`. -/
def newStoreFromGraphDriver (fuel : Nat) (m : MetadataStore) (ids : List ChainID)
    (mounts : List String) : LayerStore :=
  loadMounts m fuel mounts (loadLayers m fuel ids {})

/-! ## What reads back -/

/-- The descriptor that reads back: one without a digest is not stored. -/
def Descriptor.stored (d : Descriptor) : Descriptor := if d.digest = "" then {} else d

/-- The fields that read back. -/
def LayerInfo.stored (i : LayerInfo) : LayerInfo := { i with descriptor := i.descriptor.stored }

section

variable {i : LayerInfo} {p : Option RoLayer} {x : MountedLayer}

theorem lookup_layerDir (f : FileName) : (layerDir i p).lookup f =
    match f with
    | .diff => some (.text i.diffID)
    | .size => some (.text (formatInt i.size))
    | .cacheID => some (.text i.cacheID)
    | .parent => p.map fun q => .text q.chainID
    | .descriptor => if i.descriptor.digest = "" then none else some (.json i.descriptor.marshal)
    | .tarSplit => some (.text "")
    | .mountID | .initID => none := by
  unfold layerDir
  cases p <;> by_cases hd : i.descriptor.digest = "" <;> cases f <;>
    simp [hd, Finmap.lookup_empty]

theorem lookup_mountDir (f : FileName) : (mountDir x).lookup f =
    match f with
    | .mountID => some (.text x.mountID)
    | .initID => if x.initID = "" then none else some (.text x.initID)
    | .parent => x.parent.map fun q => .text q.chainID
    | _ => none := by
  unfold mountDir saveMountDir
  cases x.parent <;> by_cases hi : x.initID = "" <;> cases f <;>
    simp [hi, Finmap.lookup_empty]

end

/-- What a layer store and the metadata of it agree on: the metadata is that
of the layers and of the mounts, and their digests and IDs are well formed. -/
structure Persisted (H : Hash) (s : LayerStore) (m : MetadataStore) : Prop where
  refs : ∃ K, RefInv s K
  layers : ∀ k, m.layers.lookup k = (s.layerMap.lookup k).map fun l => layerDir l.info l.parent
  diffID : ∀ l, s.Live l → ∃ b, l.info.diffID = H.fromBytes b
  chainID : ∀ l, s.Live l → ∃ b, l.chainID = H.fromBytes b
  cacheID : ∀ l, s.Live l → IsHex64 l.cacheID
  depth : ∀ l, s.Live l → l.depth ≤ maxLayerDepth
  mounts : ∀ n, m.mounts.lookup n = (s.mounts.lookup n).map mountDir
  name : ∀ n x, s.mounts.lookup n = some x → x.name = n
  mountID : ∀ n x, s.mounts.lookup n = some x → matchesStringID x.mountID = true
  initID : ∀ n x, s.mounts.lookup n = some x → x.initID = "" ∨ matchesStringID x.initID = true

/-- The chain ID of a parent, or `""`. -/
def parentID (p : Option RoLayer) : ChainID := (p.map RoLayer.chainID).getD ""

namespace Persisted

variable {H : Hash} {s : LayerStore} {m : MetadataStore}

theorem readParent {d : Dir} {p : Option RoLayer} (h : Persisted H s m) (hp : ∀ q, p = some q → s.Live q)
    (hd : d.lookup .parent = p.map fun q => .text q.chainID) :
    MetadataStore.readParent (some d) = .ok (parentID p) := by
  cases p with
  | none => exact MetadataStore.readParent_of_none hd
  | some q =>
    obtain ⟨b, hb⟩ := h.chainID q (hp q rfl)
    show _ = Except.ok q.chainID
    rw [hb]
    exact MetadataStore.readParent_of_lookup (hd.trans (by rw [Option.map_some, hb]))

/-- The files of a layer read back as they were written. -/
theorem readLayer {l : RoLayer} (h : Persisted H s m) (hl : s.Live l) :
    readLayer m l.chainID = .ok (l.info.stored, parentID l.parent) := by
  obtain ⟨K, hK⟩ := h.refs
  have hd : m.layers.lookup l.chainID = some (layerDir l.info l.parent) := by
    rw [h.layers, show s.layerMap.lookup l.chainID = some l from hl]; rfl
  have hdiff : m.getDiffID l.chainID = .ok l.info.diffID := by
    obtain ⟨b, hb⟩ := h.diffID l hl
    rw [MetadataStore.getDiffID, hd, MetadataStore.readText_of_lookup (lookup_layerDir .diff), hb]
    simp only [parseDigest_fromBytes]
  have hsize : m.getSize l.chainID = .ok l.info.size := by
    rw [MetadataStore.getSize, hd, MetadataStore.readText_of_lookup (lookup_layerDir .size)]
    simp only [parseInt_formatInt]
  have hcache : m.getCacheID l.chainID = .ok l.info.cacheID := by
    rw [MetadataStore.getCacheID, hd]
    exact MetadataStore.readID_of_lookup (MetadataStore.matchesStringID_iff.mpr (.inl (h.cacheID l hl)))
      (lookup_layerDir .cacheID)
  have hparent : m.getParent l.chainID = .ok (parentID l.parent) := by
    rw [MetadataStore.getParent, hd]
    exact h.readParent (fun q hq => hK.parent l q hl hq) (lookup_layerDir .parent)
  have hdesc : m.getDescriptor l.chainID = .ok l.info.descriptor.stored := by
    simp only [MetadataStore.getDescriptor, hd, Option.bind_some, lookup_layerDir, Descriptor.stored]
    split_ifs
    · rfl
    · simp only [unmarshal_marshal]
  unfold Layer.readLayer
  rw [hdiff, hsize, hcache, hparent, hdesc]
  rfl

/-- The files of a mount read back as they were written. -/
theorem readMount {n : String} {x : MountedLayer} (h : Persisted H s m) (hx : s.mounts.lookup n = some x) :
    readMount m n = .ok (x.mountID, x.initID, parentID x.parent) := by
  obtain ⟨K, hK⟩ := h.refs
  have hd : m.mounts.lookup n = some (mountDir x) := by rw [h.mounts, hx]; rfl
  have hmount : m.getMountID n = .ok x.mountID := by
    rw [MetadataStore.getMountID, hd]
    exact MetadataStore.readID_of_lookup (h.mountID n x hx) (lookup_mountDir .mountID)
  have hinit : m.getInitID n = .ok x.initID := by
    rw [MetadataStore.getInitID, hd]
    by_cases hi : x.initID = ""
    · have : MetadataStore.readID (some (mountDir x)) .initID = .error .notExist := by
        rw [MetadataStore.readID, MetadataStore.readText_of_none (by simp [lookup_mountDir, hi])]
      rw [this, hi]
    · rw [MetadataStore.readID_of_lookup ((h.initID n x hx).resolve_left hi) (by simp [lookup_mountDir, hi])]
  have hparent : m.getMountParent n = .ok (parentID x.parent) := by
    rw [MetadataStore.getMountParent, hd]
    exact h.readParent (fun q hq => hK.mount n x q hx hq) (lookup_mountDir .parent)
  unfold Layer.readMount
  rw [hmount, hinit, hparent]
  rfl

end Persisted

end Moby.Layer
