import Moby.Digest
import Moby.Framework.Map
import Mathlib.Data.Finset.Card

/-!
# Layers

The data of the layer store: read-only layers (`RoLayer`), mounted layers
(`MountedLayer`), the handles that callers get of them, and chain IDs.
-/

namespace Moby.Layer

open Moby.Framework Moby.Digest

/-- The content hash of a chain of layers; `""` for no layer. -/
abbrev ChainID := String

/-- The content hash of one layer's tar archive. -/
abbrev DiffID := String

/-- `maxLayerDepth`: the maximum number of layers which can be chained
together. -/
def maxLayerDepth : Nat := 125

/-- `distribution.Descriptor`. -/
structure Descriptor where
  mediaType : String := ""
  size : Int64 := 0
  digest : String := ""
  urls : List String := []
  deriving DecidableEq

/-- The fields of a `roLayer` that the metadata store keeps. -/
structure LayerInfo where
  chainID : ChainID
  diffID : DiffID
  cacheID : String
  size : Int64
  descriptor : Descriptor
  deriving DecidableEq

/-- `roLayer`: a base layer, or a layer on its parent, at an address. -/
inductive RoLayer where
  | base (ptr : Nat) (info : LayerInfo)
  | child (ptr : Nat) (info : LayerInfo) (parent : RoLayer)
  deriving DecidableEq

namespace RoLayer

def ptr : RoLayer → Nat
  | base a _ => a
  | child a _ _ => a

def info : RoLayer → LayerInfo
  | base _ i => i
  | child _ i _ => i

def parent : RoLayer → Option RoLayer
  | base _ _ => none
  | child _ _ p => some p

/-- A layer at `a` on `p`, if there is a parent. -/
def make (a : Nat) (i : LayerInfo) : Option RoLayer → RoLayer
  | none => base a i
  | some p => child a i p

def chainID (l : RoLayer) : ChainID := l.info.chainID

def cacheID (l : RoLayer) : String := l.info.cacheID

/-- The number of layers from `l` down to its base. -/
def depth : RoLayer → Nat
  | base _ _ => 1
  | child _ _ p => p.depth + 1

/-- `Size`: the size of the layer and all its parents. -/
def totalSize : RoLayer → Int64
  | base _ i => i.size
  | child _ i p => p.totalSize + i.size

@[simp] theorem ptr_make (a : Nat) (i : LayerInfo) (p : Option RoLayer) : (make a i p).ptr = a := by
  cases p <;> rfl

@[simp] theorem info_make (a : Nat) (i : LayerInfo) (p : Option RoLayer) : (make a i p).info = i := by
  cases p <;> rfl

@[simp] theorem parent_make (a : Nat) (i : LayerInfo) (p : Option RoLayer) :
    (make a i p).parent = p := by
  cases p <;> rfl

theorem depth_make (a : Nat) (i : LayerInfo) (p : Option RoLayer) :
    (make a i p).depth = p.elim 0 depth + 1 := by
  cases p <;> rfl

theorem one_le_depth (l : RoLayer) : 1 ≤ l.depth := by
  cases l with
  | base => exact le_refl 1
  | child a i p => exact Nat.le_add_left 1 p.depth

theorem depth_of_parent {l p : RoLayer} (h : l.parent = some p) : l.depth = p.depth + 1 := by
  cases l with
  | base => cases h
  | child a i q => obtain rfl : q = p := Option.some.inj h; rfl

theorem ne_of_parent {l p : RoLayer} (h : l.parent = some p) : p ≠ l := by
  rintro rfl
  have := depth_of_parent h
  omega

end RoLayer

/-- The fields of a `roLayer` that change: `referenceCount` and `references`,
each reference a pointer. -/
structure Counter where
  referenceCount : Nat
  references : Finset Nat

/-- A `Layer` that a caller holds: `referencedCacheLayer`, a pointer of its
own (`ref`) to the layer. -/
structure LayerRef where
  layer : RoLayer
  ref : Nat
  deriving DecidableEq

/-- `mountedLayer`. An `initID` of `""` is none. -/
structure MountedLayer where
  name : String
  mountID : String
  initID : String
  parent : Option RoLayer
  references : Finset Nat
  deriving DecidableEq

/-- An `RWLayer` that a caller holds: `referencedRWLayer`. -/
structure RWLayerRef where
  name : String
  ref : Nat

/-- What a release reports of a layer that it removed. -/
structure Metadata where
  chainID : ChainID
  diffID : DiffID
  size : Int64
  diffSize : Int64

/-- `createChainIDFromParent`. -/
def createChainIDFromParent (H : Hash) : ChainID → List DiffID → ChainID
  | parent, [] => parent
  | parent, d :: ds =>
    if parent = "" then createChainIDFromParent H d ds
    else createChainIDFromParent H (H.fromBytes (bytesOf (parent ++ " " ++ d))) ds

/-- `CreateChainID`. -/
def createChainID (H : Hash) (dgsts : List DiffID) : ChainID := createChainIDFromParent H "" dgsts

end Moby.Layer
