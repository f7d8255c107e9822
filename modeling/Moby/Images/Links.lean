import Moby.Images.Store
import Moby.Layer.RefInv

/-!
# The links between images, and the layers they hold

What the store keeps of an image beside its configuration: the file that names
its parent, the children that it lists for an image, and the reference to the
layer of an image; what each operation does to them.
-/

namespace Moby.Images

open Moby.Framework Moby.Digest

namespace World

/-- The parent that the metadata of `id` names. -/
def parentFile (w : World) (id : ID) : Option ID := (w.fs.metadata id).lookup "parent"

/-- The layer of an image that is there. -/
def layerOf (w : World) (id : ID) : Option (Option Layer.LayerRef) := (w.images.lookup id).map (·.layer)

/-- The references to layers that the images hold. -/
def held (w : World) : Multiset Layer.LayerRef := w.images.values.filterMap (·.layer)

section

variable {w : World} {p q c id : ID}

theorem layerOf_isSome : (w.layerOf id).isSome ↔ id ∈ w.images := by
  rw [layerOf, Option.isSome_map, Finmap.lookup_isSome]

theorem children_of_lookup {m : ImageMeta} (h : w.images.lookup id = some m) : w.children id = m.children := by
  rw [children, h]

theorem children_of_notMem (h : id ∉ w.images) : w.children id = ∅ := by
  rw [children, Finmap.lookup_eq_none.mpr h]

/-- The worlds differ in the children of their images only. -/
structure SameButChildren (w w' : World) : Prop where
  fs : w'.fs = w.fs
  ls : w'.ls = w.ls
  layerOf : ∀ id, w'.layerOf id = w.layerOf id
  held : w'.held = w.held

theorem SameButChildren.refl (w : World) : SameButChildren w w := ⟨rfl, rfl, fun _ => rfl, rfl⟩

theorem SameButChildren.trans {w₁ w₂ : World} (h₁ : SameButChildren w w₁) (h₂ : SameButChildren w₁ w₂) :
    SameButChildren w w₂ :=
  ⟨h₂.fs.trans h₁.fs, h₂.ls.trans h₁.ls, fun id => (h₂.layerOf id).trans (h₁.layerOf id), h₂.held.trans h₁.held⟩

theorem SameButChildren.mem {w' : World} (h : SameButChildren w w') : id ∈ w'.images ↔ id ∈ w.images := by
  rw [← layerOf_isSome, ← layerOf_isSome, h.layerOf]

/-- An image gets other children. -/
theorem setChildren {m : ImageMeta} (hm : w.images.lookup p = some m) (cs : Finset ID) :
    SameButChildren w { w with images := w.images.insert p { m with children := cs } } ∧
    ∀ q, { w with images := w.images.insert p { m with children := cs } }.children q =
      if q = p then cs else w.children q := by
  refine ⟨⟨rfl, rfl, fun id => ?_, ?_⟩, fun q => ?_⟩
  · rw [layerOf, layerOf, Finmap.lookup_insert']
    by_cases e : id = p
    · rw [if_pos e, e, hm]; rfl
    · rw [if_neg e]
  · rw [held, held, Finmap.values_insert', Finmap.values_of_lookup hm, filterMap_cons, filterMap_cons]
  · by_cases e : q = p
    · rw [if_pos e, e, children, Finmap.lookup_insert]
    · rw [if_neg e, children, Finmap.lookup_insert', if_neg e, children]

theorem removeChild_spec (w : World) (p c : ID) : SameButChildren w (w.removeChild p c) ∧
    ∀ q, (w.removeChild p c).children q = if q = p then (w.children p).erase c else w.children q := by
  unfold removeChild
  cases hm : w.images.lookup p with
  | none =>
    refine ⟨.refl w, fun q => ?_⟩
    by_cases e : q = p
    · rw [if_pos e, e, children_of_notMem (Finmap.lookup_eq_none.mp hm)]; rfl
    · rw [if_neg e]
  | some m =>
    rw [children_of_lookup hm]
    exact setChildren hm _

theorem addChild_spec (w : World) (c : ID) (hp : p ∈ w.images) : SameButChildren w (w.addChild p c) ∧
    ∀ q, (w.addChild p c).children q = if q = p then insert c (w.children p) else w.children q := by
  unfold addChild
  cases hm : w.images.lookup p with
  | none => exact absurd hp (Finmap.lookup_eq_none.mp hm)
  | some m =>
    rw [children_of_lookup hm]
    exact setChildren hm _

theorem unlink_same (H : Hash) (w : World) (id : ID) : SameButChildren w (w.unlink H id) := by
  unfold unlink
  cases w.getParent H id with
  | error e => exact .refl w
  | ok p => exact (removeChild_spec w p id).1

/-- What `Delete` leaves in the backend and in the map. -/
theorem delete_spec {H : Hash} {m : ImageMeta} (hm : w.images.lookup id = some m) :
    (w.delete H id).2.fs = ((w.fs.deleteEach m.children "parent").delete id).2 ∧
    ∀ q, q ∈ (w.delete H id).2.images ↔ q ∈ w.images ∧ q ≠ id := by
  have hsame := unlink_same H { w with fs := w.fs.deleteEach m.children "parent" } id
  simp only [delete, hm]
  generalize World.unlink H _ id = w₂ at hsame ⊢
  have left : (w₂.fs.delete id).2 = ((w.fs.deleteEach m.children "parent").delete id).2 ∧
      ∀ q, q ∈ w₂.images.erase id ↔ q ∈ w.images ∧ q ≠ id :=
    ⟨by rw [hsame.fs], fun q => by rw [Finmap.mem_erase, hsame.mem]; exact and_comm⟩
  cases m.layer with
  | none => exact left
  | some l => rcases e : w₂.ls.release l with ⟨_ | _, ls⟩ <;> simp only [e] <;> exact left

/-- `SetParent` changes neither the configurations nor which images there are. -/
theorem setParent_spec (H : Hash) (w : World) (id parent : ID) :
    (w.setParent H id parent).2.fs.content = w.fs.content ∧
    ∀ q, q ∈ (w.setParent H id parent).2.images ↔ q ∈ w.images := by
  unfold setParent
  cases hm : w.images.lookup parent with
  | none => exact ⟨rfl, fun q => .rfl⟩
  | some m =>
    have hsame₁ := unlink_same H w id
    have hsame := hsame₁.trans (addChild_spec (w.unlink H id) id (hsame₁.mem.mpr (Finmap.mem_of_lookup_eq_some hm))).1
    simp only
    split
    · exact ⟨rfl, fun q => .rfl⟩
    generalize (w.unlink H id).addChild parent id = w₂ at hsame ⊢
    have hset := w₂.fs.setMetadata_content H id "parent" parent
    rcases e : w₂.fs.setMetadata H id "parent" parent with ⟨_ | _, fs⟩ <;> simp only [e] at hset ⊢ <;>
      exact ⟨by rw [hset, hsame.fs], fun q => hsame.mem⟩

/-- The children after both updates of the maps. -/
theorem children_relinked {H : Hash} {parent : ID} (hp : parent ∈ w.images) (q : ID) :
    ((w.unlink H id).addChild parent id).children q =
      if q = parent then insert id (w.children parent)
      else if w.getParent H id = .ok q then (w.children q).erase id else w.children q := by
  have hp' : parent ∈ (w.unlink H id).images := (unlink_same H w id).mem.mpr hp
  rw [(addChild_spec (w.unlink H id) id hp').2]
  unfold unlink
  cases hget : w.getParent H id with
  | error e =>
    by_cases hq : q = parent
    · rw [if_pos hq, if_pos hq]
    · rw [if_neg hq, if_neg hq, if_neg (by simp)]
  | ok p =>
    simp only [(removeChild_spec w p id).2, Except.ok.injEq]
    by_cases hq : q = parent
    · rw [if_pos hq, if_pos hq]
      by_cases hpp : parent = p
      -- the edge that was removed is put back
      · rw [if_pos hpp, ← hpp]
        ext c
        by_cases hc : c = id <;> simp [hc]
      · rw [if_neg hpp]
    · rw [if_neg hq, if_neg hq]
      by_cases hqp : q = p
      · rw [if_pos hqp, if_pos hqp.symm, hqp]
      · rw [if_neg hqp, if_neg (Ne.symm hqp)]

/-- The updates of the maps change nothing exactly if the new edge was there, and no other one
is removed. -/
theorem relinked_iff {H : Hash} {parent : ID} (hp : parent ∈ w.images) :
    (∀ q, ((w.unlink H id).addChild parent id).children q = w.children q) ↔
      id ∈ w.children parent ∧ ∀ p, w.getParent H id = .ok p → p ≠ parent → id ∉ w.children p := by
  constructor
  · intro h
    refine ⟨?_, fun p hget hne hmem => ?_⟩
    · have hparent := h parent
      rw [children_relinked hp, if_pos rfl] at hparent
      exact Finset.insert_eq_self.mp hparent
    · have herase := h p
      rw [children_relinked hp, if_neg hne, if_pos hget] at herase
      exact Finset.erase_eq_self.mp herase hmem
  · rintro ⟨hmem, hother⟩ q
    rw [children_relinked hp]
    by_cases hq : q = parent
    · rw [if_pos hq, hq, Finset.insert_eq_self.mpr hmem]
    · rw [if_neg hq]
      by_cases hget : w.getParent H id = .ok q
      · rw [if_pos hget, Finset.erase_eq_self.mpr (hother q hget hq)]
      · rw [if_neg hget]

end

end World

/-- The configuration of an image is written. -/
def World.wrote (H : Hash) (w : World) (config : List UInt8) : World :=
  { w with fs := { w.fs.tick with content := w.fs.content.insert (H.fromBytes config) config } }

/-! ## Runs -/

section

variable {H : Hash} {decode : Decoder} {S : Set (List UInt8)} {O : Multiset Layer.LayerRef} {w : World}

/-- What `Create` does, run alone: nothing, or the writing of the configuration
and the part under the lock. -/
theorem create_triple {config : List UInt8} {Q : Except Err ID → World × Call → Prop}
    (check : ∀ e, checkConfig decode config = .error e → Q (.error e) (w, .idle))
    (set : ∀ rootFS e b, checkConfig decode config = .ok rootFS →
      (config.length = 0 ∨ w.fs.env w.fs.clock .writeContent = false) → w.fs.SameFiles b →
      Q (.error (.backend e)) ({ w with fs := b }, .idle))
    (publish : ∀ rootFS, checkConfig decode config = .ok rootFS → config.length ≠ 0 →
      w.fs.env w.fs.clock .writeContent = true →
      Q ((w.wrote H config).publish H (H.fromBytes config) rootFS).1
        (((w.wrote H config).publish H (H.fromBytes config) rootFS).2, .idle)) :
    Triple (create H decode config).run (w, .idle) Q := by
  unfold create
  cases hc : checkConfig decode config with
  | error e => exact Triple.ret (check e hc)
  | ok rootFS =>
    refine Triple.bindE (Triple.step fun r s hs => ?_)
    rcases w.fs.set_cases (H := H) config with ⟨hfail, e, b, he, hb⟩ | ⟨hlen, hok, he⟩ <;>
      simp only [he] at hs <;> cases hs
    · exact set rootFS e b hc hfail hb
    · refine Triple.step fun r s hs => ?_
      cases hs
      exact publish rootFS hc hlen hok

end

end Moby.Images
