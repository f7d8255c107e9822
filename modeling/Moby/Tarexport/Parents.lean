import Moby.Framework.Acyclic
import Moby.Framework.Machine
import Moby.Tarexport.Load

/-!
# The parents of loaded images

`Load` links an image to the parent its manifest gives it, if that is loaded
with it and `checkValidParent` allows it: the parent's history is one entry
shorter, or neither has a history. Links to shorter histories make no cycle,
but links between images without history may.
-/

namespace Moby.Tarexport

open Framework

variable {c : Codec}

/-! ## Images are only added -/

/-- The configurations of an archive. -/
def Archive.configs (a : Archive) : Set Bytes := { config | ∃ m ∈ a.manifest, a.file m.config = some config }

def Stores.configs (s : Stores c) : Set Bytes := { config | ∃ id, s.images.lookup id = some config }

/-- What loading the images of an archive does to the stores: their parents
stay as they are, every image stays, and the new ones are of the archive. -/
structure Extends (a : Archive) (s s' : Stores c) : Prop where
  parents : s'.parents = s.parents
  images : ∀ {id config}, s.images.lookup id = some config → s'.images.lookup id = some config
  configs : s'.configs ⊆ s.configs ∪ a.configs

/-- The images and their parents stay as they are. -/
theorem Extends.of_images {a : Archive} {s s' : Stores c} (hi : s'.images = s.images) (hp : s'.parents = s.parents) :
    Extends a s s' :=
  ⟨hp, fun h => hi ▸ h, fun _ ⟨id, h⟩ => .inl ⟨id, hi ▸ h⟩⟩

theorem Extends.rfl {a : Archive} {s : Stores c} : Extends a s s := ⟨by rfl, id, Set.subset_union_left⟩

instance (a : Archive) : Std.Refl (Extends (c := c) a) := ⟨fun _ => .rfl⟩

theorem Extends.trans {a : Archive} {s₁ s₂ s₃ : Stores c} (h₁ : Extends a s₁ s₂) (h₂ : Extends a s₂ s₃) :
    Extends a s₁ s₃ := by
  refine ⟨h₂.parents.trans h₁.parents, fun h => h₂.images (h₁.images h), fun config h => ?_⟩
  rcases h₂.configs h with h | h
  · exact h₁.configs h
  · exact .inr h

instance (a : Archive) : IsTrans (Stores c) (Extends a) := ⟨fun _ _ _ => Extends.trans⟩

theorem Extends.get {a : Archive} {s s' : Stores c} (h : Extends a s s') {id : ID} {img : Config} (hg : s.get id = .ok img) :
    s'.get id = .ok img := by
  unfold Stores.get at hg ⊢
  cases hl : s.images.lookup id with
  | none => rw [hl] at hg; cases hg
  | some config => rw [h.images hl, ← hl]; exact hg

theorem Stores.extends_put {a : Archive} {s : Stores c} {config : Bytes} (hid : c.imageID config ∉ s.images)
    (ha : config ∈ a.configs) : Extends a s (s.put config) := by
  refine ⟨rfl, fun {id config'} h => ?_, fun config' ⟨id, h⟩ => ?_⟩
  · rw [put, Finmap.lookup_insert', if_neg]
    · exact h
    · rintro rfl
      exact hid (Finmap.mem_of_lookup_eq_some h)
  · rw [put, Finmap.lookup_insert'] at h
    split_ifs at h
    · cases h; exact .inr ha
    · exact .inl ⟨id, h⟩

theorem loadLayer_extends (a : Archive) (file : String → Option Bytes) (path : String) (rootFS : Chain) :
    Keeps (Extends a) (loadLayer file path rootFS : Load c Chain) := by
  intro s
  unfold loadLayer
  split
  · exact .throw .rfl
  · refine .bind (.get ?_)
    split
    · exact .throw .rfl
    · exact .bind (.set (.pure (.of_images rfl rfl)))

theorem getLayer_extends (a : Archive) (path : String) (rootFS : Chain) (diffID : Layer.DiffID) :
    Keeps (Extends a) (getLayer a path rootFS diffID : Load c Chain) := by
  refine Keeps.get.bind fun s => ?_
  split
  · exact .pure _
  · exact loadLayer_extends a a.file path rootFS

theorem loadLayers_extends (a : Archive) (rootFS : Chain) (ls : List (Layer.DiffID × String)) :
    Keeps (Extends a) (loadLayers a rootFS ls : Load c Unit) := by
  induction ls generalizing rootFS with
  | nil => exact .pure _
  | cons l ls ih =>
    refine (getLayer_extends a l.2 rootFS l.1).bind fun newLayer => ?_
    split
    · exact .throw _
    · exact ih _

theorem create_ensures {a : Archive} {config : Bytes} (ha : config ∈ a.configs) (s : Stores c) :
    Ensures (create config) s (fun id s' => Extends a s s' ∧ c.imageID config = id) fun _ s' => Extends a s s' := by
  unfold create
  split
  · exact .throw .rfl
  · split
    · exact .throw .rfl
    · refine .bind (.get ?_)
      split_ifs with hid
      · exact .pure ⟨.rfl, rfl⟩
      · exact .throw .rfl
      · exact .bind (.set (.pure ⟨Stores.extends_put hid ha, rfl⟩))

theorem loadTags_extends (a : Archive) (imgID : ID) (tags : List String) :
    Keeps (Extends a) (loadTags imgID tags : Load c Unit) := by
  induction tags with
  | nil => exact .pure _
  | cons t ts ih =>
    unfold loadTags
    split
    · exact .throw _
    · split
      · exact (Keeps.modify fun s => .of_images rfl rfl).bind fun _ => ih
      · exact .throw _

/-- `id` is the image of an entry of the manifest. -/
def Archive.Names (c : Codec) (a : Archive) (m : ManifestItem) (id : ID) : Prop :=
  m ∈ a.manifest ∧ ∃ config, a.file m.config = some config ∧ c.imageID config = id

theorem loadItem_ensures {a : Archive} {m : ManifestItem} (hm : m ∈ a.manifest) (s : Stores c) :
    Ensures (loadItem a m) s (fun id s' => Extends a s s' ∧ a.Names c m id) fun _ s' => Extends a s s' := by
  unfold loadItem
  split
  · exact .throw .rfl
  · rename_i config hf
    split
    · exact .throw .rfl
    · split
      · exact .throw .rfl
      · refine .bind ((loadLayers_extends a _ _ s).mono (fun _ s₁ h₁ => ?_) fun _ _ h => h)
        refine .bind ((create_ensures ⟨m, hm, hf⟩ s₁).mono (fun imgID s₂ h₂ => ?_) fun _ _ h => h₁.trans h)
        obtain ⟨h₂, hid⟩ := h₂
        have h₁₂ : Extends a s s₂ := h₁.trans h₂
        refine .bind ((loadTags_extends a imgID m.repoTags s₂).mono (fun _ s₃ h₃ => ?_) fun _ _ h => h₁₂.trans h)
        exact .pure ⟨h₁₂.trans h₃, hm, config, hf, hid⟩

/-- The links that the loop over the manifest collects: each is from an image
of the manifest to the parent that it gives it. -/
theorem loadItems_ensures (a : Archive) (pl : List ParentLink) (ms : List ManifestItem) (s : Stores c)
    (hms : ∀ m ∈ ms, m ∈ a.manifest) (hpl : ∀ p ∈ pl, ∃ m, m.parent = p.parentID ∧ a.Names c m p.id) :
    Ensures (loadItems a pl ms) s
      (fun pl' s' => Extends a s s' ∧ ∀ p ∈ pl', ∃ m, m.parent = p.parentID ∧ a.Names c m p.id)
      fun _ s' => Extends a s s' := by
  induction ms generalizing pl s with
  | nil => exact .pure ⟨.rfl, hpl⟩
  | cons m ms ih =>
    refine .bind ((loadItem_ensures (hms m List.mem_cons_self) s).mono (fun imgID s₁ h₁ => ?_) fun _ _ h => h)
    obtain ⟨h₁, hm⟩ := h₁
    have hpl₁ : ∀ p ∈ pl ++ [⟨imgID, m.parent⟩], ∃ m, m.parent = p.parentID ∧ a.Names c m p.id := by
      intro p hp
      rcases List.mem_append.mp hp with hp | hp
      · exact hpl p hp
      · rw [List.mem_singleton.mp hp]
        exact ⟨m, rfl, hm⟩
    have hrest := ih _ s₁ (fun m' h => hms m' (List.mem_cons_of_mem m h)) hpl₁
    exact hrest.mono (fun pl' s₂ h => ⟨h₁.trans h.1, h.2⟩) fun _ _ h => h₁.trans h

/-! ## Links -/

/-- `checkValidParent` allows the link. -/
def Allowed (s : Stores c) (id parentID : ID) : Prop :=
  ∃ img parent, s.get id = .ok img ∧ s.get parentID = .ok parent ∧ checkValidParent img parent

/-- What setting parents does to the stores: the images stay as they are, and
every new link is one of `L` that is allowed. -/
structure Relinks (L : ID → ID → Prop) (s s' : Stores c) : Prop where
  images : s'.images = s.images
  parents : ∀ {x y}, s'.parents.lookup x = some y → s.parents.lookup x = some y ∨ L x y ∧ Allowed s x y

theorem Relinks.get {L : ID → ID → Prop} {s s' : Stores c} (h : Relinks L s s') (id : ID) : s'.get id = s.get id := by
  rw [Stores.get, Stores.get, h.images]

instance (L : ID → ID → Prop) : Std.Refl (Relinks (c := c) L) := ⟨fun _ => ⟨rfl, .inl⟩⟩

instance (L : ID → ID → Prop) : IsTrans (Stores c) (Relinks L) where
  trans s₁ s₂ s₃ h₁ h₂ := by
    refine ⟨h₂.images.trans h₁.images, fun {x y} h => ?_⟩
    rcases h₂.parents h with h | ⟨hL, ha⟩
    · exact h₁.parents h
    · rw [Allowed, h₁.get, h₁.get] at ha
      exact .inr ⟨hL, ha⟩

theorem getImage_ensures (id : ID) (s : Stores c) :
    Ensures (getImage id) s (fun img s' => s' = s ∧ s.get id = .ok img) fun _ s' => s' = s := by
  refine .bind (.get ?_)
  split
  · exact .throw rfl
  · rename_i h; exact .pure ⟨rfl, h⟩

theorem setParentID_relinks {L : ID → ID → Prop} {id parentID : ID} (h : L id parentID) :
    Keeps (Relinks L) (setParentID id parentID : Load c Unit) := by
  intro s
  refine .bind ((getImage_ensures id s).mono (fun img s₁ h₁ => ?_) fun _ s₁ h₁ => h₁ ▸ Std.Refl.refl _)
  obtain ⟨rfl, himg⟩ := h₁
  refine .bind ((getImage_ensures parentID s₁).mono (fun parent s₂ h₂ => ?_) fun _ s₂ h₂ => h₂ ▸ Std.Refl.refl _)
  obtain ⟨rfl, hparent⟩ := h₂
  split
  · rename_i hv
    refine .bind (.get ?_)
    split
    · refine .set ⟨rfl, fun {x y} hl => ?_⟩
      rw [Finmap.lookup_insert'] at hl
      split_ifs at hl with hx
      · cases hl
        exact .inr ⟨hx ▸ h, img, parent, hx ▸ himg, hparent, hv⟩
      · exact .inl hl
    · exact .throw (Std.Refl.refl _)
  · exact .throw (Std.Refl.refl _)

theorem setParents_relinks {L : ID → ID → Prop} (pl : List ParentLink)
    (h : ∀ p ∈ pl, p.parentID ≠ "" → L p.id p.parentID) : Keeps (Relinks L) (setParents pl : Load c Unit) := by
  induction pl with
  | nil => exact .pure _
  | cons p pl ih =>
    have ih := ih fun p hp => h p (List.mem_cons_of_mem _ hp)
    unfold setParents
    split
    · exact ih
    · rename_i hp
      exact (setParentID_relinks (h p List.mem_cons_self hp)).bind fun _ => ih

theorem mem_validatedParentLinks {pl : List ParentLink} {p : ParentLink} (h : p ∈ validatedParentLinks pl)
    (hp : p.parentID ≠ "") : p ∈ pl ∧ ∃ p2 ∈ pl, p2.id = p.parentID ∧ p2.id ≠ p.id := by
  obtain ⟨p', hp', rfl⟩ := List.mem_map.mp h
  split at hp
  · rename_i hany
    rw [if_pos hany]
    obtain ⟨p2, hp2, hd⟩ := List.any_eq_true.mp hany
    exact ⟨hp', p2, hp2, of_decide_eq_true hd⟩
  · exact absurd rfl hp

/-- The manifest gives the image `x` the parent `y`. -/
def Archive.Links (c : Codec) (a : Archive) (x y : ID) : Prop :=
  x ≠ y ∧ y ≠ "" ∧ (∃ m, m.parent = y ∧ a.Names c m x) ∧ ∃ m, a.Names c m y

/-- The links after a `Load`: the images are loaded first, and some of the
links of the manifest that are allowed are set then. -/
theorem load_links (a : Archive) (s : Stores c) :
    ∃ s₁, Extends a s s₁ ∧ Relinks (a.Links c) s₁ (load a s).2 := by
  have h : Ensures (loadManifest a) s (fun _ s' => ∃ s₁, Extends a s s₁ ∧ Relinks (a.Links c) s₁ s')
      fun _ s' => ∃ s₁, Extends a s s₁ ∧ Relinks (a.Links c) s₁ s' := by
    have hitems := loadItems_ensures a [] a.manifest s (fun _ h => h) (by simp)
    refine .bind (hitems.mono (fun pl s₁ h₁ => ?_) fun _ s₁ h₁ => ⟨s₁, h₁, Std.Refl.refl s₁⟩)
    obtain ⟨h₁, hpl⟩ := h₁
    have hlinks : ∀ p ∈ validatedParentLinks pl, p.parentID ≠ "" → a.Links c p.id p.parentID := by
      intro p hp hne
      obtain ⟨hp, p2, hp2, hid, hself⟩ := mem_validatedParentLinks hp hne
      obtain ⟨m2, -, hm2⟩ := hpl p2 hp2
      rw [hid] at hm2 hself
      exact ⟨hself.symm, hne, hpl p hp, m2, hm2⟩
    exact (setParents_relinks _ hlinks s₁).mono (fun _ s' h' => ⟨s₁, h₁, h'⟩) fun _ s' h' => ⟨s₁, h₁, h'⟩
  obtain ⟨s₁, h₁, h₂⟩ := h.state
  exact ⟨s₁, h₁, h₂.images, h₂.parents⟩

/-! ## Cycles -/

/-- The parent relation of the image store. -/
def Stores.Linked (s : Stores c) (x y : ID) : Prop := s.parents.lookup x = some y

def Stores.NoHistory (s : Stores c) (id : ID) : Prop := ∃ img, s.get id = .ok img ∧ img.history = []

/-- The archive has the image `id`, without a history. -/
def Archive.NoHistory (c : Codec) (a : Archive) (id : ID) : Prop :=
  ∃ config ∈ a.configs, ∃ img, c.imageID config = id ∧ c.decode config = some img ∧ img.history = []

/-- The links between images without history, of the store and of an archive. -/
def Flat (s : Stores c) (a : Archive) (x y : ID) : Prop :=
  s.Linked x y ∧ s.NoHistory x ∧ s.NoHistory y ∨ a.Links c x y ∧ a.NoHistory c x ∧ a.NoHistory c y

/-- Every image has a longer history than its parent, or neither has one. -/
def Descends (s : Stores c) : Prop :=
  ∀ x y, s.Linked x y → ∃ img parent, s.get x = .ok img ∧ s.get y = .ok parent ∧
    (parent.history.length < img.history.length ∨ img.history = [] ∧ parent.history = [])

theorem checkValidParent_descends {img parent : Config} (h : checkValidParent img parent) :
    parent.history.length < img.history.length ∨ img.history = [] ∧ parent.history = [] := by
  unfold checkValidParent at h
  split_ifs at h with h₀ h₁
  · exact .inr ⟨List.length_eq_zero_iff.mp h₀.1, List.length_eq_zero_iff.mp h₀.2⟩
  · left; omega

theorem Stores.get_eq_ok {s : Stores c} {id : ID} {img : Config} :
    s.get id = .ok img ↔ ∃ config, s.images.lookup id = some config ∧ c.decode config = some img := by
  unfold Stores.get
  cases s.images.lookup id with
  | none => simp
  | some config => cases hd : c.decode config <;> simp [hd]

section

variable {a : Archive} {s : Stores c} (hinj : Set.InjOn c.imageID (s.configs ∪ a.configs))

include hinj

/-- An image of the manifest is the one that the stores have under its name. -/
theorem Extends.noHistory {s₁ : Stores c} (h : Extends a s s₁) {m : ManifestItem} {id : ID} (hm : a.Names c m id)
    (hs : s₁.NoHistory id) : a.NoHistory c id := by
  obtain ⟨hm, config, hf, hid⟩ := hm
  obtain ⟨img, hg, hh⟩ := hs
  obtain ⟨config', hl, hd⟩ := Stores.get_eq_ok.mp hg
  have heq : config' = config := hinj (h.configs ⟨id, hl⟩) (.inr ⟨m, hm, hf⟩) ((s₁.named hl).trans hid.symm)
  exact ⟨config, ⟨m, hm, hf⟩, img, hid, heq ▸ hd, hh⟩

/-- A link after a `Load` goes to a shorter history, or is one between images
without history of the store or of the archive. -/
theorem load_linked (h₀ : Descends s) {x y : ID} (h : (load a s).2.Linked x y) :
    ∃ img parent, (load a s).2.get x = .ok img ∧ (load a s).2.get y = .ok parent ∧
      (parent.history.length < img.history.length ∨ img.history = [] ∧ parent.history = [] ∧ Flat s a x y) := by
  obtain ⟨s₁, h₁, h₂⟩ := load_links a s
  rw [h₂.get, h₂.get]
  rcases h₂.parents h with h | ⟨hlinks, img, parent, hx, hy, hv⟩
  · have hl : s.Linked x y := by rw [h₁.parents] at h; exact h
    obtain ⟨img, parent, hx, hy, hd⟩ := h₀ x y hl
    refine ⟨img, parent, h₁.get hx, h₁.get hy, hd.imp_right fun hb => ⟨hb.1, hb.2, ?_⟩⟩
    exact .inl ⟨hl, ⟨img, hx, hb.1⟩, parent, hy, hb.2⟩
  · refine ⟨img, parent, hx, hy, (checkValidParent_descends hv).imp_right fun hb => ⟨hb.1, hb.2, .inr ⟨hlinks, ?_, ?_⟩⟩⟩
    · obtain ⟨-, -, ⟨m, -, hm⟩, -⟩ := hlinks
      exact h₁.noHistory hinj hm ⟨img, hx, hb.1⟩
    · obtain ⟨-, -, -, m, hm⟩ := hlinks
      exact h₁.noHistory hinj hm ⟨parent, hy, hb.2⟩

theorem Descends.load (h : Descends s) : Descends (load a s).2 := by
  intro x y hl
  obtain ⟨img, parent, hx, hy, hd⟩ := load_linked hinj h hl
  exact ⟨img, parent, hx, hy, hd.imp_right fun hb => ⟨hb.1, hb.2.1⟩⟩

theorem acyclic_load (h : Descends s) (hflat : Acyclic (Flat s a)) : Acyclic (load a s).2.Linked := by
  refine hflat.of_rank (fun id => ((load a s).2.get id).toOption.elim 0 (·.history.length)) fun x y hl => ?_
  obtain ⟨img, parent, hx, hy, hd⟩ := load_linked hinj h hl
  rw [hx, hy]
  rcases hd with hlt | ⟨hi, hp, hf⟩
  · exact .inl hlt
  · refine .inr ⟨?_, hf⟩
    show parent.history.length = img.history.length
    rw [hi, hp]

end

/-- A `Load` as a step of the stores. -/
def exec (s : Stores c) (a : Archive) : Option (Stores c) := some (load a s).2

/-- Loads of archives that close no cycle of images without history keep the
parents without cycles, if every image of the store has a longer history than
its parent, or neither has one, and no two configurations of the store and the
archive have the same digest. -/
theorem load_keeps_acyclic {s₀ s : Stores c} (hd : Descends s₀) (h₀ : Acyclic s₀.Linked)
    (h : ReachesIf exec (fun s a => Set.InjOn c.imageID (s.configs ∪ a.configs) ∧ Acyclic (Flat s a)) s₀ s) :
    Acyclic s.Linked := by
  suffices H : Descends s ∧ Acyclic s.Linked from H.2
  refine h.inv (I := fun s => Descends s ∧ Acyclic s.Linked) ⟨hd, h₀⟩ fun s a s' _ ih hG he => ?_
  cases he
  exact ⟨ih.1.load hG.1, acyclic_load hG.1 ih.1 hG.2⟩

/-! ## Two archives -/

theorem acyclic_emptyStores (c : Codec) : Acyclic (emptyStores c).Linked :=
  Acyclic.of_lt (fun _ => 0) (by rintro x y ⟨⟩)

def idA : ID := sampleHash.fromBytes configA

def idB : ID := sampleHash.fromBytes configB

def childID : ID := sampleHash.fromBytes childConfig

def sampleFile (path : String) : Option Bytes :=
  if path = "a.json" then some configA
  else if path = "b.json" then some configB
  else if path = "child.json" then some childConfig
  else none

/-- An image without history, and two images on it. -/
def chainArchive : Archive where
  manifest := [{ config := "a.json" }, { config := "b.json", parent := idA }, { config := "child.json", parent := idA }]
  file := sampleFile

theorem flat_chainArchive {x y : ID} (h : Flat (emptyStores sampleCodec) chainArchive x y) : y = idA ∧ x ≠ idA := by
  rcases h with ⟨⟨⟩, -⟩ | ⟨⟨hne, hnil, ⟨m, rfl, hm, -⟩, -⟩, -⟩
  simp only [chainArchive, List.mem_cons, List.not_mem_nil, or_false] at hm
  rcases hm with rfl | rfl | rfl
  · exact absurd rfl hnil
  · exact ⟨rfl, hne⟩
  · exact ⟨rfl, hne⟩

theorem chainArchive_injOn :
    Set.InjOn sampleCodec.imageID ((emptyStores sampleCodec).configs ∪ chainArchive.configs) := by
  have hmem : ∀ config ∈ (emptyStores sampleCodec).configs ∪ chainArchive.configs,
      config ∈ [configA, configB, childConfig] := by
    rintro config (⟨id, ⟨⟩⟩ | ⟨m, hm, hf⟩)
    simp only [chainArchive, List.mem_cons, List.not_mem_nil, or_false] at hm
    rcases hm with rfl | rfl | rfl <;> cases hf <;> simp
  have hinj : ∀ b ∈ [configA, configB, childConfig], ∀ b' ∈ [configA, configB, childConfig],
      sampleHash.fromBytes b = sampleHash.fromBytes b' → b = b' := by decide +kernel
  exact fun b hb b' hb' => hinj b (hmem b hb) b' (hmem b' hb')

theorem load_keeps_acyclic_chain :
    (load chainArchive (emptyStores sampleCodec)).2.Linked idB idA ∧
      (load chainArchive (emptyStores sampleCodec)).2.Linked childID idA ∧
      Acyclic (load chainArchive (emptyStores sampleCodec)).2.Linked := by
  refine ⟨by unfold Stores.Linked; decide +kernel, by unfold Stores.Linked; decide +kernel, load_keeps_acyclic
    (by rintro x y ⟨⟩) (acyclic_emptyStores sampleCodec) (.tail .refl ⟨chainArchive_injOn, ?_⟩ rfl)⟩
  refine Acyclic.of_lt (fun id => if id = idA then 0 else 1) fun x y h => ?_
  obtain ⟨rfl, hx⟩ := flat_chainArchive h
  rw [if_pos rfl, if_neg hx]
  exact Nat.one_pos

/-- Two images without history, each the parent of the other. -/
def cycleArchive : Archive where
  manifest := [{ config := "a.json", parent := idB }, { config := "b.json", parent := idA }]
  file := sampleFile

theorem load_cyclic :
    ∃ (c : Codec) (s : Stores c) (a : Archive), Acyclic s.Linked ∧ (load a s).1 = .ok () ∧
      ¬ Acyclic (load a s).2.Linked := by
  refine ⟨sampleCodec, emptyStores sampleCodec, cycleArchive, acyclic_emptyStores sampleCodec, by decide +kernel,
    fun h => h idA ?_⟩
  have hAB : (load cycleArchive (emptyStores sampleCodec)).2.Linked idA idB := by
    unfold Stores.Linked; decide +kernel
  have hBA : (load cycleArchive (emptyStores sampleCodec)).2.Linked idB idA := by
    unfold Stores.Linked; decide +kernel
  exact .tail (.single hAB) hBA

end Moby.Tarexport
