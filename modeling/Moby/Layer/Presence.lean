import Moby.Layer.RefCount

/-!
# The data of the layers

The IDs in use are drawn and distinct (`IdInv`, kept by every action): those
of the layers in the map, of the mounts, and of the calls in flight that have
drawn one. So no removal from the driver takes a layer of another.
-/

namespace Moby.Layer

open Moby.Framework Moby.Digest

/-! ## Random IDs -/

/-- An ID that ends in `-init` is not a random ID. -/
theorem not_isRandomID_init {id : String} (h : IsRandomID id) : ¬ IsRandomID (id ++ "-init") := by
  intro h'
  have h₁ := h.1.1
  have h₂ := h'.1.1
  rw [String.length_append, h₁] at h₂
  exact absurd h₂ (by decide)

/-- The driver layers of an ID: of its layer or mount, and of the init layer
of its mount. -/
def Names (id x : String) : Prop := x = id ∨ x = id ++ "-init"

theorem Names.unique {id id' x : String} (h : IsRandomID id) (h' : IsRandomID id') (hx : Names id x)
    (hx' : Names id' x) : id = id' := by
  rcases hx with rfl | rfl <;> rcases hx' with e | e
  · exact e
  · exact absurd (e ▸ h) (not_isRandomID_init h')
  · exact absurd (e ▸ h') (not_isRandomID_init h)
  · exact String.append_left_inj _ |>.mp e

/-- The IDs that the layers and the mounts have, and `D`. -/
def idsWith (s : LayerStore) (D : Multiset String) : Multiset String :=
  s.layerMap.values.map RoLayer.cacheID + s.mounts.values.map MountedLayer.mountID + D

theorem layers_le_idsWith (s : LayerStore) (D : Multiset String) :
    s.layerMap.values.map RoLayer.cacheID + D ≤ idsWith s D :=
  Multiset.add_le_add_right (Multiset.le_add_right _ _)

/-- The IDs that the calls in flight have drawn. -/
def drawn (F : Multiset Call) : Multiset String := F.filterMap Call.id

/-- The IDs in use are distinct and have been drawn. -/
structure IdInv (w : World) (F : Multiset Call) : Prop where
  nodup : (idsWith w.ls (drawn F)).Nodup
  issued : ∀ id ∈ idsWith w.ls (drawn F), id ∈ w.issued
  random : ∀ id ∈ w.issued, IsRandomID id
  driver : ∀ x ∈ w.driver, ∀ id, IsRandomID id → Names id x → id ∈ w.issued
  initID : ∀ n m, w.ls.mounts.lookup n = some m → m.initID = "" ∨ m.initID = m.mountID ++ "-init"
  created : ∀ c ∈ F, ∀ id, c.created = some id → c.id = some id

theorem drawn_cons (c : Call) (F : Multiset Call) : drawn (c ::ₘ F) = holds c.id + drawn F :=
  filterMap_cons Call.id c F

namespace IdInv

variable {w w' : World} {c c' : Call} {F : Multiset Call} {H : Hash} {ff : Prop}

theorem empty (env : Nat → Op → Answer) : IdInv { env } 0 where
  nodup := Multiset.nodup_zero
  issued _ h := absurd h (Multiset.notMem_zero _)
  random _ h := absurd h (Finset.notMem_empty _)
  driver _ h := absurd h (Finset.notMem_empty _)
  initID _ _ h := by cases h
  created _ h := absurd h (Multiset.notMem_zero _)

theorem created_cons (h : IdInv w (c ::ₘ F)) (hc : ∀ id, c'.created = some id → c'.id = some id) :
    ∀ d ∈ c' ::ₘ F, ∀ id, d.created = some id → d.id = some id := by
  intro d hd
  rcases Multiset.mem_cons.mp hd with rfl | hd
  · exact hc
  · exact h.created d (Multiset.mem_cons_of_mem hd)

theorem created_self (h : IdInv w (c ::ₘ F)) : ∀ id, c.created = some id → c.id = some id :=
  h.created c (Multiset.mem_cons_self ..)

/-- A step that draws no ID: the IDs in use are among those before. -/
theorem mono (h : IdInv w (c ::ₘ F))
    (hids : idsWith w'.ls (drawn (c' ::ₘ F)) ≤ idsWith w.ls (drawn (c ::ₘ F)))
    (hi : w'.issued = w.issued) (hd : ∀ x ∈ w'.driver, x ∈ w.driver ∨ ∃ id ∈ w.issued, Names id x)
    (hm : ∀ n m, w'.ls.mounts.lookup n = some m → m.initID = "" ∨ m.initID = m.mountID ++ "-init")
    (hc : ∀ id, c'.created = some id → c'.id = some id) : IdInv w' (c' ::ₘ F) := by
  refine ⟨Multiset.nodup_of_le hids h.nodup, fun id hid => ?_, hi ▸ h.random, fun x hx id hr hn => ?_, hm,
    h.created_cons hc⟩
  · rw [hi]; exact h.issued id (Multiset.mem_of_le hids hid)
  · rw [hi]
    rcases hd x hx with hx | ⟨id', hid', hn'⟩
    · exact h.driver x hx id hr hn
    · rw [hn.unique hr (h.random _ hid') hn']; exact hid'

/-- A step that changes neither the layers, the mounts nor the ID of the
call. -/
theorem of_eq (h : IdInv w (c ::ₘ F)) (h₁ : w'.ls.layerMap = w.ls.layerMap)
    (h₂ : w'.ls.mounts = w.ls.mounts) (h₃ : w'.issued = w.issued) (h₄ : w'.driver ⊆ w.driver)
    (h₅ : c'.id = c.id) (h₆ : c'.created = c.created) : IdInv w' (c' ::ₘ F) := by
  refine h.mono ?_ h₃ (fun id hid => .inl (h₄ hid)) (h₂ ▸ h.initID) (by rw [h₅, h₆]; exact h.created_self)
  rw [idsWith, idsWith, drawn_cons, drawn_cons, h₁, h₂, h₅]

theorem drawn_self (h : IdInv w (c ::ₘ F)) {id : String} (hid : c.id = some id) : id ∈ w.issued := by
  refine h.issued id (Multiset.mem_add.mpr (.inr ?_))
  rw [drawn_cons, hid]
  exact Multiset.mem_add.mpr (.inl (Multiset.mem_singleton_self id))

end IdInv

/-- A release of a layer only takes layers from the map and from the driver. -/
theorem World.releaseLayer_le {w : World} {l : RoLayer} {K : Multiset RoLayer}
    (h : RefInv w.ls (l ::ₘ K)) :
    (w.releaseLayer l).2.ls.layerMap.values ≤ w.ls.layerMap.values ∧
      (w.releaseLayer l).2.driver ⊆ w.driver := by
  refine (releaseLayer_rule (J := fun w' => w'.ls.layerMap.values ≤ w.ls.layerMap.values ∧
    w'.driver ⊆ w.driver) (fun _ _ _ _ _ hJ => hJ) (fun w' l' K' h' _ hJ => ?_) h
    ⟨le_refl _, Finset.Subset.refl _⟩).2
  have hl := deleteLayer_ls (w'.unretain l') l'
  have hd := deleteLayer_driver (w'.unretain l') l'
  split <;> rename_i e <;> rw [e] at hl hd
  · exact ⟨by rw [hl]; exact hJ.1, hd.trans hJ.2⟩
  · refine ⟨le_trans ?_ hJ.1, hd.trans hJ.2⟩
    simp only at hl ⊢
    rw [hl, Finmap.values_of_lookup (h'.held l' (Multiset.mem_cons_self ..))]
    exact Multiset.le_cons_self _ _

theorem IdInv.action {w w' : World} {c c' : Call} {F : Multiset Call} {H : Hash} {ff : Prop}
    (ha : Action H ff (w, c) (w', c')) (hr : RefInv w.ls (inHand (c ::ₘ F)))
    (hl : LockInv w (c ::ₘ F)) (h : IdInv w (c ::ₘ F)) : IdInv w' (c' ::ₘ F) := by
  rw [inHand_cons] at hr
  have released {v : World} {l : RoLayer} {K : Multiset RoLayer} (h₁ : RefInv v.ls (l ::ₘ K))
      (e₁ : v.ls.layerMap = w.ls.layerMap) (e₂ : v.rest = w.rest) (e₃ : v.driver = w.driver)
      {c₁ : Call} (hid : c₁.id = c.id) (hc : c₁.created = c.created) :
      IdInv (v.releaseLayer l).2 (c₁ ::ₘ F) := by
    have hle := World.releaseLayer_le h₁
    have hrest := (World.releaseLayer_rest h₁).trans e₂
    simp only [World.rest, Prod.mk.injEq] at hrest
    obtain ⟨-, hm, -, -, -, hi⟩ := hrest
    refine h.mono ?_ hi (fun id hid => .inl (e₃ ▸ hle.2 hid)) (hm ▸ h.initID)
      (by rw [hid, hc]; exact h.created_self)
    rw [idsWith, idsWith, drawn_cons, drawn_cons, hm, hid]
    exact Multiset.add_le_add_right (Multiset.add_le_add_right (Multiset.map_le_map (e₁ ▸ hle.1)))
  cases ha with
  | skip | tick | startTransaction | writeTx | cancel | getParent | reference | lockMount
  | unlockMount | writeMount | mkdirMount | removeMount =>
    exact h.of_eq rfl rfl rfl (Finset.Subset.refl _) rfl rfl
  | driverRemoveMount => exact h.of_eq rfl rfl rfl (Finset.erase_subset _ _) rfl rfl
  | generateRandomID hc hd hid new =>
    rename_i id
    have e : idsWith w.ls (drawn ({ c with id := some id } ::ₘ F)) =
        id ::ₘ idsWith w.ls (drawn (c ::ₘ F)) := by
      rw [idsWith, idsWith, drawn_cons, drawn_cons, hc, holds, holds, zero_add, Multiset.singleton_add,
        Multiset.add_cons]
    refine ⟨?_, fun i hi => ?_, fun i hi => ?_, fun x hx i hr hn => ?_, h.initID,
      h.created_cons fun i hi => ?_⟩
    · show (idsWith w.ls _).Nodup
      rw [e]
      exact Multiset.nodup_cons.mpr ⟨fun hi => new (h.issued _ hi), h.nodup⟩
    · have hi : i ∈ idsWith w.ls _ := hi
      rw [e] at hi
      rcases Multiset.mem_cons.mp hi with rfl | hi
      · exact Finset.mem_insert_self _ _
      · exact Finset.mem_insert_of_mem (h.issued i hi)
    · rcases Finset.mem_insert.mp hi with rfl | hi
      · exact hid
      · exact h.random i hi
    · exact Finset.mem_insert_of_mem (h.driver x hx i hr hn)
    · rw [show c.created = some i from hi] at hd; cases hd
  | driverCreate hid =>
    refine h.mono (le_of_eq ?_) rfl (fun i hi => ?_) h.initID fun i hi => ?_
    · rw [drawn_cons, drawn_cons]; rfl
    · rcases Finset.mem_insert.mp hi with rfl | hi
      · exact .inr ⟨_, h.drawn_self hid, .inl rfl⟩
      · exact .inl hi
    · cases hi; exact hid
  | driverCreateMount hid hi =>
    refine h.mono (le_refl _) rfl (fun i hi' => ?_) h.initID h.created_self
    rcases Finset.mem_insert.mp hi' with rfl | hi'
    · exact .inr ⟨_, h.drawn_self hid, hi⟩
    · exact .inl hi'
  | driverRemoveCreated hid hc =>
    refine h.mono ?_ rfl (fun i hi => .inl (Finset.mem_of_mem_erase hi)) h.initID (by rintro _ ⟨⟩)
    rw [idsWith, idsWith, drawn_cons, drawn_cons, holds, zero_add]
    exact Multiset.add_le_add_left (Multiset.le_add_left _ _)
  | releaseParent hc =>
    rw [hc, holds, Multiset.singleton_add] at hr
    exact released hr rfl rfl rfl rfl rfl
  | release hl' hr' =>
    exact released (v := { w with ls := _ }) (hr.deleteReference (hr.live_of_lookup hl') hr')
      rfl rfl rfl rfl rfl
  | publish hid hc htx depth diffID chainID new hd hn =>
    rename_i tx i d
    refine h.mono (le_of_eq ?_) rfl (fun _ hi => .inl hi) h.initID (by rintro _ ⟨⟩)
    have e : (w.ls.addLayer i c.parent).2.layerMap.values =
        RoLayer.make w.ls.nextPtr i c.parent ::ₘ w.ls.layerMap.values :=
      Finmap.values_insert (Finmap.lookup_eq_none.mp new)
    rw [idsWith, idsWith, drawn_cons, drawn_cons, hid, holds, holds, zero_add]
    show (w.ls.addLayer i c.parent).2.layerMap.values.map RoLayer.cacheID + _ + _ = _
    rw [e, Multiset.map_cons, RoLayer.cacheID, RoLayer.info_make, Multiset.singleton_add,
      Multiset.add_cons, Multiset.cons_add, Multiset.cons_add]
    rfl
  | references rs hc hm hn =>
    rename_i v m n
    have hv := hl.lookup_self hc hm
    refine h.mono (le_of_eq ?_) rfl (fun _ hi => .inl hi) (fun n' m' hm' => ?_) h.created_self
    · rw [idsWith, idsWith, drawn_cons, drawn_cons, Finmap.values_insert',
        Finmap.values_of_lookup hv.1, Multiset.map_cons, Multiset.map_cons]
    · rw [Finmap.lookup_insert'] at hm'
      split at hm'
      · cases hm'; exact h.initID m.name m hv.1
      · exact h.initID n' m' hm'
  | publishMount hc hm hn hp hid hcr hi hd =>
    rename_i v m
    have hv := (hl.view_self hc).1
    rw [hm, ← hn] at hv
    refine h.mono (le_of_eq ?_) rfl (fun _ hi => .inl hi) (fun n' m' hm' => ?_) fun i hi' => ?_
    · rw [idsWith, idsWith, drawn_cons, drawn_cons, hid, holds, holds, zero_add,
        Finmap.values_insert (Finmap.lookup_eq_none.mp hv.symm), Multiset.map_cons,
        Multiset.singleton_add, Multiset.add_cons, Multiset.add_cons, Multiset.cons_add]
    · rw [Finmap.lookup_insert'] at hm'
      split at hm'
      · cases hm'; exact hi
      · exact h.initID n' m' hm'
    · rw [show c.created = some i from hi'] at hcr; cases hcr
  | deleteMount hc hm hp hd =>
    rename_i v m
    have hv := hl.lookup_self hc hm
    refine h.mono ?_ rfl (fun _ hi => .inl hi) (fun n' m' hm' => ?_) h.created_self
    · rw [idsWith, idsWith, drawn_cons, drawn_cons, Finmap.values_of_lookup hv.1, Multiset.map_cons]
      exact Multiset.add_le_add_right (Multiset.add_le_add_left (Multiset.le_cons_self _ _))
    · rw [Finmap.lookup_erase'] at hm'
      split at hm'
      · cases hm'
      · exact h.initID n' m' hm'

/-! ## Layers with their data -/

/-- No removal of metadata fails, and one of a driver layer that fails leaves
the driver as it was. -/
structure RemovesWhole (env : Nat → Op → Answer) : Prop where
  store : ∀ n, (env n .storeRemove).ok = true
  driver : ∀ n, (env n .driverRemove).ok = false → (env n .driverRemove).done = false

/-- Every layer in the map has its driver layer and its metadata, and so has
every driver layer that a call in flight has made for a new layer. -/
structure PresentInv (w : World) (F : Multiset Call) : Prop where
  remove : RemovesWhole w.env
  driver : ∀ l, w.ls.Live l → l.cacheID ∈ w.driver
  store : ∀ l, w.ls.Live l → l.chainID ∈ w.store.layers
  created : ∀ c ∈ F, ∀ id, c.created = some id → id ∈ w.driver

section

variable {w w' : World} {c c' : Call} {F : Multiset Call} {H : Hash} {ff : Prop} {l l' : RoLayer}
  {id : String}

theorem mem_values_of_live (h : w.ls.Live l) : l ∈ w.ls.layerMap.values :=
  Finmap.mem_values.mpr ⟨_, h⟩

namespace IdInv

/-- The ID of a call is not that of a layer, of a mount or of another call. -/
theorem drawn_notMem (h : IdInv w (c ::ₘ F)) (hid : c.id = some id) :
    id ∉ idsWith w.ls (drawn F) := by
  have hn := h.nodup
  rw [idsWith, drawn_cons, hid, holds, Multiset.singleton_add, Multiset.add_cons,
    Multiset.nodup_cons] at hn
  exact hn.1

/-- The ID of a mount is not that of a layer or of a call. -/
theorem mountID_notMem (h : IdInv w F) {n : String} {m : MountedLayer}
    (hm : w.ls.mounts.lookup n = some m) :
    m.mountID ∉ w.ls.layerMap.values.map RoLayer.cacheID + drawn F := by
  have hn := h.nodup
  rw [idsWith, Finmap.values_of_lookup hm, Multiset.map_cons, Multiset.add_cons, Multiset.cons_add,
    Multiset.nodup_cons] at hn
  exact fun hmem => hn.1 (Multiset.mem_of_le
    (Multiset.add_le_add_right (Multiset.le_add_right _ _)) hmem)

end IdInv

namespace PresentInv

theorem created_cons (h : PresentInv w (c ::ₘ F)) (hd : w.driver ⊆ w'.driver)
    (hc : ∀ id, c'.created = some id → id ∈ w'.driver) :
    ∀ d ∈ c' ::ₘ F, ∀ id, d.created = some id → id ∈ w'.driver := by
  intro d hd' id hid
  rcases Multiset.mem_cons.mp hd' with rfl | hd'
  · exact hc id hid
  · exact hd (h.created d (Multiset.mem_cons_of_mem hd') id hid)

/-- A step that takes nothing from the driver or from the metadata store. -/
theorem mono (h : PresentInv w (c ::ₘ F)) (he : w'.env = w.env)
    (hl : ∀ l, w'.ls.Live l → w.ls.Live l) (hd : w.driver ⊆ w'.driver)
    (hs : w'.store.layers = w.store.layers) (hc : ∀ id, c'.created = some id → id ∈ w'.driver) :
    PresentInv w' (c' ::ₘ F) :=
  ⟨he ▸ h.remove, fun l h' => hd (h.driver l (hl l h')), fun l h' => hs ▸ h.store l (hl l h'),
    h.created_cons hd hc⟩

theorem created_self (h : PresentInv w (c ::ₘ F)) : ∀ id, c.created = some id → id ∈ w.driver :=
  h.created c (Multiset.mem_cons_self ..)

end PresentInv

/-- A release of a layer: the layers that stay in the map, and the driver layers
`P` of others, keep their data. -/
theorem World.releaseLayer_present {K : Multiset RoLayer} {D : Multiset String}
    (hr : RefInv w.ls (l ::ₘ K)) (hn : (w.ls.layerMap.values.map RoLayer.cacheID + D).Nodup)
    (he : RemovesWhole w.env)
    (hp : ∀ l, w.ls.Live l → l.cacheID ∈ w.driver ∧ l.chainID ∈ w.store.layers)
    {P : String → Prop} (hP : ∀ id, P id → id ∈ D ∧ id ∈ w.driver) :
    (∀ l', (w.releaseLayer l).2.ls.Live l' →
      l'.cacheID ∈ (w.releaseLayer l).2.driver ∧ l'.chainID ∈ (w.releaseLayer l).2.store.layers) ∧
    ∀ id, P id → id ∈ (w.releaseLayer l).2.driver := by
  have := (releaseLayer_rule (J := fun w' => RemovesWhole w'.env ∧
    (w'.ls.layerMap.values.map RoLayer.cacheID + D).Nodup ∧
    (∀ l, w'.ls.Live l → l.cacheID ∈ w'.driver ∧ l.chainID ∈ w'.store.layers) ∧
    ∀ id, P id → id ∈ w'.driver) (fun _ _ _ _ _ hJ => hJ) (fun w' l' K' h' hc hJ => ?_) hr
    ⟨he, hn, hp, fun id hid => (hP id hid).2⟩).2.2.2
  · exact this
  · obtain ⟨he, hn, hp, hd⟩ := hJ
    have hl' : w'.ls.Live l' := h'.held l' (Multiset.mem_cons_self ..)
    rcases deleteLayer_cases (w'.unretain l') l' with ⟨-, e⟩ | ⟨⟨hf, hdone⟩, -⟩ | ⟨hf, -⟩ | e
    · rw [e]; exact ⟨he, hn, hp, hd⟩
    · exact absurd hdone (Bool.eq_false_iff.mp (he.driver _ hf))
    · rw [show ((w'.unretain l').tick.answer .storeRemove).ok = true from he.store _] at hf
      cases hf
    · rw [e]
      rw [Finmap.values_of_lookup hl', Multiset.map_cons, Multiset.cons_add, Multiset.nodup_cons] at hn
      obtain ⟨hnot, hn⟩ := hn
      refine ⟨he, hn, fun l hl => ?_, fun id hid => ?_⟩
      · have hmem : l ∈ (w'.ls.layerMap.erase l'.chainID).values := Finmap.mem_values.mpr ⟨_, hl⟩
        have hl : (w'.ls.layerMap.erase l'.chainID).lookup l.chainID = some l := hl
        rw [Finmap.lookup_erase'] at hl
        split at hl
        · cases hl
        · rename_i hne
          refine ⟨Finset.mem_erase.mpr ⟨fun e => hnot ?_, (hp l hl).1⟩, ?_⟩
          · rw [← e]
            exact Multiset.mem_add.mpr (.inl (Multiset.mem_map_of_mem _ hmem))
          · exact Finmap.mem_erase.mpr ⟨hne, (hp l hl).2⟩
      · refine Finset.mem_erase.mpr ⟨fun e => hnot ?_, hd id hid⟩
        rw [← e]
        exact Multiset.mem_add.mpr (.inr (hP id hid).1)

theorem IdInv.nodup_layers (h : IdInv w F) :
    (w.ls.layerMap.values.map RoLayer.cacheID + drawn F).Nodup :=
  Multiset.nodup_of_le (layers_le_idsWith _ _) h.nodup

theorem IdInv.created_mem (h : IdInv w F) (hc : c ∈ F) (hid : c.created = some id) : id ∈ drawn F :=
  (Multiset.mem_filterMap _ _).mpr ⟨c, hc, h.created c hc id hid⟩

/-- The removal of a driver layer that is not one of a layer or of a call in
flight. -/
theorem PresentInv.erase (h : PresentInv w (c ::ₘ F)) (hi : IdInv w (c' ::ₘ F)) {i : String}
    (hn : i ∉ w.ls.layerMap.values.map RoLayer.cacheID + drawn (c' ::ₘ F))
    (hc : ∀ id, c'.created = some id → c.created = some id) :
    PresentInv { w.tick with driver := w.driver.erase i } (c' ::ₘ F) := by
  refine ⟨h.remove, fun l hl => ?_, h.store, fun d hd id hid => ?_⟩
  · refine Finset.mem_erase.mpr ⟨fun e => hn ?_, h.driver l hl⟩
    rw [← e]
    exact Multiset.mem_add.mpr (.inl (Multiset.mem_map_of_mem _ (mem_values_of_live hl)))
  · refine Finset.mem_erase.mpr ⟨fun e => hn ?_, ?_⟩
    · rw [← e]
      exact Multiset.mem_add.mpr (.inr (hi.created_mem hd hid))
    · rcases Multiset.mem_cons.mp hd with rfl | hd
      · exact h.created_self id (hc id hid)
      · exact h.created d (Multiset.mem_cons_of_mem hd) id hid

theorem PresentInv.action (ha : Action H ff (w, c) (w', c')) (hr : RefInv w.ls (inHand (c ::ₘ F)))
    (hl : LockInv w (c ::ₘ F)) (hi : IdInv w (c ::ₘ F)) (hi' : IdInv w' (c' ::ₘ F))
    (h : PresentInv w (c ::ₘ F)) : PresentInv w' (c' ::ₘ F) := by
  rw [inHand_cons] at hr
  have released {v : World} {l : RoLayer} {K : Multiset RoLayer} (h₁ : RefInv v.ls (l ::ₘ K))
      (e₁ : v.ls.layerMap = w.ls.layerMap) (e₂ : v.rest = w.rest) (e₃ : v.driver = w.driver)
      (e₄ : v.store.layers = w.store.layers) {c₁ : Call} (hc : c₁.created = c.created) :
      PresentInv (v.releaseLayer l).2 (c₁ ::ₘ F) := by
    have hrest := (World.releaseLayer_rest h₁).trans e₂
    have henv : v.env = w.env := congrArg Prod.fst e₂
    obtain ⟨hp, hd⟩ := World.releaseLayer_present (D := drawn (c ::ₘ F))
      (P := fun id => ∃ d ∈ c ::ₘ F, d.created = some id) h₁ (e₁ ▸ hi.nodup_layers) (henv ▸ h.remove)
      (fun l hl => ⟨by rw [e₃]; exact h.driver l (by rw [LayerStore.Live, ← e₁]; exact hl),
        by rw [e₄]; exact h.store l (by rw [LayerStore.Live, ← e₁]; exact hl)⟩)
      fun id ⟨d, hd, hid⟩ => ⟨hi.created_mem hd hid, e₃ ▸ h.created d hd id hid⟩
    refine ⟨?_, fun l hl => (hp l hl).1, fun l hl => (hp l hl).2, fun d hd' id hid => hd id ?_⟩
    · rw [show (v.releaseLayer l).2.env = w.env from congrArg Prod.fst hrest]
      exact h.remove
    · rcases Multiset.mem_cons.mp hd' with rfl | hd'
      · exact ⟨c, Multiset.mem_cons_self .., hc ▸ hid⟩
      · exact ⟨d, Multiset.mem_cons_of_mem hd', hid⟩
  cases ha with
  | skip | tick | generateRandomID | startTransaction | cancel | getParent | reference
  | lockMount | unlockMount | references | writeMount | publishMount | removeMount | deleteMount =>
    exact h.mono rfl (fun _ h => h) (Finset.Subset.refl _) rfl h.created_self
  | mkdirMount =>
    exact h.mono rfl (fun _ h => h) (Finset.Subset.refl _) (MetadataStore.layers_mkdirMount ..)
      h.created_self
  | writeTx =>
    exact h.mono rfl (fun _ h => h) (Finset.Subset.refl _) (MetadataStore.layers_writeTmp ..)
      h.created_self
  | driverCreate hid =>
    refine h.mono rfl (fun _ h => h) (Finset.subset_insert _ _) rfl fun i hi => ?_
    cases hi; exact Finset.mem_insert_self _ _
  | driverCreateMount hid hi =>
    exact h.mono rfl (fun _ h => h) (Finset.subset_insert _ _) rfl fun i hi =>
      Finset.mem_insert_of_mem (h.created_self i hi)
  | driverRemoveCreated hid hc =>
    refine h.erase ⟨hi'.nodup, hi'.issued, hi'.random, hi.driver, hi'.initID, hi'.created⟩
      (fun hmem => hi.drawn_notMem hid ?_) (by rintro _ ⟨⟩)
    rw [drawn_cons, holds, zero_add] at hmem
    exact Multiset.mem_of_le (layers_le_idsWith _ _) hmem
  | releaseParent hc =>
    rw [hc, holds, Multiset.singleton_add] at hr
    exact released hr rfl rfl rfl rfl rfl
  | release hl' hr' =>
    exact released (v := { w with ls := _ }) (hr.deleteReference (hr.live_of_lookup hl') hr')
      rfl rfl rfl rfl rfl
  | publish hid hc htx depth diffID chainID new hd hn =>
    rename_i tx i d
    have live {l} (hl : ((w.ls.addLayer i c.parent).2.getReference (w.ls.addLayer i c.parent).1).2.Live l) :
        l = RoLayer.make w.ls.nextPtr i c.parent ∨ w.ls.Live l := by
      have hl : (w.ls.layerMap.insert i.chainID (RoLayer.make w.ls.nextPtr i c.parent)).lookup
        l.chainID = some l := hl
      rw [Finmap.lookup_insert'] at hl
      split at hl
      · exact .inl (Option.some.inj hl).symm
      · exact .inr hl
    refine ⟨h.remove, fun l hl => ?_, fun l hl => ?_, h.created_cons (Finset.Subset.refl _) (by rintro _ ⟨⟩)⟩
    · rcases live hl with rfl | hl
      · rw [RoLayer.cacheID, RoLayer.info_make]; exact h.created_self _ hc
      · exact h.driver l hl
    · rcases live hl with rfl | hl
      · rw [RoLayer.chainID, RoLayer.info_make]; exact Finmap.mem_insert.mpr (.inl rfl)
      · exact Finmap.mem_insert.mpr (.inr (h.store l hl))
  | driverRemoveMount hc hm hi'' =>
    rename_i v m i
    have hv := (hl.lookup_self hc hm).1
    refine h.erase hi (fun hmem => ?_) fun _ h => h
    rcases hi'' with rfl | ⟨rfl, hne⟩
    · exact hi.mountID_notMem hv hmem
    · -- the ID of an init layer is not a random one
      have hissued : m.initID ∈ w.issued :=
        hi.issued _ (Multiset.mem_of_le (layers_le_idsWith _ _) hmem)
      have hmount : m.mountID ∈ w.issued := hi.issued _ (Multiset.mem_add.mpr (.inl
        (Multiset.mem_add.mpr (.inr (Multiset.mem_map_of_mem _ (Finmap.mem_values.mpr ⟨_, hv⟩))))))
      rw [(hi.initID _ _ hv).resolve_left hne] at hissued
      exact not_isRandomID_init (hi.random _ hmount) (hi.random _ hissued)

end

/-! ## Runs -/

section

variable {H : Hash} {env : Nat → Op → Answer} {x : Config World Call}

theorem reaches_idInv (hx : Reaches H env x) : IdInv x.1 x.calls := by
  refine reachable_inv_of (A := Assumes False) (R := Action H False) (D := Call.At none none)
    (K := fun w F => RefInv w.ls (inHand F) ∧ LockInv w F) (I := IdInv) Request.follows
    (fun _ hx => reaches_inv hx) (fun _ _ _ _ h => h.elim) (IdInv.empty env) ?_ ?_ ?_ hx
  · intro w F h
    refine ⟨by rw [drawn_cons, holds, zero_add]; exact h.nodup,
      by rw [drawn_cons, holds, zero_add]; exact h.issued, h.random, h.driver, h.initID, fun c hc => ?_⟩
    rcases Multiset.mem_cons.mp hc with rfl | hc
    · rintro _ ⟨⟩
    · exact h.created c hc
  · intro w c F _ h
    have hle : idsWith w.ls (drawn F) ≤ idsWith w.ls (drawn (c ::ₘ F)) := by
      rw [drawn_cons]
      exact Multiset.add_le_add_left (Multiset.le_add_left _ _)
    exact ⟨Multiset.nodup_of_le hle h.nodup, fun i hi => h.issued i (Multiset.mem_of_le hle hi),
      h.random, h.driver, h.initID, fun d hd => h.created d (Multiset.mem_cons_of_mem hd)⟩
  · intro w c w' c' F hk _ ha h
    exact h.action ha hk.1 hk.2

theorem reaches_presentInv (he : RemovesWhole env) (hx : Reaches H env x) :
    PresentInv x.1 x.calls := by
  refine reachable_inv_of (A := Assumes False) (R := Action H False) (D := Call.At none none)
    (K := fun w F => (RefInv w.ls (inHand F) ∧ LockInv w F) ∧ IdInv w F) (I := PresentInv)
    Request.follows (fun _ hx => ⟨reaches_inv hx, reaches_idInv hx⟩) (fun _ _ _ _ h => h.elim)
    ⟨he, fun _ h => (by cases h), fun _ h => (by cases h), fun _ h => absurd h (Multiset.notMem_zero _)⟩
    ?_ ?_ ?_ hx
  · intro w F h
    refine ⟨h.remove, h.driver, h.store, fun c hc => ?_⟩
    rcases Multiset.mem_cons.mp hc with rfl | hc
    · rintro _ ⟨⟩
    · exact h.created c hc
  · intro w c F _ h
    exact ⟨h.remove, h.driver, h.store, fun d hd => h.created d (Multiset.mem_cons_of_mem hd)⟩
  · intro w c w' c' F hk hk' ha h
    exact h.action ha hk.1.1 hk.1.2 hk.2 hk'.2

/-- In every run in which no removal of metadata fails and a failing removal of
a driver layer leaves the driver as it was, every layer in the map has its
driver layer and its metadata, and so has every layer that `Get`, or a
registration of a layer that is there already, hands out. -/
theorem layers_present (he : RemovesWhole env) (hx : Reaches H env x) :
    (∀ k l, x.1.ls.layerMap.lookup k = some l → l.cacheID ∈ x.1.driver ∧ k ∈ x.1.store.layers) ∧
    (∀ id h w', x.1.get id = (.ok h, w') →
      h.layer.cacheID ∈ w'.driver ∧ h.layer.chainID ∈ w'.store.layers) ∧
    ∀ tx i parent c h w' c',
      (publish tx i parent).run.run (x.1, c) = some (.error (.layerAlreadyExists h), w', c') →
      h.layer.cacheID ∈ w'.driver ∧ h.layer.chainID ∈ w'.store.layers := by
  have hr := (reaches_inv hx).1
  have hp := reaches_presentInv he hx
  refine ⟨fun k l hl => ?_, fun id h w' hg => ?_, fun tx i parent c h w' c' hg => ?_⟩
  · have hl' := hr.live_of_lookup hl
    exact ⟨hp.driver l hl', hr.key k l hl ▸ hp.store l hl'⟩
  · cases hl : x.1.ls.layerMap.lookup id with
    | none => simp [World.get, LayerStore.getWithoutLock, hl] at hg
    | some l =>
      simp only [World.get, LayerStore.getWithoutLock, hl] at hg
      cases hg
      have hl' := hr.live_of_lookup hl
      exact ⟨hp.driver l hl', hp.store l hl'⟩
  · unfold publish at hg
    rw [ExceptT.run_mk, Prog.run_step] at hg
    cases hl : x.1.ls.layerMap.lookup i.chainID with
    | none =>
      simp only [LayerStore.getWithoutLock, hl] at hg
      split at hg <;> cases hg
    | some l =>
      simp only [LayerStore.getWithoutLock, hl] at hg
      cases hg
      have hl' := hr.live_of_lookup hl
      exact ⟨hp.driver l hl', hp.store l hl'⟩

end

/-- A layer with its data, in a reachable state. -/
theorem layers_present_of_register : ∃ x l, Reaches sampleHash sampleEnv x ∧
    x.1.ls.layerMap.lookup sampleID = some l ∧ l.cacheID ∈ x.1.driver ∧
    sampleID ∈ x.1.store.layers := by
  have hrun : ((runAll (Request.prog sampleHash) {} [.register [] "" {}] { env := sampleEnv }).any
      fun w => (w.ls.layerMap.lookup sampleID).isSome) = true := by decide +kernel
  simp only [Option.any_eq_true, Option.isSome_iff_exists] at hrun
  obtain ⟨w, hw, l, hl⟩ := hrun
  have hx : Reaches sampleHash sampleEnv (w, 0) := Reachable.runAll .refl hw
  exact ⟨(w, 0), l, hx, hl, (layers_present ⟨fun _ => rfl, fun _ _ => rfl⟩ hx).1 _ _ hl⟩

/-- The environment in which the removal of metadata fails. -/
def removeFails (n : Nat) : Op → Answer
  | .storeRemove => { ok := false }
  | op => sampleEnv n op

/-- The reference that the registration of `sampleID` returns. -/
def sampleRef : LayerRef where
  layer := .base 0
    { chainID := sampleID
      diffID := sampleID
      cacheID := "f0e1d2c3b4a5968778695a4b3c2d1e0ff0e1d2c3b4a5968778695a4b3c2d1e0f"
      size := 1024
      descriptor := {} }
  ref := 0

/-- A layer is registered and released, and the removal of its metadata, the
only one in the run, fails: it stays in the map without its driver layer, and
`Get` hands it out. -/
theorem dead_layer_in_map : ∃ x l h w', Reaches sampleHash removeFails x ∧
    x.1.ls.layerMap.lookup sampleID = some l ∧ l.cacheID ∉ x.1.driver ∧
    x.1.get sampleID = (.ok h, w') ∧ h.layer.cacheID ∉ w'.driver := by
  have hrun : ((runAll (Request.prog sampleHash) {} [.register [] "" {}, .release sampleRef]
      { env := removeFails }).any fun w =>
        (w.ls.layerMap.lookup sampleID).isSome ∧ w.driver = ∅) = true := by decide +kernel
  simp only [Option.any_eq_true, decide_eq_true_eq, Option.isSome_iff_exists] at hrun
  obtain ⟨w, hw, ⟨l, hl⟩, hd⟩ := hrun
  have hx : Reaches sampleHash removeFails (w, 0) := Reachable.runAll .refl hw
  refine ⟨(w, 0), l, ⟨l, w.ls.nextRef⟩, { w with ls := ((w.ls.retain l).getReference l).2 }, hx, hl,
    ?_, ?_, ?_⟩
  · rw [hd]; exact Finset.notMem_empty _
  · simp only [World.get, LayerStore.getWithoutLock, hl]
    rfl
  · show l.cacheID ∉ w.driver
    rw [hd]; exact Finset.notMem_empty _

end Moby.Layer
