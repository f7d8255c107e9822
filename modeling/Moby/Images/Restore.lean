import Moby.Images.Links
import Moby.Layer.RefCount

/-!
# Restoring an image store

When `NewImageStore` succeeds on a backend: if the layers of all images of the
backend are there (`restorable_iff`).
-/

namespace Moby.Images

open Moby.Framework Moby.Digest

section

variable {H : Hash} {decode : Decoder} {w : World} {id : ID}

/-- The layers of an image are there, or it has none. -/
def World.HasLayer (w : World) (k : Layer.ChainID) : Prop := k = "" ∨ k ∈ w.ls.ls.layerMap

/-- `ls.Get` succeeds if the layer is there. -/
theorem World.getLayer_ok_iff (w : World) (k : Layer.ChainID) :
    ¬ w.HasLayer k ∧ (∃ e, w.getLayer k = (.error e, w)) ∨
    w.HasLayer k ∧ ∃ l ls, w.getLayer k = (.ok l, { w with ls }) ∧ ls.ls.layerMap = w.ls.ls.layerMap := by
  unfold HasLayer getLayer
  by_cases hk : k = ""
  · rw [if_pos hk]
    exact .inr ⟨.inl hk, none, w.ls, rfl, rfl⟩
  · rw [if_neg hk, Layer.World.get, Layer.LayerStore.getWithoutLock]
    cases hl : w.ls.ls.layerMap.lookup k with
    | none => exact .inl ⟨fun h => h.elim hk (Finmap.lookup_eq_none.mp hl), _, rfl⟩
    | some l => exact .inr ⟨.inr (Finmap.mem_of_lookup_eq_some hl), _, _, rfl, rfl⟩

/-- What `restore` does with an image of the backend: it fails, skips it, or
puts it in the map. -/
theorem World.restoreImage_cases (H : Hash) (decode : Decoder) (w : World) (hid : validate id = .ok ()) :
    (∃ img e, w.get H decode id = .ok img ∧ ¬ w.HasLayer (img.rootFS.chainID H) ∧
      w.restoreImage H decode id = (.error e, w)) ∨
    (∃ e, w.get H decode id = .error e ∧ w.restoreImage H decode id = (.ok (), w)) ∨
    ∃ img l w', w.get H decode id = .ok img ∧ w.HasLayer (img.rootFS.chainID H) ∧
      w.getLayer (img.rootFS.chainID H) = (.ok l, { w with ls := w'.ls }) ∧ w'.fs = w.fs ∧
      w'.ls.ls.layerMap = w.ls.ls.layerMap ∧ w'.images = w.images.insert id ⟨l, ∅⟩ ∧
      w.restoreImage H decode id = (.ok (), w') := by
  unfold restoreImage
  cases hget : w.get H decode id with
  | error e => exact .inr (.inl ⟨e, rfl, rfl⟩)
  | ok img =>
    rcases w.getLayer_ok_iff (img.rootFS.chainID H) with ⟨hn, e, hl⟩ | ⟨hl, l, ls, hok, hmap⟩
    · exact .inl ⟨img, e, rfl, hn, by simp only [hl]⟩
    · refine .inr (.inr ⟨img, l, { w with
        ls, images := w.images.insert id ⟨l, ∅⟩, digestSet := insert id w.digestSet }, rfl, hl, hok, rfl, hmap, rfl, ?_⟩)
      simp only [hok, hid]

theorem World.get_congr {w' : World} (hfs : w'.fs = w.fs) : w'.get H decode id = w.get H decode id := by
  simp only [World.get, World.getParent, hfs]

/-- `Get` succeeds on what `Create` accepts. -/
theorem World.get_of_stored {config : List UInt8} {rootFS : RootFS} (hs : w.fs.content.lookup id = some config)
    (hid : H.fromBytes config = id) (hc : checkConfig decode config = .ok rootFS) :
    ∃ img, w.get H decode id = .ok img ∧ img.rootFS = rootFS := by
  unfold checkConfig at hc
  cases hd : decode config with
  | none => rw [hd] at hc; cases hc
  | some c =>
    simp only [hd] at hc
    cases hr : c.rootFS with
    | none => simp only [hr] at hc; cases hc
    | some r =>
      simp only [hr] at hc
      split at hc
      · cases hc
      · cases hc
        simp only [World.get, Backend.get_ok.mpr ⟨hs, hid⟩, newFromJSON, hd, hr]
        exact ⟨_, rfl, rfl⟩

theorem World.content_of_get {img : Image} (h : w.get H decode id = .ok img) :
    ∃ config, w.fs.content.lookup id = some config ∧ H.fromBytes config = id := by
  unfold World.get at h
  cases hc : w.fs.get H id with
  | error e => rw [hc] at h; cases h
  | ok config => exact ⟨config, Backend.get_ok.mp hc⟩

/-- The walk of `restore` succeeds if the layers of all images are there. -/
theorem World.restoreImages_ok_iff {ids : List ID} (hids : ∀ id ∈ ids, validate id = .ok ()) :
    (∃ w', w.restoreImages H decode ids = (.ok (), w')) ↔
      ∀ id ∈ ids, ∀ img, w.get H decode id = .ok img → w.HasLayer (img.rootFS.chainID H) := by
  induction ids generalizing w with
  | nil => exact ⟨fun _ _ h => absurd h List.not_mem_nil, fun _ => ⟨w, rfl⟩⟩
  | cons id ids ih =>
    have ih {w : World} := ih (w := w) fun id h => hids id (List.mem_cons_of_mem _ h)
    rw [List.forall_mem_cons, restoreImages]
    have hcongr (v : World) (hfs : v.fs = w.fs) (hmap : v.ls.ls.layerMap = w.ls.ls.layerMap) :
        (∀ id ∈ ids, ∀ img, v.get H decode id = .ok img → v.HasLayer (img.rootFS.chainID H)) ↔
          ∀ id ∈ ids, ∀ img, w.get H decode id = .ok img → w.HasLayer (img.rootFS.chainID H) := by
      simp only [World.get_congr hfs, HasLayer, hmap]
    rcases w.restoreImage_cases H decode (hids id List.mem_cons_self) with
      ⟨img, e, hget, hn, hr⟩ | ⟨e, hget, hr⟩ | ⟨img, l, w', hget, hl, -, hfs, hmap, -, hr⟩
    · simp only [hr]
      exact ⟨fun ⟨_, h⟩ => (by cases h), fun h => absurd (h.1 img hget) hn⟩
    · simp only [hr]
      refine ih.trans ⟨fun h => ⟨fun img h' => ?_, h⟩, fun h => h.2⟩
      cases hget.symm.trans h'
    · simp only [hr]
      refine ih.trans ((hcongr w' hfs hmap).trans ⟨fun h => ⟨fun img' h' => ?_, h⟩, fun h => h.2⟩)
      cases hget.symm.trans h'
      exact hl

/-- `NewImageStore` succeeds, in whatever order the images are listed. -/
def Restorable (H : Hash) (decode : Decoder) (fs : Backend) (ls : Layer.World) : Prop :=
  ∀ ids, fs.Lists ids → ∃ w, newImageStore H decode ids fs ls = (.ok (), w)

theorem Backend.exists_lists (b : Backend) : ∃ ids, b.Lists ids := by
  refine ⟨(b.content.keys.filter fun id => algorithm id = "sha256" ∧ validate id = .ok ()).toList,
    Finset.nodup_toList _, fun id => ?_⟩
  rw [Finset.mem_toList, Finset.mem_filter, Finmap.mem_keys]

theorem newImageStore_ok_iff {ids : List ID} {fs : Backend} {ls : Layer.World}
    (hids : ∀ id ∈ ids, validate id = .ok ()) : (∃ w, newImageStore H decode ids fs ls = (.ok (), w)) ↔
      ∀ id ∈ ids, ∀ img, World.get H decode { fs, ls } id = .ok img →
        World.HasLayer { fs, ls } (img.rootFS.chainID H) := by
  rw [← World.restoreImages_ok_iff hids, newImageStore, World.restore]
  rcases World.restoreImages H decode { fs, ls } ids with ⟨_ | _, w⟩
  · exact ⟨fun ⟨_, h⟩ => (by cases h), fun ⟨_, h⟩ => (by cases h)⟩
  · exact ⟨fun _ => ⟨_, rfl⟩, fun _ => ⟨_, rfl⟩⟩

/-- `NewImageStore` succeeds if the layers of all images are there. -/
theorem restorable_iff {fs : Backend} {ls : Layer.World} : Restorable H decode fs ls ↔
    ∀ id img, World.get H decode { fs, ls } id = .ok img → World.HasLayer { fs, ls } (img.rootFS.chainID H) := by
  constructor
  · intro h id img hget
    obtain ⟨ids, hids⟩ := fs.exists_lists
    have hvalid : ∀ id ∈ ids, validate id = .ok () := fun id hid => ((hids.2 id).mp hid).2.2
    obtain ⟨config, hs, rfl⟩ := World.content_of_get hget
    have hmem := (hids.2 _).mpr ⟨Finmap.mem_of_lookup_eq_some hs, algorithm_newDigestFromHex _, validate_fromBytes H config⟩
    exact (newImageStore_ok_iff hvalid).mp (h ids hids) _ hmem img hget
  · intro h ids hids
    refine (newImageStore_ok_iff fun id hid => ((hids.2 id).mp hid).2.2).mpr fun id _ => ?_
    exact h id

end

/-! ## A sample -/

/-- A configuration with one layer, the empty one. -/
def sampleConfig : List UInt8 :=
  bytesOf ("\x7b\"rootfs\":\x7b\"type\":\"layers\",\"diff_ids\":[\"" ++ Layer.sampleID ++ "\"]\x7d\x7d")

/-- A configuration without layers. -/
def scratchConfig : List UInt8 := bytesOf "\x7b\"rootfs\":\x7b\"type\":\"layers\"\x7d\x7d"

/-- What they decode to. -/
def sampleDecode : Decoder := fun b =>
  if b = sampleConfig then some { rootFS := some ⟨"layers", [Layer.sampleID]⟩, history := [] }
  else if b = scratchConfig then some { rootFS := some ⟨"layers", []⟩, history := [] }
  else none

/-- SHA-256 of no bytes and of the configurations. -/
def sampleHash : Hash :=
  .ofTable [([], Digest.emptySum),
    (sampleConfig, ⟨"75ff8407188b9242c5da22b277f2fcc03cf46afabeb11bac1856a3240f74c9c3", by decide⟩),
    (scratchConfig, ⟨"771d8c9be16b0dab3efba69c21e6e7bfdd23e2a044e2dfae68acaefe3b8bd0e6", by decide⟩)]

/-! ## A failing Create -/

section

variable {H : Hash} {decode : Decoder} {w : World} {config : List UInt8}

/-- If `Create` fails, it leaves the backend and the images as they were, and
`NewImageStore` succeeds on what it leaves. -/
def CreateUndone (H : Hash) (decode : Decoder) (w : World) (config : List UInt8) : Prop :=
  Triple (create H decode config).run (w, .idle) fun r s => ∀ e, r = .error e →
    s.1.fs.content = w.fs.content ∧ s.1.fs.metadata = w.fs.metadata ∧ s.1.images = w.images ∧
      Restorable H decode s.1.fs s.1.ls

/-- `Create` writes a configuration whose image is new and whose layer is
missing. -/
def MissesLayer (H : Hash) (decode : Decoder) (w : World) (config : List UInt8) : Prop :=
  ∃ rootFS, checkConfig decode config = .ok rootFS ∧ config.length ≠ 0 ∧
    w.fs.env w.fs.clock .writeContent = true ∧ H.fromBytes config ∉ w.images ∧ ¬ w.HasLayer (rootFS.chainID H)

theorem create_ends (H : Hash) (decode : Decoder) (w : World) (config : List UInt8) :
    Ends (create H decode config).run (w, .idle) := by
  unfold create
  cases checkConfig decode config with
  | error e => exact Ends.ret
  | ok rootFS =>
    refine Ends.bindE (Ends.step ?_) fun id s _ => Ends.step ⟨_, _, rfl⟩
    simp only
    split <;> exact ⟨_, _, rfl⟩

theorem Restorable.sameFiles {fs b : Backend} {ls : Layer.World} (h : Restorable H decode fs ls) (hb : fs.SameFiles b) :
    Restorable H decode b ls := by
  rw [restorable_iff] at h ⊢
  intro id img hget
  refine h id img (hget ▸ ?_)
  simp only [World.get, World.getParent, Backend.getMetadata, Backend.get, hb.content, hb.metadata]

/-- The part of `Create` under the lock succeeds, and the image is there then,
unless it is new and its layer is missing. -/
theorem publish_cases (w : World) (config : List UInt8) (rootFS : RootFS) :
    H.fromBytes config ∉ w.images ∧ ¬ w.HasLayer (rootFS.chainID H) ∧
      (∃ e, w.publish H (H.fromBytes config) rootFS = (.error e, w)) ∨
    (H.fromBytes config ∈ w.images ∨ w.HasLayer (rootFS.chainID H)) ∧
      ∃ w', w.publish H (H.fromBytes config) rootFS = (.ok (H.fromBytes config), w') ∧ w'.fs = w.fs ∧
        ∀ q, q ∈ w'.images ↔ q = H.fromBytes config ∨ q ∈ w.images := by
  unfold World.publish
  by_cases hmem : H.fromBytes config ∈ w.images
  · rw [if_pos hmem]
    exact .inr ⟨.inl hmem, w, rfl, rfl, fun q => (or_iff_right_of_imp fun e => e ▸ hmem).symm⟩
  · rw [if_neg hmem]
    rcases w.getLayer_ok_iff (rootFS.chainID H) with ⟨hn, e, hl⟩ | ⟨hl, l, ls, hok, -⟩
    · exact .inl ⟨hmem, hn, e, by simp only [hl]⟩
    · simp only [hok, validate_fromBytes]
      exact .inr ⟨.inr hl, _, rfl, rfl, fun q => Finmap.mem_insert⟩

/-- A `Create` of a new image whose layer is missing leaves its configuration. -/
theorem run_create_of_missesLayer (h : MissesLayer H decode w config) :
    ∃ e, (create H decode config).run.run (w, .idle) = some (.error e, w.wrote H config, .idle) := by
  obtain ⟨rootFS, hc, hlen, hok, hnew, hmiss⟩ := h
  obtain ⟨r, s, hrun⟩ := create_ends H decode w config
  have hleft : (∃ e, r = .error e) ∧ s = (w.wrote H config, .idle) := by
    refine create_triple (Q := fun r s => (∃ e, r = .error e) ∧ s = (w.wrote H config, .idle)) ?_ ?_ ?_ r s hrun
    · intro e he
      cases hc.symm.trans he
    · rintro _ e b _ (h | h) _
      · exact absurd h hlen
      · rw [hok] at h; cases h
    · intro rootFS' hc' _ _
      cases hc.symm.trans hc'
      rcases publish_cases (H := H) (w.wrote H config) config rootFS with ⟨-, -, e, hp⟩ | ⟨h, -⟩
      · rw [hp]
        exact ⟨⟨e, rfl⟩, rfl⟩
      · exact absurd h (not_or.mpr ⟨hnew, hmiss⟩)
  obtain ⟨⟨e, rfl⟩, rfl⟩ := hleft
  exact ⟨e, hrun⟩

theorem wrote_not_restorable (h : MissesLayer H decode w config) :
    ¬ Restorable H decode (w.wrote H config).fs (w.wrote H config).ls := by
  obtain ⟨rootFS, hc, -, -, -, hmiss⟩ := h
  intro hr
  obtain ⟨img, hget, rfl⟩ := World.get_of_stored (w := w.wrote H config) (Finmap.lookup_insert _) rfl hc
  exact hmiss (restorable_iff.mp hr _ img ((World.get_congr rfl).trans hget))

/-- A failing `Create` leaves everything as it was, and a backend from which
the store can be restored, unless it writes the configuration of a new image
whose layer is missing. -/
theorem create_undone_iff (hw : Restorable H decode w.fs w.ls) :
    CreateUndone H decode w config ↔ ¬ MissesLayer H decode w config := by
  constructor
  · intro hund hm
    obtain ⟨e, hrun⟩ := run_create_of_missesLayer hm
    exact wrote_not_restorable hm (hund _ _ hrun e rfl).2.2.2
  · intro hn
    refine create_triple (fun e _ e' _ => ⟨rfl, rfl, rfl, hw⟩) ?_ ?_
    · exact fun _ _ _ _ _ hb _ _ => ⟨hb.content, hb.metadata, rfl, hw.sameFiles hb⟩
    · intro rootFS hc hlen hok e he
      rcases publish_cases (H := H) (w.wrote H config) config rootFS with ⟨hnew, hmiss, -⟩ | ⟨-, w', hp, -⟩
      · exact absurd ⟨rootFS, hc, hlen, hok, hnew, hmiss⟩ hn
      · rw [hp] at he
        cases he

end

/-- An image store without images, on a layer store without layers. -/
def emptyWorld : World := { fs := { env := fun _ _ => true }, ls := { env := Layer.sampleEnv } }

theorem restorable_emptyWorld : Restorable sampleHash sampleDecode emptyWorld.fs emptyWorld.ls :=
  restorable_iff.mpr fun _ _ h => by
    obtain ⟨config, hs, -⟩ := World.content_of_get h
    cases hs

theorem sampleConfig_missesLayer : MissesLayer sampleHash sampleDecode emptyWorld sampleConfig :=
  ⟨⟨"layers", [Layer.sampleID]⟩, by decide +kernel, by decide +kernel, rfl, Finmap.notMem_empty,
    not_or.mpr ⟨by decide +kernel, Finmap.notMem_empty⟩⟩

/-- An image store with one image, without layers, in which no write succeeds any more. -/
def fullWorld : World where
  fs := { env := fun _ _ => false, content := (∅ : Map ID (List UInt8)).insert (sampleHash.fromBytes scratchConfig) scratchConfig }
  ls := emptyWorld.ls
  images := (∅ : Map ID ImageMeta).insert (sampleHash.fromBytes scratchConfig) ⟨none, ∅⟩

theorem restorable_fullWorld : Restorable sampleHash sampleDecode fullWorld.fs fullWorld.ls := by
  refine restorable_iff.mpr fun id img h => ?_
  obtain ⟨config, hs, hid⟩ := World.content_of_get h
  have hstored := hs
  simp only [fullWorld, Finmap.lookup_insert'] at hs
  split at hs
  · cases hs
    have hc : checkConfig sampleDecode scratchConfig = .ok ⟨"layers", []⟩ := by decide +kernel
    obtain ⟨img', hget, hroot⟩ := World.get_of_stored hstored hid hc
    cases h.symm.trans hget
    exact .inl (by rw [hroot]; rfl)
  · cases hs

/-- The write of another image's configuration fails: `Create` returns the error, and all is as it was. -/
theorem create_undone_of_failedWrite : sampleHash.fromBytes scratchConfig ∈ fullWorld.images ∧
    (∃ e s, (create sampleHash sampleDecode sampleConfig).run.run (fullWorld, .idle) = some (.error e, s)) ∧
    CreateUndone sampleHash sampleDecode fullWorld sampleConfig := by
  have hfail : ((create sampleHash sampleDecode sampleConfig).run.run (fullWorld, .idle)).any (fun r => !r.1.isOk) = true := by
    decide +kernel
  rw [Option.any_eq_true] at hfail
  obtain ⟨⟨r, s⟩, hrun, hr⟩ := hfail
  refine ⟨Finmap.mem_insert.mpr (.inl rfl), ?_, (create_undone_iff restorable_fullWorld).mpr ?_⟩
  · cases r with
    | error e => exact ⟨e, s, hrun⟩
    | ok id => cases hr
  · rintro ⟨rootFS, -, -, hok, -⟩
    cases hok

/-- The configuration of an image whose layer is missing stays in the backend,
and the store cannot be restored any more. -/
theorem create_leaves_config : ∃ w config, Restorable sampleHash sampleDecode w.fs w.ls ∧
    ∃ e w' c, (create sampleHash sampleDecode config).run.run (w, .idle) = some (.error e, w', c) ∧
      w'.fs.content ≠ w.fs.content ∧ ¬ Restorable sampleHash sampleDecode w'.fs w'.ls := by
  obtain ⟨e, hrun⟩ := run_create_of_missesLayer sampleConfig_missesLayer
  refine ⟨emptyWorld, sampleConfig, restorable_emptyWorld, e, _, _, hrun, fun h => ?_,
    wrote_not_restorable sampleConfig_missesLayer⟩
  have hmem : sampleHash.fromBytes sampleConfig ∈ (emptyWorld.wrote sampleHash sampleConfig).fs.content :=
    Finmap.mem_insert.mpr (.inl rfl)
  rw [h] at hmem
  exact Finmap.notMem_empty hmem

end Moby.Images
