import Moby.Images.Restore

/-!
# Creating and deleting an image at the same time

`Create` writes the configuration of an image before it takes the lock of the
store. If a `Delete` of the same image comes between the two, the image is
published without its configuration (`published_without_config`). In the runs
in which none does, the backend has the configuration of every image
(`images_stored`).
-/

namespace Moby.Images

open Moby.Framework Moby.Digest

/-- What a step of a call can do. -/
inductive Action (H : Hash) (decode : Decoder) : World × Call → World × Call → Prop
  | wrote {w config rootFS} (hc : checkConfig decode config = .ok rootFS) :
    Action H decode (w, .idle) (w.wrote H config, .creating (H.fromBytes config))
  | writeFails {w b} (hb : w.fs.SameFiles b) : Action H decode (w, .idle) ({ w with fs := b }, .idle)
  | publish {w id rootFS} : Action H decode (w, .creating id) ((w.publish H id rootFS).2, .idle)
  | lock {w id} : Action H decode (w, .idle) (w, .deleting id)
  | delete {w id} : Action H decode (w, .deleting id) ((w.delete H id).2, .idle)
  | setParent {w id parent} : Action H decode (w, .idle) ((w.setParent H id parent).2, .idle)

section

variable {H : Hash} {decode : Decoder}

/-- The steps of every call are among the actions. -/
theorem Request.follows (q : Request) :
    Follows (fun _ => True) (Action H decode) (q.prog H decode) .idle fun _ c => c = .idle := by
  cases q with
  | create config =>
    refine Follows.bind (Follows.mono (P := fun _ c => c = .idle) ?_ fun _ _ h => Follows.pure h)
    unfold Images.create
    cases hc : checkConfig decode config with
    | error e => exact rfl
    | ok rootFS =>
      refine Follows.bindE (Follows.step fun w r w' c' _ hs => ?_)
      rcases w.fs.set_cases (H := H) config with ⟨-, e, b, he, hb⟩ | ⟨-, -, he⟩ <;>
        simp only [he] at hs <;> cases hs
      · exact ⟨.writeFails hb, rfl⟩
      · refine ⟨.wrote hc, Follows.step fun w r w' c' _ hs => ?_⟩
        cases hs
        exact ⟨.publish, rfl⟩
  | delete id =>
    refine Follows.bind (Follows.bind (Follows.step fun w _ w' c' _ hs => ?_))
    cases hs
    refine ⟨.lock, Follows.step fun w r w' c' _ hs => ?_⟩
    cases hs
    exact ⟨.delete, rfl⟩
  | setParent id parent => exact Follows.bind (Follows.atomically fun w _ => ⟨.setParent, rfl⟩)

/-- The backend has a configuration of `id`, and it is one of an image. -/
def World.Stores (H : Hash) (decode : Decoder) (w : World) (id : ID) : Prop :=
  ∃ config img, w.fs.content.lookup id = some config ∧ H.fromBytes config = id ∧
    newFromJSON decode config id "" = .ok img

theorem World.Stores.mem {w : World} {id : ID} (h : w.Stores H decode id) : id ∈ w.fs.content := by
  obtain ⟨config, _, hs, -⟩ := h
  exact Finmap.mem_of_lookup_eq_some hs

theorem newFromJSON_parent {src : List UInt8} {id p p' : ID} {img : Image} (h : newFromJSON decode src id p = .ok img) :
    newFromJSON decode src id p' = .ok { img with parent := p' } := by
  unfold newFromJSON at h ⊢
  cases hd : decode src with
  | none => rw [hd] at h; cases h
  | some c =>
    simp only [hd] at h ⊢
    cases hr : c.rootFS with
    | none => simp only [hr] at h; cases h
    | some r => simp only [hr] at h ⊢; cases h; rfl

/-- `Get` succeeds on what the backend stores. -/
theorem World.stores_iff {w : World} {id : ID} : w.Stores H decode id ↔ ∃ img, w.get H decode id = .ok img := by
  constructor
  · rintro ⟨config, img, hs, hid, hn⟩
    have hget : w.fs.get H id = .ok config := Backend.get_ok.mpr ⟨hs, hid⟩
    exact ⟨_, by simp only [World.get, hget]; exact newFromJSON_parent hn⟩
  · rintro ⟨img, hget⟩
    unfold World.get at hget
    cases hc : w.fs.get H id with
    | error e => rw [hc] at hget; cases hget
    | ok config =>
      simp only [hc] at hget
      obtain ⟨hs, hid⟩ := Backend.get_ok.mp hc
      exact ⟨config, _, hs, hid, newFromJSON_parent hget⟩

/-- The backend has the configurations of the images, and those of the images
that a `Create` is about to publish. -/
def StoredInv (H : Hash) (decode : Decoder) (w : World) (F : Multiset Call) : Prop :=
  ∀ id, id ∈ w.images ∨ .creating id ∈ F → w.Stores H decode id

/-- A `Delete` waits until no `Create` of the same image is between its two
steps. -/
def NoOverlap (_ : World) (c : Call) (F : Multiset Call) : Prop := ∀ id, c = .deleting id → .creating id ∉ F

theorem World.getLayer_same (w : World) (k : Layer.ChainID) :
    (w.getLayer k).2.fs = w.fs ∧ (w.getLayer k).2.images = w.images := by
  unfold getLayer
  split
  · exact ⟨rfl, rfl⟩
  · rcases e : w.ls.get k with ⟨_ | _, ls⟩ <;> exact ⟨rfl, rfl⟩

/-- The locked part of `Create` adds no other image, and leaves the backend. -/
theorem World.publish_spec (w : World) (id : ID) (rootFS : RootFS) : (w.publish H id rootFS).2.fs = w.fs ∧
    ∀ q ∈ (w.publish H id rootFS).2.images, q = id ∨ q ∈ w.images := by
  unfold publish
  split
  · exact ⟨rfl, fun q => .inr⟩
  · obtain ⟨hfs, himages⟩ := w.getLayer_same (rootFS.chainID H)
    rcases e : w.getLayer (rootFS.chainID H) with ⟨_ | l, w'⟩ <;> simp only [e] at hfs himages ⊢
    · exact ⟨hfs, fun q hq => .inr (himages ▸ hq)⟩
    · cases validate id with
      | error e => exact ⟨hfs, fun q hq => .inr (himages ▸ (Finmap.mem_erase.mp hq).2)⟩
      | ok u => exact ⟨hfs, fun q hq => himages ▸ Finmap.mem_insert.mp hq⟩

/-- `Delete` of an image keeps the configurations of the others. -/
theorem Backend.delete_content (b : Backend) {id q : ID} (hq : q ≠ id) :
    (b.delete id).2.content.lookup q = b.content.lookup q := by
  unfold delete
  have h := b.attempt_content .removeMetadata
    (fun _ => rfl : ∀ b : Backend, { b with metadata := Function.update b.metadata id ∅ }.content = b.content)
  rcases e : b.attempt .removeMetadata fun b => { b with metadata := Function.update b.metadata id ∅ }
    with ⟨_ | _, b₁⟩ <;> simp only [e] at h ⊢
  · rw [h]
  · rw [← h]
    split
    · rfl
    · unfold attempt
      split
      · exact Finmap.lookup_erase_ne hq
      · rfl

theorem StoredInv.action {w w' : World} {c c' : Call} {F : Multiset Call} (ha : Action H decode (w, c) (w', c'))
    (hG : NoOverlap w c F) (h : StoredInv H decode w (c ::ₘ F)) : StoredInv H decode w' (c' ::ₘ F) := by
  intro q hq
  cases ha with
  | @wrote _ config rootFS hc =>
    by_cases he : q = H.fromBytes config
    · subst he
      obtain ⟨img, hget, -⟩ := World.get_of_stored (w := w.wrote H config) (Finmap.lookup_insert _) rfl hc
      exact World.stores_iff.mpr ⟨img, hget⟩
    · obtain ⟨d, r, hs, hd⟩ := h q (hq.imp id fun hm => by simpa [he] using hm)
      exact ⟨d, r, (Finmap.lookup_insert_of_ne _ he).trans hs, hd⟩
  | writeFails hb =>
    obtain ⟨d, r, hs, hd⟩ := h q hq
    exact ⟨d, r, hb.content ▸ hs, hd⟩
  | @publish _ id rootFS =>
    obtain ⟨hfs, himages⟩ := w.publish_spec (H := H) id rootFS
    obtain ⟨d, r, hs, hd⟩ := h q <| by
      rcases hq with hq | hq
      · rcases himages q hq with rfl | hq
        · exact .inr (Multiset.mem_cons_self ..)
        · exact .inl hq
      · exact .inr (Multiset.mem_cons_of_mem ((Multiset.mem_cons.mp hq).resolve_left nofun))
    exact ⟨d, r, hfs ▸ hs, hd⟩
  | lock => exact h q (hq.imp_right fun hm => by simpa using hm)
  | @delete _ id =>
    cases hm : w.images.lookup id with
    | none =>
      simp only [World.delete, hm] at hq ⊢
      exact h q (hq.imp_right fun hm => by simpa using hm)
    | some m =>
      obtain ⟨hfs, himages⟩ := World.delete_spec (H := H) hm
      replace hq : (q ∈ w.images ∧ q ≠ id) ∨ .creating q ∈ F :=
        hq.imp (himages q).mp fun hm => (Multiset.mem_cons.mp hm).resolve_left fun e => by cases e
      have hne : q ≠ id := by
        rintro rfl
        rcases hq with hq | hq
        · exact hq.2 rfl
        · exact hG q rfl hq
      obtain ⟨d, r, hs, hd⟩ := h q (hq.imp And.left Multiset.mem_cons_of_mem)
      exact ⟨d, r, by rw [hfs, Backend.delete_content _ hne]; exact hs, hd⟩
  | @setParent _ id parent =>
    obtain ⟨hcontent, himages⟩ := w.setParent_spec H id parent
    obtain ⟨d, r, hs, hd⟩ := h q (hq.imp_left (himages q).mp)
    exact ⟨d, r, hcontent ▸ hs, hd⟩

/-- In every run in which no `Delete` comes between the two steps of a `Create`
of the same image, the backend has the configuration of every image, and `Get`
succeeds on it: whatever writes fail. -/
theorem images_stored {w₀ : World} (h₀ : ∀ id ∈ w₀.images, ∃ img, w₀.get H decode id = .ok img)
    {x : Framework.Config World Call} (hx : ReachableIf (Request.prog H decode) .idle w₀ NoOverlap x) :
    ∀ id ∈ x.1.images, id ∈ x.1.fs.content ∧ ∃ img, x.1.get H decode id = .ok img := by
  have hinv : StoredInv H decode x.1 x.calls := by
    refine reachableIf_inv_of (K := fun _ _ => True) (I := StoredInv H decode) Request.follows
      (fun _ _ => trivial) (fun _ _ _ _ => trivial) ?_ ?_ ?_ ?_ hx
    · rintro id (hid | hid)
      · exact World.stores_iff.mpr (h₀ id hid)
      · exact absurd hid (Multiset.notMem_zero _)
    · exact fun w F h id hid => h id (hid.imp_right fun hm =>
        (Multiset.mem_cons.mp hm).resolve_left fun e => by cases e)
    · exact fun w c F _ h id hid => h id (hid.imp_right Multiset.mem_cons_of_mem)
    · exact fun w c w' c' F _ _ hG ha h => h.action ha hG
  intro id hid
  exact ⟨(hinv id (.inl hid)).mem, World.stores_iff.mp (hinv id (.inl hid))⟩

/-- The two steps of a `Create` that is not refused. -/
theorem create_steps {config : List UInt8} {rootFS : RootFS} (hc : checkConfig decode config = .ok rootFS)
    (hlen : config.length ≠ 0) : ∃ (m : Act World Call (Except Err ID)) (k : Except Err ID → P Unit),
    (Request.create config).prog H decode = .act m k ∧
    (∀ w : World, w.fs.env w.fs.clock .writeContent = true →
      m (w, .idle) = some (.ok (H.fromBytes config), w.wrote H config, .creating (H.fromBytes config))) ∧
    ∀ w c, (k (.ok (H.fromBytes config))).run (w, c) =
      some ((), (w.publish H (H.fromBytes config) rootFS).2, .idle) := by
  refine ⟨_, _, by rw [Request.prog, create, hc]; rfl, fun w hok => ?_, fun w c => rfl⟩
  rcases w.fs.set_cases (H := H) config with ⟨h, -⟩ | ⟨-, -, he⟩
  · rw [hok] at h
    exact absurd h (not_or.mpr ⟨hlen, nofun⟩)
  · simp only [he]
    rfl

end

/-- The ID of `scratchConfig`. -/
def scratchID : ID := sampleHash.fromBytes scratchConfig

/-- An image that is created, deleted and created again, with its configuration in the backend. -/
theorem images_stored_of_create : ∃ x : Framework.Config World Call,
    ReachableIf (Request.prog sampleHash sampleDecode) .idle emptyWorld NoOverlap x ∧
    scratchID ∈ x.1.images ∧ scratchID ∈ x.1.fs.content ∧
    ∃ img, x.1.get sampleHash sampleDecode scratchID = .ok img := by
  have hrun : ((runAll (Request.prog sampleHash sampleDecode) .idle
      [.create scratchConfig, .delete scratchID, .create scratchConfig] emptyWorld).any
      fun w => scratchID ∈ w.images) = true := by decide +kernel
  simp only [Option.any_eq_true, decide_eq_true_eq] at hrun
  obtain ⟨w, hw, hid⟩ := hrun
  have hx : ReachableIf (Request.prog sampleHash sampleDecode) .idle emptyWorld NoOverlap (w, 0) :=
    Step.runAll (fun _ _ _ _ => Multiset.notMem_zero _) hw
  exact ⟨_, hx, hid, images_stored (fun _ h => absurd h Finmap.notMem_empty) hx scratchID hid⟩

/-- A `Create` writes a configuration, another `Create` of the same image and
its `Delete` run from their start to their end, and the first `Create`
publishes the image: its configuration is not there. -/
theorem published_without_config : ∃ x : Framework.Config World Call,
    Reachable (Request.prog sampleHash sampleDecode) .idle emptyWorld x ∧
    scratchID ∈ x.1.images ∧ scratchID ∉ x.1.fs.content ∧
    ∀ img, x.1.get sampleHash sampleDecode scratchID ≠ .ok img := by
  have hc : checkConfig sampleDecode scratchConfig = .ok ⟨"layers", []⟩ := by decide +kernel
  obtain ⟨m, k, hprog, hm, hk⟩ := create_steps (H := sampleHash) hc (by decide +kernel)
  have hrun : ((runAll (Request.prog sampleHash sampleDecode) .idle [.create scratchConfig, .delete scratchID]
      (emptyWorld.wrote sampleHash scratchConfig)).any fun w => scratchID ∉ w.fs.content) = true := by decide +kernel
  simp only [Option.any_eq_true, decide_eq_true_eq] at hrun
  obtain ⟨w, hw, hid⟩ := hrun
  have hfirst : Reachable (Request.prog sampleHash sampleDecode) .idle emptyWorld
      (emptyWorld.wrote sampleHash scratchConfig, (.creating scratchID, k (.ok scratchID)) ::ₘ 0) := by
    have hcall : Step (Request.prog sampleHash sampleDecode) .idle (fun _ _ _ => True) (emptyWorld, 0)
        (emptyWorld, (.idle, (Request.create scratchConfig).prog sampleHash sampleDecode) ::ₘ 0) :=
      .call (Request.create scratchConfig)
    rw [hprog] at hcall
    exact (Relation.ReflTransGen.single hcall).tail (.act (hm emptyWorld rfl) trivial)
  have hlast := (hfirst.runAll hw).trans (Step.run (fun _ _ => trivial) (hk w _))
  have hcontent : scratchID ∉ (w.publish sampleHash scratchID ⟨"layers", []⟩).2.fs.content := by
    rwa [(w.publish_spec _ _).1]
  refine ⟨_, hlast, ?_, hcontent, fun img h => hcontent (World.stores_iff.mpr ⟨img, h⟩).mem⟩
  rcases publish_cases (H := sampleHash) w scratchConfig ⟨"layers", []⟩ with ⟨-, h, -⟩ | ⟨-, w', hp, -, hmem⟩
  · exact absurd (.inl rfl) h
  · show scratchID ∈ (w.publish sampleHash (sampleHash.fromBytes scratchConfig) ⟨"layers", []⟩).2.images
    rw [hp]
    exact (hmem _).mpr (.inl rfl)

end Moby.Images
