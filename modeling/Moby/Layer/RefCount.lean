import Moby.Layer.Action
import Moby.Layer.RefInv

/-!
# Reference counts

In every state that any interleaving of calls reaches, whatever the
environment lets fail: the reference count of a layer is the number of its
references, of the layers and mounts on it, and of the calls in flight that
have it in hand; the parents of layers and mounts are in the layer map; and
`releaseLayer` has not panicked (`reference_counts`).
-/

namespace Moby.Layer

open Moby.Framework Moby.Digest

/-- The layers that the calls in flight have in hand. -/
def inHand (F : Multiset Call) : Multiset RoLayer := F.filterMap Call.parent

theorem inHand_cons (c : Call) (F : Multiset Call) :
    inHand (c ::ₘ F) = holds c.parent + inHand F :=
  filterMap_cons Call.parent c F

/-! ## The lock of the mounts -/

/-- One call at most holds `mountL`, and what it knows of its mount is so. -/
structure LockInv (w : World) (F : Multiset Call) : Prop where
  holders : (F.countP fun c => c.mount.isSome) = if w.ls.mountL then 1 else 0
  view : ∀ c ∈ F, ∀ v, c.mount = some v →
    v.mount = w.ls.mounts.lookup v.name ∧ v.dir = w.store.mounts.lookup v.name
  name : ∀ n m, w.ls.mounts.lookup n = some m → m.name = n

namespace LockInv

variable {w w' : World} {c c' : Call} {F : Multiset Call} {v v' : MountView} {m : MountedLayer}

theorem empty (env : Nat → Op → Answer) : LockInv { env } 0 :=
  ⟨rfl, fun _ h => absurd h (Multiset.notMem_zero _), fun _ _ h => by cases h⟩

/-- A step that does not touch the mounts. -/
theorem of_eq (h : LockInv w (c ::ₘ F)) (h₁ : w'.ls.mounts = w.ls.mounts)
    (h₂ : w'.ls.mountL = w.ls.mountL) (h₃ : w'.store.mounts = w.store.mounts)
    (h₄ : c'.mount = c.mount) : LockInv w' (c' ::ₘ F) := by
  refine ⟨?_, fun d hd v hv => ?_, fun n m hm => h.name n m (h₁ ▸ hm)⟩
  · rw [h₂, ← h.holders, Multiset.countP_cons, Multiset.countP_cons, h₄]
  · rw [h₁, h₃]
    rcases Multiset.mem_cons.mp hd with rfl | hd
    · exact h.view c (Multiset.mem_cons_self ..) v (h₄ ▸ hv)
    · exact h.view d (Multiset.mem_cons_of_mem hd) v hv

theorem view_self (h : LockInv w (c ::ₘ F)) (hc : c.mount = some v) :
    v.mount = w.ls.mounts.lookup v.name ∧ v.dir = w.store.mounts.lookup v.name :=
  h.view c (Multiset.mem_cons_self ..) v hc

/-- The mount that the holder of the lock has looked up. -/
theorem lookup_self (h : LockInv w (c ::ₘ F)) (hc : c.mount = some v) (hm : v.mount = some m) :
    w.ls.mounts.lookup m.name = some m ∧ m.name = v.name := by
  have hl := (h.view_self hc).1
  rw [hm] at hl
  have hn := h.name _ _ hl.symm
  rw [hn]
  exact ⟨hl.symm, rfl⟩

/-- The lock is held by the call that has looked up a mount, and by no
other. -/
theorem only (h : LockInv w (c ::ₘ F)) (hc : c.mount = some v) :
    w.ls.mountL = true ∧ ∀ d ∈ F, d.mount = none := by
  have hh := h.holders
  simp only [Multiset.countP_cons, hc, Option.isSome_some, if_true] at hh
  cases hL : w.ls.mountL with
  | false => simp [hL] at hh
  | true =>
    refine ⟨rfl, fun d hd => ?_⟩
    have h0 : (F.countP fun c => c.mount.isSome) = 0 := by simpa [hL] using hh
    simpa using Multiset.countP_eq_zero.mp h0 d hd

theorem none_of_unlocked (h : LockInv w F) (hl : w.ls.mountL = false) : ∀ d ∈ F, d.mount = none := by
  intro d hd
  have h0 : (F.countP fun c => c.mount.isSome) = 0 := by rw [h.holders, hl]; rfl
  simpa using Multiset.countP_eq_zero.mp h0 d hd

/-- A step of the holder of the lock, which keeps it. -/
theorem step (h : LockInv w (c ::ₘ F)) (hc : c.mount = some v) (hc' : c'.mount = some v')
    (h₁ : v'.mount = w'.ls.mounts.lookup v'.name) (h₂ : v'.dir = w'.store.mounts.lookup v'.name)
    (h₃ : w'.ls.mountL = w.ls.mountL)
    (h₄ : ∀ n m, w'.ls.mounts.lookup n = some m → m.name = n) : LockInv w' (c' ::ₘ F) := by
  refine ⟨?_, fun d hd u hu => ?_, h₄⟩
  · rw [h₃, ← h.holders, Multiset.countP_cons, Multiset.countP_cons, hc, hc']
    rfl
  · rcases Multiset.mem_cons.mp hd with rfl | hd
    · cases hc'.symm.trans hu; exact ⟨h₁, h₂⟩
    · rw [(h.only hc).2 d hd] at hu; cases hu

end LockInv

/-! ## What an action keeps -/

section

variable {H : Hash} {ff : Prop} {w w' : World} {c c' : Call} {F : Multiset Call}

theorem RefInv.action (ha : Action H ff (w, c) (w', c')) (hl : LockInv w (c ::ₘ F))
    (h : RefInv w.ls (inHand (c ::ₘ F))) : RefInv w'.ls (inHand (c' ::ₘ F)) := by
  rw [inHand_cons] at h ⊢
  cases ha with
  | skip | tick | generateRandomID | driverCreate | driverCreateMount | startTransaction | writeTx
  | cancel | driverRemoveCreated | writeMount | mkdirMount | driverRemoveMount | removeMount => exact h
  | lockMount | unlockMount => exact h.of_eq rfl rfl rfl rfl (Nat.le_refl _) rfl
  | getParent hc hl =>
    rw [hc, holds, zero_add] at h
    simpa only [holds, Multiset.singleton_add] using h.retain (h.live_of_lookup hl)
  | releaseParent hc =>
    rw [hc, holds, Multiset.singleton_add] at h
    simpa only [holds, zero_add] using h.releaseLayer
  | reference hl => exact (h.retain (h.live_of_lookup hl)).getReference
  | publish _ _ _ _ _ _ new =>
    simpa only [holds, zero_add] using (h.addLayer new).getReference
  | release hl hr => exact (h.deleteReference (h.live_of_lookup hl) hr).releaseLayer
  | references rs hc hm hn =>
    rename_i v m n
    have hv := hl.lookup_self hc hm
    exact (h.updateMount (m := { m with references := rs }) hv.1 rfl).of_eq rfl rfl rfl rfl hn rfl
  | publishMount hc hm hn hp =>
    rw [hp] at h
    have hv := (hl.view_self hc).1
    rw [hm, ← hn] at hv
    simpa only [holds, zero_add] using h.publishMount hv.symm
  | deleteMount hc hm hp =>
    rw [hp, holds, zero_add] at h
    exact h.deleteMount (hl.lookup_self hc hm).1

theorem LockInv.action (ha : Action H ff (w, c) (w', c')) (hr : RefInv w.ls (inHand (c ::ₘ F)))
    (h : LockInv w (c ::ₘ F)) : LockInv w' (c' ::ₘ F) := by
  rw [inHand_cons] at hr
  have ofRest {w₁ : World} (e : w₁.rest = w.rest) (hc : c'.mount = c.mount) :
      LockInv w₁ (c' ::ₘ F) := by
    simp only [World.rest, Prod.mk.injEq] at e
    exact h.of_eq e.2.1 e.2.2.1 e.2.2.2.2.1 hc
  cases ha with
  | skip | tick | generateRandomID | driverCreate | driverCreateMount | startTransaction
  | cancel | driverRemoveCreated | driverRemoveMount | getParent | reference | publish =>
    exact h.of_eq rfl rfl rfl rfl
  | writeTx => exact h.of_eq rfl rfl (MetadataStore.mounts_writeTmp ..) rfl
  | releaseParent hc =>
    rw [hc, holds, Multiset.singleton_add] at hr
    exact ofRest (World.releaseLayer_rest hr) rfl
  | release hl hr' =>
    exact ofRest (World.releaseLayer_rest
      (w := { w with ls := _ }) (hr.deleteReference (hr.live_of_lookup hl) hr')) rfl
  | lockMount name hc hl =>
    have hn := h.none_of_unlocked hl
    refine ⟨?_, fun d hd v hv => ?_, h.name⟩
    · have hh := h.holders
      simp only [Multiset.countP_cons, hc, hl, Option.isSome_none] at hh
      simpa using hh
    · rcases Multiset.mem_cons.mp hd with rfl | hd
      · cases hv; exact ⟨rfl, rfl⟩
      · rw [hn d (Multiset.mem_cons_of_mem hd)] at hv; cases hv
  | unlockMount hc hv =>
    have hn := (h.only hc).2
    refine ⟨?_, fun d hd v hv => ?_, h.name⟩
    · rw [Multiset.countP_cons_of_neg _ (by simp)]
      exact Multiset.countP_eq_zero.mpr fun d hd => by simp [hn d hd]
    · rcases Multiset.mem_cons.mp hd with rfl | hd
      · cases hv
      · rw [hn d hd] at hv; cases hv
  | references rs hc hm =>
    have hv := h.lookup_self hc hm
    refine h.step hc rfl ?_ (h.view_self hc).2 rfl fun n m hm => ?_
    · simp [hv.2]
    · rw [Finmap.lookup_insert'] at hm
      split at hm
      · cases hm; rename_i e; exact e.symm
      · exact h.name n m hm
  | writeMount hc hm =>
    refine h.step hc rfl (h.view_self hc).1 ?_ rfl h.name
    simp [MountView.write, MetadataStore.lookup_writeMount, (h.view_self hc).2]
  | mkdirMount hc hm =>
    refine h.step hc rfl (h.view_self hc).1 ?_ ?_ ?_
    · simp [MountView.mkdir, MetadataStore.lookup_mkdirMount, (h.view_self hc).2]
    · rfl
    · exact h.name
  | publishMount hc hm hn =>
    refine h.step hc rfl (by simp [hn]) (h.view_self hc).2 rfl fun n m hm => ?_
    rw [Finmap.lookup_insert'] at hm
    split at hm
    · cases hm; rename_i e; exact e.symm
    · exact h.name n m hm
  | removeMount hc hm =>
    have hv := h.lookup_self hc hm
    exact h.step hc rfl (h.view_self hc).1 (by simp [hv.2]) rfl h.name
  | deleteMount hc hm =>
    have hv := h.lookup_self hc hm
    refine h.step hc rfl (by simp [hv.2]) (h.view_self hc).2 rfl fun n m hm => ?_
    rw [Finmap.lookup_erase'] at hm
    split at hm
    · cases hm
    · exact h.name n m hm

end

/-! ## Runs -/

section

variable {H : Hash} {env : Nat → Op → Answer} {x : Config World Call}

theorem RefInv.call {s : LayerStore} {F : Multiset Call} (h : RefInv s (inHand F)) :
    RefInv s (inHand ({} ::ₘ F)) := by
  rw [inHand_cons]; simpa [holds] using h

theorem RefInv.return {s : LayerStore} {c : Call} {F : Multiset Call} (hc : c.At none none)
    (h : RefInv s (inHand (c ::ₘ F))) : RefInv s (inHand F) := by
  rwa [inHand_cons, hc.1, holds, zero_add] at h

theorem LockInv.call {w : World} {F : Multiset Call} (h : LockInv w F) : LockInv w ({} ::ₘ F) := by
  refine ⟨by simpa using h.holders, fun d hd v hv => ?_, h.name⟩
  rcases Multiset.mem_cons.mp hd with rfl | hd
  · cases hv
  · exact h.view d hd v hv

theorem LockInv.return {w : World} {c : Call} {F : Multiset Call} (hc : c.At none none)
    (h : LockInv w (c ::ₘ F)) : LockInv w F :=
  ⟨by simpa [hc.2] using h.holders, fun d hd => h.view d (Multiset.mem_cons_of_mem hd), h.name⟩

theorem reaches_inv (hx : Reaches H env x) :
    RefInv x.1.ls (inHand x.calls) ∧ LockInv x.1 x.calls :=
  reachable_inv (A := Assumes False) (R := Action H False) (D := Call.At none none)
    (I := fun w F => RefInv w.ls (inHand F) ∧ LockInv w F) Request.follows
    (fun _ _ _ h => h.elim) ⟨RefInv.empty, LockInv.empty env⟩ (fun _ _ h => ⟨h.1.call, h.2.call⟩)
    (fun _ _ _ hc h => ⟨h.1.return hc, h.2.return hc⟩)
    (fun _ _ _ _ _ ha h => ⟨h.1.action ha h.2, h.2.action ha h.1⟩) hx

/-- The reference count of every layer in the layer map is the number of its
references, of the layers and of the mounts whose parent it is, and of the
calls in flight that have taken it and neither published nor released it; the
parents of layers and of mounts are in the map; no panic is reached. -/
theorem reference_counts (hx : Reaches H env x) :
    (∀ k l, x.1.ls.layerMap.lookup k = some l → x.1.ls.referenceCount l =
      (x.1.ls.references l).card + x.1.ls.children l + x.1.ls.mountsOn l +
        x.calls.countP fun c => c.parent = some l) ∧
    (∀ k l p, x.1.ls.layerMap.lookup k = some l → l.parent = some p →
      x.1.ls.layerMap.lookup p.chainID = some p) ∧
    (∀ n m p, x.1.ls.mounts.lookup n = some m → m.parent = some p →
      x.1.ls.layerMap.lookup p.chainID = some p) ∧
    x.1.ls.panicked = none := by
  have h := (reaches_inv hx).1
  refine ⟨fun k l hl => ?_, fun k l p hl hp => h.parent l p (h.live_of_lookup hl) hp, h.mount,
    h.noPanic⟩
  rw [h.count l (h.live_of_lookup hl), inHand, count_filterMap]

end

/-- A hash function with the sum of no bytes. -/
def sampleHash : Hash := .ofTable [([], Digest.emptySum)]

/-- The digest of no bytes. -/
def sampleID : ChainID := "sha256:e3b0c44298fc1c149afbf4c8996fb92427ae41e4649b934ca495991b7852b855"

/-- An environment in which nothing fails; it draws one ID up to the fourth
tick and another one then. -/
def sampleEnv (n : Nat) : Op → Answer
  | .generateRandomID =>
    if n < 4 then { id := "f0e1d2c3b4a5968778695a4b3c2d1e0ff0e1d2c3b4a5968778695a4b3c2d1e0f" }
    else { id := "0a1b2c3d4e5f60718293a4b5c6d7e8f90a1b2c3d4e5f60718293a4b5c6d7e8f9" }
  | .startTransaction => { id := "layer-1" }
  | _ => { size := 1024 }

/-- A layer with a mount on it, in a reachable state: the reference that its
registration returned and the mount hold it. -/
theorem reference_counts_of_mount : ∃ x l, Reaches sampleHash sampleEnv x ∧
    x.1.ls.layerMap.lookup sampleID = some l ∧ (x.1.ls.references l).card = 1 ∧
    x.1.ls.mountsOn l = 1 ∧ x.1.ls.referenceCount l = 1 + x.1.ls.children l + 1 +
      x.calls.countP fun c => c.parent = some l := by
  have hrun : ((runAll (Request.prog sampleHash) {}
      [.register [] "" {}, .createRWLayer "web" sampleID true] { env := sampleEnv }).any fun w =>
      (w.ls.layerMap.lookup sampleID).any fun l =>
        (w.ls.references l).card = 1 ∧ w.ls.mountsOn l = 1) = true := by decide +kernel
  simp only [Option.any_eq_true, decide_eq_true_eq] at hrun
  obtain ⟨w, hw, l, hl, hr, hm⟩ := hrun
  have hx : Reaches sampleHash sampleEnv (w, 0) := Reachable.runAll .refl hw
  refine ⟨(w, 0), l, hx, hl, hr, hm, ?_⟩
  have := (reference_counts hx).1 _ _ hl
  rwa [hr, hm] at this

end Moby.Layer
