import Moby.Images.Concurrent

/-!
# A parent that is not set

`SetParent` checks the parent and changes the children of two images before it
writes the link of the image, so that an image that is not there is left among
the children when it fails (`World.setParent_error_unchanged_iff`).
-/

namespace Moby.Images

open Moby.Framework Moby.Digest

/-- `SetParent` that fails leaves the links in the backend. It leaves the children of every image
exactly if the parent is unknown, or if the image was among its children and among those of no
other image that its link names. -/
theorem World.setParent_error_unchanged_iff (H : Hash) (w : World) (id parent : ID) {e : Err} {w' : World}
    (hid : ':' ∈ id.toList) (h : w.setParent H id parent = (.error e, w')) :
    (∀ c, w'.parentFile c = w.parentFile c) ∧
    ((∀ q, w'.children q = w.children q) ↔ parent ∉ w.images ∨
      id ∈ w.children parent ∧ ∀ p, w.getParent H id = .ok p → p ≠ parent → id ∉ w.children p) := by
  unfold World.setParent at h
  cases hm : w.images.lookup parent with
  | none =>
    rw [hm] at h
    cases h
    exact ⟨fun _ => rfl, iff_of_true (fun _ => rfl) (.inl (Finmap.lookup_eq_none.mp hm))⟩
  | some m =>
    have hp : parent ∈ w.images := Finmap.mem_of_lookup_eq_some hm
    have hsame₁ := World.unlink_same H w id
    have hsame := hsame₁.trans (World.addChild_spec (w.unlink H id) id (hsame₁.mem.mpr hp)).1
    simp only [hm, not_not_intro hid, if_false] at h
    rcases hset : ((w.unlink H id).addChild parent id).fs.setMetadata H id "parent" parent with ⟨e' | _, fs⟩
    · simp only [hset] at h
      cases h
      refine ⟨fun c => ?_, ?_⟩
      · show (fs.metadata c).lookup "parent" = _
        rw [Backend.setMetadata_error hset, hsame.fs]
        rfl
      · rw [or_iff_right (not_not_intro hp)]
        exact World.relinked_iff hp
    · simp only [hset] at h
      cases h

/-- The digest of no image. -/
def absentID : ID := "sha256:0000000000000000000000000000000000000000000000000000000000000000"

/-- `SetParent` of an image that is not there, in a store with one image: it fails, and the image
has got a child. -/
theorem setParent_unknown_adds_child : ∃ (w w' : World) (e : Err),
    Reachable (Request.prog sampleHash sampleDecode) .idle emptyWorld (w, 0) ∧ validate absentID = .ok () ∧
    w.setParent sampleHash absentID scratchID = (.error e, w') ∧
    w.children scratchID = ∅ ∧ w'.children scratchID = {absentID} := by
  have hrun : ((runAll (Request.prog sampleHash sampleDecode) .idle [.create scratchConfig] emptyWorld).any fun w =>
      (w.setParent sampleHash absentID scratchID).1.isOk = false ∧ w.children scratchID = ∅ ∧
      (w.setParent sampleHash absentID scratchID).2.children scratchID = {absentID}) = true := by decide +kernel
  simp only [Option.any_eq_true, decide_eq_true_eq] at hrun
  obtain ⟨w, hw, hfail, hbefore, hafter⟩ := hrun
  rcases hset : w.setParent sampleHash absentID scratchID with ⟨e | _, w'⟩
  · rw [hset] at hafter
    exact ⟨w, w', e, Reachable.runAll .refl hw, by decide +kernel, hset, hbefore, hafter⟩
  · rw [hset] at hfail
    cases hfail

/-- The same call once more, which fails and finds its edge there. -/
theorem setParent_again_unchanged : ∃ (w w' : World) (e : Err),
    Reachable (Request.prog sampleHash sampleDecode) .idle emptyWorld (w, 0) ∧
    w.setParent sampleHash absentID scratchID = (.error e, w') ∧ absentID ∈ w.children scratchID ∧
    (∀ c, w'.parentFile c = w.parentFile c) ∧ ∀ q, w'.children q = w.children q := by
  have hrun : ((runAll (Request.prog sampleHash sampleDecode) .idle
      [.create scratchConfig, .setParent absentID scratchID] emptyWorld).any fun w =>
      (w.setParent sampleHash absentID scratchID).1.isOk = false ∧ absentID ∈ w.children scratchID ∧
      (w.getParent sampleHash absentID).isOk = false) = true := by decide +kernel
  simp only [Option.any_eq_true, decide_eq_true_eq] at hrun
  obtain ⟨w, hw, hfail, hmem, hparent⟩ := hrun
  rcases hset : w.setParent sampleHash absentID scratchID with ⟨e | _, w'⟩
  · have hunchanged := World.setParent_error_unchanged_iff sampleHash w absentID scratchID (by decide) hset
    refine ⟨w, w', e, Reachable.runAll .refl hw, hset, hmem, hunchanged.1,
      hunchanged.2.mpr (.inr ⟨hmem, fun p hp => ?_⟩)⟩
    rw [hp] at hparent
    cases hparent
  · rw [hset] at hfail
    cases hfail

end Moby.Images
