import Moby.Graphdriver.Overlay2

/-!
# Mounts of aufs layers (daemon/graphdriver/aufs/aufs.go)

`Get` counts the users of a mount point and mounts it for the first one. If that mount fails, the
counter stays incremented, and the next `Get` takes the mount point for mounted. While no `Get` of the
mount point fails, a counter of one or more means that it is mounted (`Counted`), and then what `Get`
returns is (`get_returns_mounted`).
-/

namespace Moby.Graphdriver.Aufs

open Moby.Framework

variable {ι π : Type}

/-- What the file of a layer says, if there is one, and the paths of the layers. -/
structure Layout (ι π : Type) where
  parentIds : ι → Option (List ι)
  mountpoint : ι → π
  diffPath : ι → π

namespace Layout

/-- `getParentLayerPaths`, where a file that is not there is no error. -/
def parents (l : Layout ι π) (id : ι) : List π := ((l.parentIds id).getD []).map l.diffPath

end Layout

structure Driver (ι π : Type) where
  counts : π → Option Minfo
  pathCache : ι → Option π
  /-- The kernel's side. -/
  mounted : π → Bool

namespace Driver

/-- The driver has been started: directories may have been left mounted. -/
def init (mounted : π → Bool) : Driver ι π := { counts := fun _ => none, pathCache := fun _ => none, mounted := mounted }

variable [DecidableEq ι] [DecidableEq π]

def setCount (d : Driver ι π) (m : π) (info : Minfo) : Driver ι π :=
  { d with counts := Function.update d.counts m (some info) }

def setPath (d : Driver ι π) (id : ι) (m : π) : Driver ι π := { d with pathCache := Function.update d.pathCache id (some m) }

def setMounted (d : Driver ι π) (m : π) (b : Bool) : Driver ι π := { d with mounted := Function.update d.mounted m b }

section

variable (d : Driver ι π) (id : ι) (m : π) (info : Minfo) (b : Bool)

omit [DecidableEq ι] in
@[simp] theorem setCount_counts : (d.setCount m info).counts = Function.update d.counts m (some info) := rfl

omit [DecidableEq ι] in
@[simp] theorem setCount_mounted : (d.setCount m info).mounted = d.mounted := rfl

omit [DecidableEq π] in
@[simp] theorem setPath_counts : (d.setPath id m).counts = d.counts := rfl

omit [DecidableEq π] in
@[simp] theorem setPath_pathCache : (d.setPath id m).pathCache = Function.update d.pathCache id (some m) := rfl

omit [DecidableEq π] in
@[simp] theorem setPath_mounted : (d.setPath id m).mounted = d.mounted := rfl

omit [DecidableEq ι] in
@[simp] theorem setMounted_counts : (d.setMounted m b).counts = d.counts := rfl

omit [DecidableEq ι] in
@[simp] theorem setMounted_mounted : (d.setMounted m b).mounted = Function.update d.mounted m b := rfl

end

/-- `Get`. `ok` is whether `a.mount` finds the layer mounted or mounts it. -/
def get (l : Layout ι π) (d : Driver ι π) (id : ι) (ok : Bool) : Driver ι π × Option π :=
  let m := (d.pathCache id).getD (if l.parents id ≠ [] then l.mountpoint id else l.diffPath id)
  let info := Minfo.increment (d.counts m) (d.mounted m)
  let d := d.setCount m info
  if 1 < info.count then (d, some m)
  else if l.parents id ≠ [] then
    if ok then ((d.setMounted m true).setPath id m, some m) else (d, none)
  else (d.setPath id m, some m)

/-- `Put`, where the unmount succeeds. -/
def put (l : Layout ι π) (d : Driver ι π) (id : ι) : Driver ι π :=
  let m := (d.pathCache id).getD (l.mountpoint id)
  let info := Minfo.decrement (d.counts m) (d.mounted m)
  let d := (d.setPath id m).setCount m info
  if 0 < info.count then d else d.setMounted m false

end Driver

inductive Call (ι : Type)
  | get (id : ι) (ok : Bool)
  | put (id : ι)
  deriving DecidableEq

variable [DecidableEq ι] [DecidableEq π] {l : Layout ι π} {d d' : Driver ι π} {id : ι} {m : π}

namespace Driver

def exec (l : Layout ι π) (d : Driver ι π) : Call ι → Option (Driver ι π)
  | .get id ok => some (d.get l id ok).1
  | .put id => some (d.put l id)

/-- Calls for layers with parents, where no mount fails at the mount point `m`: a `Get` that is the first to
count there finds it mounted, or mounts it. -/
def Kept (l : Layout ι π) (m : π) (d : Driver ι π) : Call ι → Prop
  | .get id ok => l.parents id ≠ [] ∧
    (l.mountpoint id = m → ok = true ∨ 1 < (Minfo.increment (d.counts m) (d.mounted m)).count)
  | .put id => l.parents id ≠ []

instance (l : Layout ι π) (m : π) (d : Driver ι π) (c : Call ι) : Decidable (Kept l m d c) :=
  match c with
  | .get _ _ => inferInstanceAs (Decidable (_ ∧ (_ → _ ∨ _)))
  | .put _ => inferInstanceAs (Decidable (_ ≠ _))

/-! ## Counters that say what is mounted -/

/-- A mount point whose counter is at least one is mounted. -/
def Counted (d : Driver ι π) (m : π) : Prop :=
  ∀ info, d.counts m = some info → info.check = true ∧ (1 ≤ info.count → d.mounted m = true)

/-- The paths that are remembered are the mount points. -/
def Cached (l : Layout ι π) (d : Driver ι π) : Prop := ∀ id m, d.pathCache id = some m → m = l.mountpoint id

omit [DecidableEq ι] [DecidableEq π] in
theorem Counted.checked (h : d.Counted m) (hcount : 1 ≤ (Minfo.checked (d.counts m) (d.mounted m)).count) :
    d.mounted m = true := by
  cases hinfo : d.counts m with
  | none =>
    rw [hinfo] at hcount
    by_contra hnot
    simp [Minfo.checked, hnot] at hcount
  | some info =>
    obtain ⟨hcheck, hmounted⟩ := h info hinfo
    rw [hinfo] at hcount
    simp only [Minfo.checked, Option.getD_some, hcheck] at hcount
    exact hmounted hcount

omit [DecidableEq ι] [DecidableEq π] in
theorem check_checked (h : d.Counted m) : (Minfo.checked (d.counts m) (d.mounted m)).check = true := by
  cases hinfo : d.counts m with
  | none => rfl
  | some info => simp [Minfo.checked, (h info hinfo).1]

omit [DecidableEq ι] [DecidableEq π] in
theorem getD_pathCache (hc : d.Cached l) {n : π} (hn : n = l.mountpoint id) :
    (d.pathCache id).getD n = l.mountpoint id := by
  cases hp : d.pathCache id with
  | none => exact hn
  | some m => exact hc id m hp

/-- What `Get` does for a layer with parents. -/
theorem get_eq (hc : d.Cached l) (hparents : l.parents id ≠ []) (ok : Bool) : d.get l id ok =
    (let m := l.mountpoint id
    let info := Minfo.increment (d.counts m) (d.mounted m)
    if 1 < info.count then (d.setCount m info, some m)
    else if ok then (((d.setCount m info).setMounted m true).setPath id m, some m) else (d.setCount m info, none)) := by
  rw [get, getD_pathCache hc (if_pos hparents), if_pos hparents]

theorem put_eq (hc : d.Cached l) : d.put l id =
    (let m := l.mountpoint id
    let info := Minfo.decrement (d.counts m) (d.mounted m)
    if 0 < info.count then (d.setPath id m).setCount m info
    else ((d.setPath id m).setCount m info).setMounted m false) := by
  rw [put, getD_pathCache hc rfl]

omit [DecidableEq π] in
theorem Cached.setPath (hc : d.Cached l) : (d.setPath id (l.mountpoint id)).Cached l := by
  intro id' m hm
  by_cases hid : id' = id
  · subst hid
    rw [setPath_pathCache, Function.update_self, Option.some_inj] at hm
    exact hm.symm
  · rw [setPath_pathCache, Function.update_of_ne hid] at hm
    exact hc id' m hm

omit [DecidableEq ι] in
/-- Another mount point. -/
theorem Counted.of_ne {n : π} (h : d.Counted m) (hcounts : d'.counts = Function.update d.counts n (d'.counts n))
    (hmounted : d'.mounted = Function.update d.mounted n (d'.mounted n)) (hne : m ≠ n) : d'.Counted m := by
  intro info hinfo
  rw [hcounts, Function.update_of_ne hne] at hinfo
  rw [hmounted, Function.update_of_ne hne]
  exact h info hinfo

theorem Counted.get (hc : d.Cached l) (h : d.Counted m) {ok : Bool} (hk : Kept l m d (.get id ok)) :
    (d.get l id ok).1.Cached l ∧ (d.get l id ok).1.Counted m := by
  obtain ⟨hparents, hfail⟩ := hk
  rw [get_eq hc hparents]
  dsimp only
  by_cases hm : m = l.mountpoint id
  · -- The calls of the mount point itself.
    subst hm
    have hcheck := check_checked h
    by_cases hcount : 1 < (Minfo.increment (d.counts (l.mountpoint id)) (d.mounted (l.mountpoint id))).count
    · have hmounted : d.mounted (l.mountpoint id) = true := by
        refine h.checked ?_
        simp only [Minfo.increment] at hcount
        omega
      rw [if_pos hcount]
      refine ⟨hc, fun info hinfo => ?_⟩
      rw [setCount_counts, Function.update_self, Option.some_inj] at hinfo
      exact ⟨hinfo ▸ hcheck, fun _ => hmounted⟩
    · rw [if_neg hcount, if_pos ((hfail rfl).resolve_right hcount)]
      refine ⟨Cached.setPath hc, fun info hinfo => ?_⟩
      rw [setPath_counts, setMounted_counts, setCount_counts, Function.update_self, Option.some_inj] at hinfo
      exact ⟨hinfo ▸ hcheck, fun _ => Function.update_self ..⟩
  · split
    · exact ⟨hc, h.of_ne (n := l.mountpoint id) (by simp) (by simp) hm⟩
    · cases ok with
      | false => exact ⟨hc, h.of_ne (n := l.mountpoint id) (by simp) (by simp) hm⟩
      | true =>
        exact ⟨Cached.setPath hc, h.of_ne (n := l.mountpoint id) (by simp) (by simp) hm⟩

theorem Counted.put (hc : d.Cached l) (h : d.Counted m) : (d.put l id).Cached l ∧ (d.put l id).Counted m := by
  rw [put_eq hc]
  dsimp only
  by_cases hm : m = l.mountpoint id
  · subst hm
    have hcheck := check_checked h
    split
    · rename_i hcount
      refine ⟨Cached.setPath hc, fun info hinfo => ?_⟩
      rw [setCount_counts, Function.update_self, Option.some_inj] at hinfo
      refine ⟨hinfo ▸ hcheck, fun _ => h.checked ?_⟩
      simp only [Minfo.decrement] at hcount
      omega
    · rename_i hcount
      refine ⟨Cached.setPath hc, fun info hinfo => ?_⟩
      rw [setMounted_counts, setCount_counts, Function.update_self, Option.some_inj] at hinfo
      refine ⟨hinfo ▸ hcheck, fun hone => absurd (hinfo ▸ hone) ?_⟩
      omega
  · split
    · exact ⟨Cached.setPath hc, h.of_ne (n := l.mountpoint id) (by simp) (by simp) hm⟩
    · exact ⟨Cached.setPath hc, h.of_ne (n := l.mountpoint id) (by simp) (by simp) hm⟩

/-- In every run of `Get` and `Put` on layers with parents, what `Get` returns is mounted if no earlier
`Get` of the mount point has failed. -/
theorem get_returns_mounted {mounted : π → Bool} (h : ReachesIf (exec l) (Kept l (l.mountpoint id)) (init mounted) d)
    (hparents : l.parents id ≠ []) {ok : Bool} (hget : (d.get l id ok).2 = some m) :
    m = l.mountpoint id ∧ (d.get l id ok).1.mounted m = true := by
  have hinit : (init mounted : Driver ι π).Cached l ∧ (init mounted : Driver ι π).Counted (l.mountpoint id) := by
    refine ⟨fun id m hp => ?_, fun info hi => ?_⟩
    · cases hp
    · cases hi
  obtain ⟨hc, hcounted⟩ : d.Cached l ∧ d.Counted (l.mountpoint id) := by
    refine h.inv (I := fun d => d.Cached l ∧ d.Counted (l.mountpoint id)) hinit fun d c d' _ hd hk he => ?_
    cases c with
    | get id' ok' =>
      cases he
      exact Counted.get hd.1 hd.2 hk
    | put id' =>
      cases he
      exact Counted.put hd.1 hd.2
  rw [get_eq hc hparents] at hget ⊢
  dsimp only at hget ⊢
  split at hget
  · rename_i hcount
    cases hget
    rw [if_pos hcount]
    refine ⟨rfl, hcounted.checked ?_⟩
    simp only [Minfo.increment] at hcount
    omega
  · rename_i hcount
    rw [if_neg hcount]
    cases ok with
    | false => cases hget
    | true =>
      cases hget
      exact ⟨rfl, Function.update_self ..⟩

/-- Two layers of one parent. -/
def twoLayers : Layout (Fin 3) (Bool × Fin 3) :=
  { parentIds := fun id => if id = 0 then none else some [0], mountpoint := fun id => (true, id),
    diffPath := fun id => (false, id) }

/-- The mount of another layer has failed, and the layer is mounted for the second `Get` as well. -/
theorem get_returns_mounted_again : ∃ d : Driver (Fin 3) (Bool × Fin 3),
    ReachesIf (exec twoLayers) (Kept twoLayers (twoLayers.mountpoint 1)) (init fun _ => false) d ∧
    (d.get twoLayers 1 false).2 = some (true, 1) ∧ (d.get twoLayers 1 false).1.mounted (true, 1) = true := by
  obtain ⟨d, h, hd⟩ := ReachesIf.of_view (exec twoLayers) (Kept twoLayers (twoLayers.mountpoint 1)) (init fun _ => false)
    [.get 2 false, .get 1 true] (fun d => (d.get twoLayers 1 false).2) (b := some (true, 1)) (by decide +kernel)
  exact ⟨d, h, hd, (get_returns_mounted h (by decide) hd).2⟩

/-- The mount fails, and the next `Get` returns the mount point without a mount. -/
theorem get_not_mounted : ((init fun _ => false : Driver (Fin 3) (Bool × Fin 3)).get twoLayers 1 false).2 = none ∧
    (((init fun _ => false).get twoLayers 1 false).1.get twoLayers 1 true).2 = some (true, 1) ∧
    (((init fun _ => false).get twoLayers 1 false).1.get twoLayers 1 true).1.mounted (true, 1) = false := by
  decide

end Driver

end Moby.Graphdriver.Aufs
