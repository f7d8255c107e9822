import Mathlib.Algebra.Order.BigOperators.Group.List
import Mathlib.Algebra.Order.Ring.Int
import Moby.Archive.Owner
import Moby.Framework.GoSort

/-!
# The ID map of a list of subordinate IDs (pkg/idtools)

`createIDMap` sorts the ranges of `/etc/subuid` or `/etc/subgid` and gives each, in that order, the next
container IDs. What it makes is never nil, so that `ToHost` and `ToContainer` go through its ranges. They
are inverse to each other (`createIDMap_inverse`).
-/

namespace Moby.Archive

open Moby.Framework

/-- A line of the file: host IDs from `start` on. -/
structure SubIDRange where
  start : ℤ
  length : ℤ
  deriving DecidableEq

namespace SubIDRange

def less (r r' : SubIDRange) : Bool := decide (r.start < r'.start)

def Holds (r : SubIDRange) (id : ℤ) : Prop := r.start ≤ id ∧ id < r.start + r.length

/-- No host ID is in two of the ranges. -/
def Disjoint (rs : List SubIDRange) : Prop := rs.Pairwise fun r r' => ∀ id, r.Holds id → ¬ r'.Holds id

def total (rs : List SubIDRange) : ℤ := (rs.map length).sum

end SubIDRange

open SubIDRange

/-- The loop of `createIDMap`. -/
def mapRanges : ℤ → List SubIDRange → List IDMap
  | _, [] => []
  | containerID, r :: rs =>
    { containerID := containerID, hostID := r.start, size := r.length } :: mapRanges (containerID + r.length) rs

def createIDMap (subidRanges : List SubIDRange) : List IDMap := mapRanges 0 (GoSort.sort less subidRanges)

/-! ## Container IDs -/

theorem total_nonneg {rs : List SubIDRange} (hlen : ∀ r ∈ rs, 0 ≤ r.length) : 0 ≤ total rs := by
  refine List.sum_nonneg fun n hn => ?_
  obtain ⟨r, hr, rfl⟩ := List.mem_map.mp hn
  exact hlen r hr

/-- The ranges of a map start where the one before ends. -/
theorem holds_mapRanges {rs : List SubIDRange} (hlen : ∀ r ∈ rs, 0 ≤ r.length) (containerID id : ℤ) :
    (∃ m ∈ mapRanges containerID rs, m.Holds IDMap.containerID id) ↔ containerID ≤ id ∧ id < containerID + total rs := by
  induction rs generalizing containerID with
  | nil =>
    simp only [mapRanges, total, List.not_mem_nil, false_and, exists_false, List.map_nil, List.sum_nil, add_zero, false_iff]
    omega
  | cons r rs ih =>
    have hr := hlen r List.mem_cons_self
    have hrest := total_nonneg fun r' hr' => hlen r' (List.mem_cons_of_mem r hr')
    have htotal : total (r :: rs) = r.length + total rs := by simp [total]
    rw [mapRanges, List.exists_mem_cons_iff, ih fun r' hr' => hlen r' (List.mem_cons_of_mem r hr'), htotal]
    simp only [IDMap.Holds]
    omega

theorem apart_container {rs : List SubIDRange} (hlen : ∀ r ∈ rs, 0 ≤ r.length) (containerID : ℤ) :
    Apart IDMap.containerID (mapRanges containerID rs) := by
  induction rs generalizing containerID with
  | nil => exact List.Pairwise.nil
  | cons r rs ih =>
    have hlen' := fun r' hr' => hlen r' (List.mem_cons_of_mem r hr')
    refine List.pairwise_cons.mpr ⟨fun m hm id hfirst hid => ?_, ih hlen' _⟩
    have hge := ((holds_mapRanges hlen' _ id).mp ⟨m, hm, hid⟩).1
    have hle : id ≤ containerID + r.length - 1 := hfirst.2
    omega

/-! ## Host IDs -/

/-- The host IDs of a map are those of the ranges, one range for each. -/
theorem map_mapRanges (containerID : ℤ) (rs : List SubIDRange) :
    (mapRanges containerID rs).map (fun m => ({ start := m.hostID, length := m.size } : SubIDRange)) = rs := by
  induction rs generalizing containerID with
  | nil => rfl
  | cons r rs ih => rw [mapRanges, List.map_cons, ih]

theorem holds_host (m : IDMap) (id : ℤ) : m.Holds IDMap.hostID id ↔ Holds { start := m.hostID, length := m.size } id := by
  simp only [IDMap.Holds, Holds]
  omega

theorem holds_hosts (containerID : ℤ) (rs : List SubIDRange) (id : ℤ) :
    (∃ m ∈ mapRanges containerID rs, m.Holds IDMap.hostID id) ↔ ∃ r ∈ rs, r.Holds id := by
  conv_rhs => rw [← map_mapRanges containerID rs]
  simp only [List.mem_map, exists_exists_and_eq_and, holds_host]

theorem apart_host {rs : List SubIDRange} (h : SubIDRange.Disjoint rs) (containerID : ℤ) :
    Apart IDMap.hostID (mapRanges containerID rs) := by
  rw [SubIDRange.Disjoint, ← map_mapRanges containerID rs, List.pairwise_map] at h
  refine h.imp fun hapart id hid hid' => ?_
  exact hapart id ((holds_host _ id).mp hid) ((holds_host _ id).mp hid')

/-! ## Both ways -/

theorem findRange_iff {start : IDMap → ℤ} {idMap : List IDMap} (h : Apart start idMap) {m : IDMap} {id : ℤ} :
    findRange start id idMap = some m ↔ m ∈ idMap ∧ m.Holds start id := by
  refine ⟨fun hfound => ?_, fun hm => findRange_eq h hm.1 hm.2⟩
  have hid := List.find?_some hfound
  exact ⟨List.mem_of_find?_eq_some hfound, by simpa [IDMap.Holds] using hid⟩

theorem toHost_iff {idMap : List IDMap} (h : Apart IDMap.containerID idMap) {contID hostID : ℤ} :
    toHost contID (some idMap) = .ok hostID ↔
      ∃ m ∈ idMap, m.Holds IDMap.containerID contID ∧ m.hostID + (contID - m.containerID) = hostID := by
  simp only [← and_assoc, ← findRange_iff h, toHost]
  cases findRange IDMap.containerID contID idMap with
  | none => simp
  | some m => simp

theorem toContainer_iff {idMap : List IDMap} (h : Apart IDMap.hostID idMap) {hostID contID : ℤ} :
    toContainer hostID (some idMap) = .ok contID ↔
      ∃ m ∈ idMap, m.Holds IDMap.hostID hostID ∧ m.containerID + (hostID - m.hostID) = contID := by
  simp only [← and_assoc, ← findRange_iff h, toContainer]
  cases findRange IDMap.hostID hostID idMap with
  | none => simp
  | some m => simp

/-- A range gives an ID and its image the same place. -/
theorem toHost_iff_toContainer {idMap : List IDMap} (hcont : Apart IDMap.containerID idMap)
    (hhost : Apart IDMap.hostID idMap) (contID hostID : ℤ) :
    toHost contID (some idMap) = .ok hostID ↔ toContainer hostID (some idMap) = .ok contID := by
  rw [toHost_iff hcont, toContainer_iff hhost]
  constructor
  · rintro ⟨m, hm, hid, rfl⟩
    refine ⟨m, hm, ?_, by omega⟩
    simp only [IDMap.Holds] at hid ⊢
    omega
  · rintro ⟨m, hm, hid, rfl⟩
    refine ⟨m, hm, ?_, by omega⟩
    simp only [IDMap.Holds] at hid ⊢
    omega

section

variable {rs : List SubIDRange}

theorem total_sort (rs : List SubIDRange) : total (GoSort.sort less rs) = total rs := ((GoSort.perm_sort rs).map length).sum_eq

theorem nonneg_sort (hlen : ∀ r ∈ rs, 0 ≤ r.length) : ∀ r ∈ GoSort.sort less rs, 0 ≤ r.length :=
  fun r hr => hlen r ((GoSort.perm_sort rs).mem_iff.mp hr)

theorem disjoint_sort (h : SubIDRange.Disjoint rs) : SubIDRange.Disjoint (GoSort.sort less rs) :=
  ((GoSort.perm_sort rs).pairwise_iff fun hapart id hid hid' => hapart id hid' hid).mpr h

/-- The map is well formed if it has an ID at all. -/
theorem wellFormed_createIDMap (hlen : ∀ r ∈ rs, 0 ≤ r.length) (hdisjoint : SubIDRange.Disjoint rs)
    (hpos : 0 < total rs) : WellFormed (createIDMap rs) := by
  refine ⟨apart_container (nonneg_sort hlen) 0, apart_host (disjoint_sort hdisjoint) 0,
    (holds_mapRanges (nonneg_sort hlen) 0 0).mpr ⟨le_rfl, ?_⟩⟩
  rw [total_sort, zero_add]
  exact hpos

end

/-- The container ranges are apart and are all of the IDs below the total; `ToHost` is defined there,
`ToContainer` on the host IDs of the ranges, and they are inverse to each other. -/
theorem createIDMap_inverse (rs : List SubIDRange) (hlen : ∀ r ∈ rs, 0 ≤ r.length) (hdisjoint : SubIDRange.Disjoint rs) :
    Apart IDMap.containerID (createIDMap rs) ∧
    (∀ id, (∃ m ∈ createIDMap rs, m.Holds IDMap.containerID id) ↔ 0 ≤ id ∧ id < total rs) ∧
    (∀ id, (∃ host, toHost id (some (createIDMap rs)) = .ok host) ↔ 0 ≤ id ∧ id < total rs) ∧
    (∀ id, (∃ cont, toContainer id (some (createIDMap rs)) = .ok cont) ↔ ∃ r ∈ rs, r.Holds id) ∧
    ∀ cont host, toHost cont (some (createIDMap rs)) = .ok host ↔ toContainer host (some (createIDMap rs)) = .ok cont := by
  have hcont := apart_container (nonneg_sort hlen) 0
  have hhost := apart_host (disjoint_sort hdisjoint) 0
  have hbelow : ∀ id, (∃ m ∈ createIDMap rs, m.Holds IDMap.containerID id) ↔ 0 ≤ id ∧ id < total rs := by
    intro id
    rw [createIDMap, holds_mapRanges (nonneg_sort hlen), total_sort, zero_add]
  refine ⟨hcont, hbelow, fun id => ?_, fun id => ?_, toHost_iff_toContainer hcont hhost⟩
  · rw [← hbelow]
    simp only [createIDMap, toHost_iff hcont]
    constructor
    · rintro ⟨_, m, hm, hid, -⟩
      exact ⟨m, hm, hid⟩
    · rintro ⟨m, hm, hid⟩
      exact ⟨_, m, hm, hid, rfl⟩
  · simp only [← (@GoSort.perm_sort _ less rs).mem_iff, ← holds_hosts 0, createIDMap, toContainer_iff hhost]
    constructor
    · rintro ⟨_, m, hm, hid, -⟩
      exact ⟨m, hm, hid⟩
    · rintro ⟨m, hm, hid⟩
      exact ⟨_, m, hm, hid, rfl⟩

/-- The range that comes second in the file has the lower host IDs, and so the first container IDs. -/
theorem createIDMap_inverse_two :
    createIDMap [⟨100000, 10⟩, ⟨1000, 5⟩] = [⟨0, 1000, 5⟩, ⟨5, 100000, 10⟩] ∧
    (∀ r ∈ [(⟨100000, 10⟩ : SubIDRange), ⟨1000, 5⟩], 0 ≤ r.length) ∧
    SubIDRange.Disjoint [⟨100000, 10⟩, ⟨1000, 5⟩] ∧
    toHost 7 (some (createIDMap [⟨100000, 10⟩, ⟨1000, 5⟩])) = .ok 100002 ∧
    toContainer 100002 (some (createIDMap [⟨100000, 10⟩, ⟨1000, 5⟩])) = .ok 7 := by
  have hmap : createIDMap [⟨100000, 10⟩, ⟨1000, 5⟩] = [⟨0, 1000, 5⟩, ⟨5, 100000, 10⟩] := by decide +kernel
  have hlen : ∀ r ∈ [(⟨100000, 10⟩ : SubIDRange), ⟨1000, 5⟩], 0 ≤ r.length := by decide
  have hdisjoint : SubIDRange.Disjoint [⟨100000, 10⟩, ⟨1000, 5⟩] := by
    simp only [SubIDRange.Disjoint, List.pairwise_cons, List.mem_singleton, forall_eq, Holds]
    refine ⟨fun id => by omega, by simp⟩
  have hhost : toHost 7 (some (createIDMap [⟨100000, 10⟩, ⟨1000, 5⟩])) = .ok 100002 := by
    rw [hmap]
    rfl
  exact ⟨hmap, hlen, hdisjoint, hhost, ((createIDMap_inverse _ hlen hdisjoint).2.2.2.2 7 100002).mp hhost⟩

end Moby.Archive
