import Moby.Framework.Map

/-!
# Where a layer was found

`V2MetadataService` of `distribution/metadata` keeps, for the diff ID of a
layer, the last places it was pulled from or pushed to, and for the digest of
a blob its diff ID, which `Remove` needs to find the list to edit. `live` is
what the service is for, a set of entries with the times of their last `Add`,
and `lists_most_recent` that the lists hold it, in that order.
-/

namespace Moby.Distribution

open Moby.Framework

variable {D G R : Type} [DecidableEq D] [DecidableEq G] [DecidableEq R]

/-- The digest of a blob, and the repository it is in. -/
structure V2Metadata (G R : Type) where
  digest : G
  sourceRepository : R
  deriving DecidableEq

/-- The number of entries that are kept. -/
def maxMetadata : ℕ := 50

/-- The two namespaces of the store. A key stands for its digest, and a list for its JSON. -/
structure MetadataService (D G R : Type) where
  byDiffID : Map D (List (V2Metadata G R)) := ∅
  byDigest : Map G D := ∅

/-- The calls. -/
inductive ServiceCall (D G R : Type) where
  | add (diffID : D) (metadata : V2Metadata G R)
  | remove (metadata : V2Metadata G R)
  deriving DecidableEq

namespace MetadataService

/-- `GetMetadata`; `none` is an error. -/
def getMetadata (s : MetadataService D G R) (diffID : D) : Option (List (V2Metadata G R)) := s.byDiffID.lookup diffID

/-- `GetDiffID`; `none` is an error. -/
def getDiffID (s : MetadataService D G R) (dgst : G) : Option D := s.byDigest.lookup dgst

/-- The metadata that `Add` and `Remove` start from. -/
def oldMetadata (s : MetadataService D G R) (diffID : D) : List (V2Metadata G R) := (s.getMetadata diffID).getD []

/-- `Add`. -/
def add (s : MetadataService D G R) (diffID : D) (metadata : V2Metadata G R) : MetadataService D G R :=
  let newMetadata := (s.oldMetadata diffID).filter (· ≠ metadata) ++ [metadata]
  let newMetadata :=
    if newMetadata.length > maxMetadata then newMetadata.drop (newMetadata.length - maxMetadata) else newMetadata
  { byDiffID := s.byDiffID.insert diffID newMetadata
    byDigest := s.byDigest.insert metadata.digest diffID }

/-- `Remove`. -/
def remove (s : MetadataService D G R) (metadata : V2Metadata G R) : MetadataService D G R :=
  match s.getDiffID metadata.digest with
  | none => s
  | some diffID =>
    let newMetadata := (s.oldMetadata diffID).filter (· ≠ metadata)
    if newMetadata.length = 0 then { s with byDiffID := s.byDiffID.erase diffID }
    else { s with byDiffID := s.byDiffID.insert diffID newMetadata }

def call (s : MetadataService D G R) : ServiceCall D G R → MetadataService D G R
  | .add diffID metadata => s.add diffID metadata
  | .remove metadata => s.remove metadata

/-- The service after calls, the last one first. -/
def after : List (ServiceCall D G R) → MetadataService D G R
  | [] => {}
  | c :: cs => (after cs).call c

theorem oldMetadata_add (s : MetadataService D G R) (diffID d : D) (m : V2Metadata G R) :
    (s.add diffID m).oldMetadata d = if d = diffID
      then ((s.oldMetadata diffID).filter (· ≠ m) ++ [m]).drop
        (((s.oldMetadata diffID).filter (· ≠ m) ++ [m]).length - maxMetadata)
      else s.oldMetadata d := by
  show Option.getD ((s.byDiffID.insert diffID (if _ > maxMetadata then _ else _)).lookup d) [] = _
  rw [Finmap.lookup_insert']
  by_cases h : d = diffID
  · rw [if_pos h, if_pos h, Option.getD_some]
    split
    · rfl
    · rename_i hlen
      rw [Nat.sub_eq_zero_of_le (Nat.le_of_not_gt hlen), List.drop_zero]
  · rw [if_neg h, if_neg h]
    rfl

theorem oldMetadata_remove (s : MetadataService D G R) (d : D) (m : V2Metadata G R) :
    (s.remove m).oldMetadata d = if s.getDiffID m.digest = some d
      then (s.oldMetadata d).filter (· ≠ m) else s.oldMetadata d := by
  unfold remove
  cases hd : s.getDiffID m.digest with
  | none => rfl
  | some diffID =>
    simp only [Option.some.injEq]
    by_cases h : diffID = d
    · subst h
      rw [if_pos rfl]
      split
      · rename_i hnil
        rw [List.length_eq_zero_iff] at hnil
        rw [hnil, oldMetadata, getMetadata, Finmap.lookup_erase', if_pos rfl]
        rfl
      · rw [oldMetadata, getMetadata, Finmap.lookup_insert', if_pos rfl]
        rfl
    · rw [if_neg h]
      split
      · rw [oldMetadata, getMetadata, Finmap.lookup_erase', if_neg (Ne.symm h)]
        rfl
      · rw [oldMetadata, getMetadata, Finmap.lookup_insert', if_neg (Ne.symm h)]
        rfl

theorem getDiffID_add (s : MetadataService D G R) (diffID : D) (m : V2Metadata G R) (g : G) :
    (s.add diffID m).getDiffID g = if g = m.digest then some diffID else s.getDiffID g :=
  Finmap.lookup_insert' ..

theorem getDiffID_remove (s : MetadataService D G R) (m : V2Metadata G R) (g : G) :
    (s.remove m).getDiffID g = s.getDiffID g := by
  unfold remove
  split
  · rfl
  · dsimp only
    split <;> rfl

end MetadataService

/-! ## The most recent entries -/

/-- The time of the last `Add` of an entry, 0 if there is none. The last call is first. -/
def lastAdd (m : V2Metadata G R) : List (ServiceCall D G R) → ℕ
  | [] => 0
  | .add _ m' :: cs => if m' = m then cs.length + 1 else lastAdd m cs
  | .remove _ :: cs => lastAdd m cs

/-- The entries of a set without the least recent one, if there are too many. -/
def evict (time : V2Metadata G R → ℕ) (s : Finset (V2Metadata G R)) : Finset (V2Metadata G R) :=
  if s.card > maxMetadata then s.filter fun m => ∃ m' ∈ s, time m' < time m else s

/-- The entries of `d` that were added, not removed after that, and not evicted. -/
def live (d : D) : List (ServiceCall D G R) → Finset (V2Metadata G R)
  | [] => ∅
  | .add d' m :: cs =>
    if d' = d then evict (fun x => lastAdd x (.add d' m :: cs)) (insert m (live d cs)) else live d cs
  | .remove m :: cs => (live d cs).erase m

/-- The diff ID of the last `Add` of a digest. -/
def lastDiffID (g : G) : List (ServiceCall D G R) → Option D
  | [] => none
  | .add d m :: cs => if g = m.digest then some d else lastDiffID g cs
  | .remove _ :: cs => lastDiffID g cs

omit [DecidableEq D] in
theorem lastAdd_le (m : V2Metadata G R) (cs : List (ServiceCall D G R)) : lastAdd m cs ≤ cs.length := by
  induction cs with
  | nil => exact Nat.le_refl 0
  | cons c cs ih =>
    cases c with
    | add d m' =>
      rw [lastAdd, List.length_cons]
      split
      · exact Nat.le_refl _
      · exact Nat.le_succ_of_le ih
    | remove m' => exact Nat.le_succ_of_le ih

/-- Every digest is added with its own diff ID. -/
def SameDiffID (diffIDOf : G → D) (cs : List (ServiceCall D G R)) : Prop :=
  ∀ d m, .add d m ∈ cs → d = diffIDOf m.digest

theorem getDiffID_after (cs : List (ServiceCall D G R)) (g : G) :
    (MetadataService.after cs).getDiffID g = lastDiffID g cs := by
  induction cs with
  | nil => rfl
  | cons c cs ih =>
    cases c with
    | add d m =>
      show ((MetadataService.after cs).add d m).getDiffID g = _
      rw [MetadataService.getDiffID_add, ih]
      rfl
    | remove m =>
      show ((MetadataService.after cs).remove m).getDiffID g = _
      rw [MetadataService.getDiffID_remove, ih]
      rfl

/-! ## The lists -/

omit [DecidableEq G] [DecidableEq R] in
theorem nodup_of_times {time : V2Metadata G R → ℕ} {l : List (V2Metadata G R)}
    (h : l.Pairwise fun a b => time a < time b) : l.Nodup := by
  refine List.Pairwise.imp ?_ h
  rintro a _ hlt rfl
  exact Nat.lt_irrefl _ hlt

/-- The entries that are left of a list in the order of their times. -/
theorem mem_drop_iff_evict {time : V2Metadata G R → ℕ} {l : List (V2Metadata G R)} {s : Finset (V2Metadata G R)}
    (h : l.Pairwise fun a b => time a < time b) (hlen : l.length ≤ maxMetadata + 1) (hmem : ∀ m, m ∈ l ↔ m ∈ s)
    (m : V2Metadata G R) : m ∈ l.drop (l.length - maxMetadata) ↔ m ∈ evict time s := by
  have hcard : s.card = l.length := by
    rw [← List.toFinset_card_of_nodup (nodup_of_times h)]
    congr 1
    ext x
    rw [List.mem_toFinset, hmem]
  unfold evict
  rw [hcard]
  by_cases hmany : l.length > maxMetadata
  · rw [if_pos hmany, Finset.mem_filter]
    have hone : l.length - maxMetadata = 1 := by omega
    rw [hone]
    cases l with
    | nil => exact absurd hmany (Nat.not_lt_zero _)
    | cons a l =>
      obtain ⟨hfirst, -⟩ := List.pairwise_cons.mp h
      rw [List.drop_succ_cons, List.drop_zero, ← hmem]
      constructor
      · intro hm
        exact ⟨List.mem_cons_of_mem a hm, a, (hmem a).mp List.mem_cons_self, hfirst m hm⟩
      · rintro ⟨hm, m', hm', hlt⟩
        rcases List.mem_cons.mp hm with rfl | hm
        -- the first entry is the least recent one
        · rcases List.mem_cons.mp ((hmem m').mpr hm') with rfl | hm'
          · exact absurd hlt (Nat.lt_irrefl _)
          · exact absurd hlt (Nat.lt_asymm (hfirst m' hm'))
        · exact hm
  · rw [if_neg hmany, Nat.sub_eq_zero_of_le (Nat.le_of_not_gt hmany), List.drop_zero, hmem]

/-- What is true of the lists after calls. -/
structure Lists (diffIDOf : G → D) (cs : List (ServiceCall D G R)) : Prop where
  mem : ∀ d m, m ∈ (MetadataService.after cs).oldMetadata d ↔ m ∈ live d cs
  sorted : ∀ d, ((MetadataService.after cs).oldMetadata d).Pairwise fun a b => lastAdd a cs < lastAdd b cs
  short : ∀ d, ((MetadataService.after cs).oldMetadata d).length ≤ maxMetadata
  /-- An entry is in the list that `Remove` edits. -/
  own : ∀ d, ∀ m ∈ (MetadataService.after cs).oldMetadata d, d = diffIDOf m.digest ∧ lastDiffID m.digest cs = some d

namespace Lists

variable {diffIDOf : G → D} {cs : List (ServiceCall D G R)} {m : V2Metadata G R}

theorem add (h : Lists diffIDOf cs) : Lists diffIDOf (.add (diffIDOf m.digest) m :: cs) := by
  generalize hd₀ : diffIDOf m.digest = d₀
  let old := (MetadataService.after cs).oldMetadata
  let new := (old d₀).filter (· ≠ m) ++ [m]
  have hafter (d : D) : (MetadataService.after (.add d₀ m :: cs)).oldMetadata d =
      if d = d₀ then new.drop (new.length - maxMetadata) else old d :=
    MetadataService.oldMetadata_add _ d₀ d m
  -- the times of the other entries are as before
  have htime {x : V2Metadata G R} (hx : x ≠ m) : lastAdd x (.add d₀ m :: cs) = lastAdd x cs := if_neg (Ne.symm hx)
  have hlast : lastAdd m (.add d₀ m :: cs) = cs.length + 1 := if_pos rfl
  have hother {d : D} (hd : d ≠ d₀) {x : V2Metadata G R} (hx : x ∈ old d) : x ≠ m := by
    rintro rfl
    exact hd ((h.own d _ hx).1.trans hd₀)
  have hnew : ∀ x, x ∈ new ↔ x ∈ insert m (live d₀ cs) := by
    intro x
    rw [Finset.mem_insert, ← h.mem, List.mem_append, List.mem_filter, List.mem_singleton, decide_eq_true_iff]
    by_cases hx : x = m
    · exact iff_of_true (.inr hx) (.inl hx)
    · rw [or_iff_left hx, or_iff_right hx]
      exact and_iff_left hx
  have hsorted : new.Pairwise fun a b => lastAdd a (.add d₀ m :: cs) < lastAdd b (.add d₀ m :: cs) := by
    refine List.pairwise_append.mpr ⟨?_, List.pairwise_singleton _ _, fun a ha b hb => ?_⟩
    · refine ((h.sorted d₀).filter _).imp_of_mem fun ha hb hlt => ?_
      rw [htime (of_decide_eq_true (List.mem_filter.mp ha).2), htime (of_decide_eq_true (List.mem_filter.mp hb).2)]
      exact hlt
    · rw [List.mem_singleton.mp hb, hlast, htime (of_decide_eq_true (List.mem_filter.mp ha).2)]
      exact Nat.lt_succ_of_le (lastAdd_le a cs)
  have hlen : new.length ≤ maxMetadata + 1 := by
    rw [List.length_append, List.length_singleton]
    exact Nat.succ_le_succ (Nat.le_trans (List.length_filter_le _ _) (h.short d₀))
  refine ⟨fun d x => ?_, fun d => ?_, fun d => ?_, fun d x hx => ?_⟩
  · rw [hafter, live]
    by_cases hd : d = d₀
    · subst hd
      rw [if_pos rfl, if_pos rfl]
      exact mem_drop_iff_evict hsorted hlen hnew x
    · rw [if_neg hd, if_neg (Ne.symm hd)]
      exact h.mem d x
  · rw [hafter]
    by_cases hd : d = d₀
    · rw [if_pos hd]
      exact hsorted.sublist (List.drop_sublist _ _)
    · rw [if_neg hd]
      refine (h.sorted d).imp_of_mem fun ha hb hlt => ?_
      rw [htime (hother hd ha), htime (hother hd hb)]
      exact hlt
  · rw [hafter]
    split
    · rw [List.length_drop]
      omega
    · exact h.short d
  · rw [hafter] at hx
    rw [lastDiffID]
    by_cases hd : d = d₀
    · rw [if_pos hd] at hx
      have hmem := (hnew x).mp (List.mem_of_mem_drop hx)
      rcases Finset.mem_insert.mp hmem with rfl | hmem
      · exact ⟨hd.trans hd₀.symm, by rw [if_pos rfl, hd]⟩
      · obtain ⟨hdiff, hlastID⟩ := h.own d₀ x ((h.mem d₀ x).mpr hmem)
        refine ⟨hd.trans hdiff, ?_⟩
        rw [hd, hlastID, ite_self]
    · rw [if_neg hd] at hx
      obtain ⟨hdiff, hlastID⟩ := h.own d x hx
      refine ⟨hdiff, ?_⟩
      rw [if_neg fun heq => hd (hdiff.trans (by rw [heq, hd₀]))]
      exact hlastID

theorem remove (h : Lists diffIDOf cs) : Lists diffIDOf (.remove m :: cs) := by
  let old := (MetadataService.after cs).oldMetadata
  -- where `m` is in no list to be edited it is in no list at all
  have hafter (d : D) : (MetadataService.after (.remove m :: cs)).oldMetadata d = (old d).filter (· ≠ m) := by
    refine (MetadataService.oldMetadata_remove _ d m).trans ?_
    rw [getDiffID_after]
    by_cases hd : lastDiffID m.digest cs = some d
    · rw [if_pos hd]
    · rw [if_neg hd]
      refine (List.filter_eq_self.mpr fun x hx => decide_eq_true ?_).symm
      rintro rfl
      exact hd (h.own d _ hx).2
  refine ⟨fun d x => ?_, fun d => ?_, fun d => ?_, fun d x hx => ?_⟩
  · rw [hafter, live, List.mem_filter, Finset.mem_erase, ← h.mem, decide_eq_true_iff]
    exact and_comm
  · rw [hafter]
    exact (h.sorted d).filter _
  · rw [hafter]
    exact Nat.le_trans (List.length_filter_le _ _) (h.short d)
  · rw [hafter] at hx
    exact h.own d x (List.mem_filter.mp hx).1

end Lists

theorem lists_after {diffIDOf : G → D} {cs : List (ServiceCall D G R)} (h : SameDiffID diffIDOf cs) :
    Lists diffIDOf cs := by
  induction cs with
  | nil =>
    have hnil (d : D) : (MetadataService.after ([] : List (ServiceCall D G R))).oldMetadata d = [] := rfl
    refine ⟨fun d m => ?_, fun d => ?_, fun d => ?_, fun d m hm => ?_⟩
    · rw [hnil]
      exact iff_of_false List.not_mem_nil (Finset.notMem_empty m)
    · rw [hnil]
      exact List.Pairwise.nil
    · rw [hnil]
      exact Nat.zero_le _
    · rw [hnil] at hm
      exact absurd hm List.not_mem_nil
  | cons c cs ih =>
    have hcs := ih fun d m hm => h d m (List.mem_cons_of_mem c hm)
    cases c with
    | add d m =>
      rw [h d m List.mem_cons_self]
      exact hcs.add
    | remove m => exact hcs.remove

/-- After any calls in which a digest has one diff ID, a list has the entries that were added, not removed after
that and not evicted, at most `maxMetadata` of them, from the least to the most recently added and none twice; and
the diff ID of a digest is that of its last `Add`. -/
theorem lists_most_recent {diffIDOf : G → D} {cs : List (ServiceCall D G R)} (h : SameDiffID diffIDOf cs) :
    (∀ d, (∀ m, m ∈ (MetadataService.after cs).oldMetadata d ↔ m ∈ live d cs) ∧
      ((MetadataService.after cs).oldMetadata d).Pairwise (fun a b => lastAdd a cs < lastAdd b cs) ∧
      ((MetadataService.after cs).oldMetadata d).Nodup ∧
      ((MetadataService.after cs).oldMetadata d).length ≤ maxMetadata) ∧
    ∀ g, (MetadataService.after cs).getDiffID g = lastDiffID g cs := by
  have hlists := lists_after h
  exact ⟨fun d => ⟨hlists.mem d, hlists.sorted d, nodup_of_times (hlists.sorted d), hlists.short d⟩,
    getDiffID_after cs⟩

/-- An entry that is added again is the most recent one. -/
theorem lists_most_recent_again : SameDiffID (fun _ : ℕ => 0)
      [.add 0 ⟨1, 1⟩, .add 0 ⟨2, 2⟩, .add 0 (⟨1, 1⟩ : V2Metadata ℕ ℕ)] ∧
    (MetadataService.after [.add 0 ⟨1, 1⟩, .add 0 ⟨2, 2⟩, .add 0 (⟨1, 1⟩ : V2Metadata ℕ ℕ)]).oldMetadata 0 =
      [⟨2, 2⟩, ⟨1, 1⟩] ∧
    ((MetadataService.after [.add 0 ⟨1, 1⟩, .add 0 ⟨2, 2⟩, .add 0 (⟨1, 1⟩ : V2Metadata ℕ ℕ)]).oldMetadata 0).Nodup := by
  have hsame : SameDiffID (fun _ : ℕ => 0)
      [.add 0 ⟨1, 1⟩, .add 0 ⟨2, 2⟩, .add 0 (⟨1, 1⟩ : V2Metadata ℕ ℕ)] := by
    intro d m hm
    simp only [List.mem_cons, ServiceCall.add.injEq, List.not_mem_nil, or_false] at hm
    rcases hm with ⟨hd, -⟩ | ⟨hd, -⟩ | ⟨hd, -⟩ <;> exact hd
  exact ⟨hsame, by decide, ((lists_most_recent hsame).1 0).2.2.1⟩

end Moby.Distribution
