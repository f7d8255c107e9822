import Mathlib.Data.List.Sort
import Moby.Archive.SubIDs

/-!
# New ranges of subordinate IDs (pkg/idtools)

`createSubordinateRanges` gives a user that has no range in `/etc/subuid` or `/etc/subgid` a new one. It goes once
through the ranges of all users in the order of their starts, and behind each one that the new range would overlap.
`wouldOverlap` sees whether an end of the new range is in the other one, and so misses a shorter one inside it. As
long as no range is shorter than a new one and the sums fit Go's `int`, ranges that are disjoint stay so, for any
number of users and whatever calls of `usermod` fail (`disjoint_run`). `usermod` itself is not part of the daemon: what
is assumed of it is `Usermod`.
-/

namespace Moby.Archive

open SubIDRange

def defaultRangeLen : ℤ := 65536

def defaultRangeStart : ℤ := 100000

/-- A sum in Go's `int`. -/
def wrap (n : ℤ) : ℤ := n.bmod (2 ^ 64)

def wouldOverlap (arange : SubIDRange) (id : ℤ) : Bool :=
  let low := id
  let high := wrap (id + defaultRangeLen)
  (decide (arange.start ≤ low) && decide (low ≤ wrap (arange.start + arange.length))) ||
    (decide (high ≤ wrap (arange.start + arange.length)) && decide (arange.start ≤ high))

/-- The body of the loop of `findNextRangeStart`. -/
def skipRange (startID : ℤ) (arange : SubIDRange) : ℤ :=
  if wouldOverlap arange startID then wrap (arange.start + arange.length) else startID

def findNextRangeStart (rangeList : List SubIDRange) : ℤ := rangeList.foldl skipRange defaultRangeStart

/-- The lines of a file, each with the name of a user and a range. -/
abbrev SubIDFile := List (String × SubIDRange)

def parseSubidFile (file : SubIDFile) (username : String) : List SubIDRange :=
  (file.filter fun line => line.1 = username || username = "ALL").map Prod.snd

/-- The files `/etc/subuid` and `/etc/subgid`. -/
structure SubIDFiles where
  subuid : SubIDFile
  subgid : SubIDFile

/-- A run of `usermod`, with its success and the file that it leaves: the line for the IDs from `first` to
`last` is added, or nothing is. -/
structure Usermod where
  run : (file : SubIDFile) → (name : String) → (first last : ℤ) → Bool × SubIDFile
  adds : ∀ file name first last, (run file name first last).1 = true →
    (run file name first last).2 = file ++ [(name, ⟨first, last - first + 1⟩)]
  leaves : ∀ file name first last, (run file name first last).1 = false → (run file name first last).2 = file

section

variable (sort : List SubIDRange → List SubIDRange)

/-- `findNextUIDRange` or `findNextGIDRange`. -/
def findNextRange (file : SubIDFile) : ℤ := findNextRangeStart (sort (parseSubidFile file "ALL"))

/-- What `createSubordinateRanges` does with one of the files. -/
def createRange (usermod : Usermod) (file : SubIDFile) (name : String) : Bool × SubIDFile :=
  if (parseSubidFile file name).length = 0 then
    let startID := findNextRange sort file
    usermod.run file name startID (wrap (wrap (startID + defaultRangeLen) - 1))
  else (true, file)

/-- `createSubordinateRanges`, with the files that it leaves; the group IDs are not reached after an error. -/
def createSubordinateRanges (s : SubIDFiles) (name : String) (uidmod gidmod : Usermod) : SubIDFiles :=
  let subuid := createRange sort uidmod s.subuid name
  if subuid.1 then ⟨subuid.2, (createRange sort gidmod s.subgid name).2⟩ else { s with subuid := subuid.2 }

/-- The files after calls for any users. -/
def createAll (s : SubIDFiles) (calls : List (String × Usermod × Usermod)) : SubIDFiles :=
  calls.foldl (fun s call => createSubordinateRanges sort s call.1 call.2.1 call.2.2) s

end

/-! ## The loop -/

theorem wrap_of_fits {n : ℤ} (hlow : -2 ^ 63 ≤ n) (hhigh : n < 2 ^ 63) : wrap n = n :=
  Int.bmod_eq_of_le (by omega) (by omega)

/-- A new range from `id` on fits the type. -/
def FitsID (id : ℤ) : Prop := -2 ^ 63 ≤ id ∧ id + defaultRangeLen < 2 ^ 63

/-- A range is not shorter than a new one, and a new one fits behind it. -/
def Fits (r : SubIDRange) : Prop :=
  -2 ^ 63 ≤ r.start ∧ defaultRangeLen ≤ r.length ∧ r.start + r.length + defaultRangeLen < 2 ^ 63

section

variable {r : SubIDRange} {rs : List SubIDRange} {startID : ℤ}

theorem wrap_end (h : Fits r) : wrap (r.start + r.length) = r.start + r.length := by
  unfold Fits defaultRangeLen at h
  exact wrap_of_fits (by omega) (by omega)

theorem wouldOverlap_iff (hr : Fits r) (hid : FitsID startID) : wouldOverlap r startID = true ↔
    (r.start ≤ startID ∧ startID ≤ r.start + r.length) ∨
      (startID + defaultRangeLen ≤ r.start + r.length ∧ r.start ≤ startID + defaultRangeLen) := by
  unfold FitsID defaultRangeLen at hid
  have hhigh : wrap (startID + defaultRangeLen) = startID + defaultRangeLen := by
    unfold defaultRangeLen
    exact wrap_of_fits (by omega) (by omega)
  simp [wouldOverlap, wrap_end hr, hhigh]

theorem le_skipRange (hr : Fits r) (hid : FitsID startID) :
    startID ≤ skipRange startID r ∧ FitsID (skipRange startID r) := by
  rw [skipRange, wrap_end hr]
  split_ifs with h
  · rw [wouldOverlap_iff hr hid] at h
    unfold Fits FitsID defaultRangeLen at *
    omega
  · exact ⟨le_rfl, hid⟩

theorem le_foldl_skipRange (hrs : ∀ r ∈ rs, Fits r) (hid : FitsID startID) :
    startID ≤ rs.foldl skipRange startID ∧ FitsID (rs.foldl skipRange startID) := by
  induction rs generalizing startID with
  | nil => exact ⟨le_rfl, hid⟩
  | cons r rs ih =>
    obtain ⟨hle, hskip⟩ := le_skipRange (hrs r List.mem_cons_self) hid
    obtain ⟨hle', hfits⟩ := ih (fun r' hr' => hrs r' (List.mem_cons_of_mem r hr')) hskip
    exact ⟨hle.trans hle', hfits⟩

/-- No range that starts behind the new one makes it move. -/
theorem foldl_skipRange_of_lt (hrs : ∀ r ∈ rs, Fits r) (hid : FitsID startID)
    (h : ∀ r ∈ rs, startID + defaultRangeLen < r.start) : rs.foldl skipRange startID = startID := by
  induction rs with
  | nil => rfl
  | cons r rs ih =>
    have hr := h r List.mem_cons_self
    have hskip : skipRange startID r = startID := by
      rw [skipRange, if_neg]
      rw [wouldOverlap_iff (hrs r List.mem_cons_self) hid]
      unfold Fits FitsID defaultRangeLen at *
      omega
    rw [List.foldl_cons, hskip]
    exact ih (fun r' hr' => hrs r' (List.mem_cons_of_mem r hr')) fun r' hr' => h r' (List.mem_cons_of_mem r hr')

/-- The new range is behind or before each range. -/
theorem apart_foldl_skipRange (hsorted : rs.Pairwise fun r r' => r.start ≤ r'.start) (hrs : ∀ r ∈ rs, Fits r)
    (hid : FitsID startID) : ∀ r ∈ rs,
      r.start + r.length ≤ rs.foldl skipRange startID ∨ rs.foldl skipRange startID + defaultRangeLen ≤ r.start := by
  induction rs generalizing startID with
  | nil => simp
  | cons r rs ih =>
    rw [List.pairwise_cons] at hsorted
    have hr := hrs r List.mem_cons_self
    have hrs' : ∀ r' ∈ rs, Fits r' := fun r' hr' => hrs r' (List.mem_cons_of_mem r hr')
    obtain ⟨-, hskip⟩ := le_skipRange hr hid
    intro r' hr'
    rw [List.foldl_cons]
    rcases List.mem_cons.mp hr' with rfl | hr'
    · obtain ⟨hle, -⟩ := le_foldl_skipRange hrs' hskip
      rw [skipRange, wrap_end hr] at hle ⊢
      split_ifs at hle ⊢ with hover
      · exact .inl hle
      · rw [wouldOverlap_iff hr hid] at hover
        -- with both ends outside, all of the range is on one side
        rcases lt_or_ge startID r'.start with hlt | hge
        · have hbefore : startID + defaultRangeLen < r'.start := by
            unfold Fits defaultRangeLen at *
            omega
          rw [foldl_skipRange_of_lt hrs' hid fun r'' hr'' => hbefore.trans_le (hsorted.1 r'' hr'')]
          exact .inr hbefore.le
        · exact .inl (by omega)
    · exact ih hsorted.2 hrs' hskip r' hr'

/-- The new range is the first one or behind another. -/
theorem foldl_skipRange_mem (hrs : ∀ r ∈ rs, Fits r) (startID : ℤ) :
    rs.foldl skipRange startID = startID ∨ ∃ r ∈ rs, rs.foldl skipRange startID = r.start + r.length := by
  induction rs generalizing startID with
  | nil => exact .inl rfl
  | cons r rs ih =>
    rw [List.foldl_cons]
    rcases ih (fun r' hr' => hrs r' (List.mem_cons_of_mem r hr')) (skipRange startID r) with h | ⟨r', hr', h⟩
    · rw [h, skipRange, wrap_end (hrs r List.mem_cons_self)]
      split_ifs
      · exact .inr ⟨r, List.mem_cons_self, rfl⟩
      · exact .inl rfl
    · exact .inr ⟨r', List.mem_cons_of_mem r hr', h⟩

end

/-! ## Runs -/

section

variable {sort : List SubIDRange → List SubIDRange}
  (hsort : ∀ rs, (sort rs).Perm rs ∧ (sort rs).Pairwise fun r r' => r.start ≤ r'.start)

/-- The ranges are disjoint, none is shorter than a new one, and there is room for `room` new ones behind them. -/
structure Roomy (room : ℕ) (file : SubIDFile) : Prop where
  start : ∀ line ∈ file, -2 ^ 63 ≤ line.2.start
  length : ∀ line ∈ file, defaultRangeLen ≤ line.2.length
  fits : ∀ line ∈ file, line.2.start + line.2.length + room * defaultRangeLen < 2 ^ 63
  fitsFirst : defaultRangeStart + room * defaultRangeLen < 2 ^ 63
  disjoint : SubIDRange.Disjoint (file.map Prod.snd)

theorem Roomy.pred {room : ℕ} {file : SubIDFile} (h : Roomy (room + 1) file) : Roomy room file := by
  refine ⟨h.start, h.length, fun line hline => ?_, ?_, h.disjoint⟩
  · have hfits := h.fits line hline
    unfold defaultRangeLen at *
    push_cast at hfits
    omega
  · have hfits := h.fitsFirst
    unfold defaultRangeLen at *
    push_cast at hfits
    omega

include hsort

/-- The new range is apart from the others, and one less fits. -/
theorem Roomy.add {room : ℕ} {file : SubIDFile} (h : Roomy (room + 1) file) (name : String) :
    Roomy room (file ++ [(name, ⟨findNextRange sort file, defaultRangeLen⟩)]) ∧ FitsID (findNextRange sort file) := by
  have hmem {r : SubIDRange} : r ∈ sort (parseSubidFile file "ALL") ↔ ∃ line ∈ file, line.2 = r := by
    rw [(hsort _).1.mem_iff, parseSubidFile]
    simp
  have hrs : ∀ r ∈ sort (parseSubidFile file "ALL"), Fits r := by
    intro r hr
    obtain ⟨line, hline, rfl⟩ := hmem.mp hr
    have hfits := h.fits line hline
    have hlength := h.length line hline
    unfold Fits defaultRangeLen at *
    push_cast at hfits
    exact ⟨h.start line hline, by omega, by omega⟩
  have hfirst : FitsID defaultRangeStart := by
    unfold FitsID defaultRangeStart defaultRangeLen
    omega
  have hroom : -2 ^ 63 ≤ findNextRange sort file ∧ findNextRange sort file + (room + 1 : ℕ) * defaultRangeLen < 2 ^ 63 := by
    rcases foldl_skipRange_mem hrs defaultRangeStart with he | ⟨r, hr, he⟩
    · rw [findNextRange, findNextRangeStart, he]
      exact ⟨by unfold defaultRangeStart; omega, h.fitsFirst⟩
    · obtain ⟨line, hline, rfl⟩ := hmem.mp hr
      rw [findNextRange, findNextRangeStart, he]
      have hlength := h.length line hline
      have hstart := h.start line hline
      exact ⟨by unfold defaultRangeLen at hlength; omega, h.fits line hline⟩
  have hless := h.pred
  refine ⟨⟨fun line hline => ?_, fun line hline => ?_, fun line hline => ?_, hless.fitsFirst, ?_⟩,
    (le_foldl_skipRange hrs hfirst).2⟩
  · rcases List.mem_append.mp hline with hline | hline
    · exact h.start line hline
    · rw [List.mem_singleton.mp hline]
      exact hroom.1
  · rcases List.mem_append.mp hline with hline | hline
    · exact h.length line hline
    · rw [List.mem_singleton.mp hline]
  · rcases List.mem_append.mp hline with hline | hline
    · exact hless.fits line hline
    · rw [List.mem_singleton.mp hline]
      have hlast := hroom.2
      unfold defaultRangeLen at *
      push_cast at hlast
      dsimp only
      omega
  · rw [List.map_append, SubIDRange.Disjoint, List.pairwise_append]
    refine ⟨h.disjoint, List.pairwise_singleton .., fun r hr r' hr' id hid hid' => ?_⟩
    obtain ⟨line, hline, rfl⟩ := List.mem_map.mp hr
    have hapart := apart_foldl_skipRange (hsort _).2 hrs hfirst line.2 (hmem.mpr ⟨line, hline, rfl⟩)
    rw [List.map_singleton, List.mem_singleton] at hr'
    subst hr'
    simp only [Holds, findNextRange, findNextRangeStart] at hid hid'
    omega

theorem Roomy.createRange {room : ℕ} {file : SubIDFile} (h : Roomy (room + 1) file) (usermod : Usermod) (name : String) :
    Roomy room (Archive.createRange sort usermod file name).2 ∧ file <+: (Archive.createRange sort usermod file name).2 := by
  rw [Archive.createRange]
  split_ifs
  · obtain ⟨hadd, hlow, hhigh⟩ := h.add hsort name
    have hlast : wrap (wrap (findNextRange sort file + defaultRangeLen) - 1) =
        findNextRange sort file + defaultRangeLen - 1 := by
      unfold defaultRangeLen at *
      rw [wrap_of_fits (n := _ + 65536) (by omega) hhigh]
      exact wrap_of_fits (by omega) (by omega)
    dsimp only
    rw [hlast]
    cases hrun : (usermod.run file name (findNextRange sort file) (findNextRange sort file + defaultRangeLen - 1)).1 with
    | true =>
      rw [usermod.adds _ _ _ _ hrun, show findNextRange sort file + defaultRangeLen - 1 - findNextRange sort file + 1 =
        defaultRangeLen by omega]
      exact ⟨hadd, List.prefix_append ..⟩
    | false =>
      rw [usermod.leaves _ _ _ _ hrun]
      exact ⟨h.pred, List.prefix_rfl⟩
  · exact ⟨h.pred, List.prefix_rfl⟩

/-- A call keeps both files. -/
theorem roomy_createSubordinateRanges {room : ℕ} {s : SubIDFiles} (huid : Roomy (room + 1) s.subuid)
    (hgid : Roomy (room + 1) s.subgid) (name : String) (uidmod gidmod : Usermod) :
    (Roomy room (createSubordinateRanges sort s name uidmod gidmod).subuid ∧
      s.subuid <+: (createSubordinateRanges sort s name uidmod gidmod).subuid) ∧
    Roomy room (createSubordinateRanges sort s name uidmod gidmod).subgid ∧
      s.subgid <+: (createSubordinateRanges sort s name uidmod gidmod).subgid := by
  have hnew := huid.createRange hsort uidmod name
  unfold createSubordinateRanges
  dsimp only
  split_ifs
  · exact ⟨hnew, hgid.createRange hsort gidmod name⟩
  · exact ⟨hnew, hgid.pred, List.prefix_rfl⟩

/-- As long as no range is shorter than a new one and a new one for each call fits Go's `int` behind them, the ranges of
all users are disjoint after any calls, whichever of them fail, and the lines of the files stay. -/
theorem disjoint_run (s : SubIDFiles) (calls : List (String × Usermod × Usermod)) (huid : Roomy calls.length s.subuid)
    (hgid : Roomy calls.length s.subgid) :
    (Roomy 0 (createAll sort s calls).subuid ∧ s.subuid <+: (createAll sort s calls).subuid) ∧
    Roomy 0 (createAll sort s calls).subgid ∧ s.subgid <+: (createAll sort s calls).subgid := by
  induction calls generalizing s with
  | nil => exact ⟨⟨huid, List.prefix_rfl⟩, hgid, List.prefix_rfl⟩
  | cons call calls ih =>
    obtain ⟨⟨huid₁, hkept₁⟩, hgid₁, hkept₁'⟩ := roomy_createSubordinateRanges hsort huid hgid call.1 call.2.1 call.2.2
    obtain ⟨⟨huid₂, hkept₂⟩, hgid₂, hkept₂'⟩ := ih _ huid₁ hgid₁
    exact ⟨⟨huid₂, hkept₁.trans hkept₂⟩, hgid₂, hkept₁'.trans hkept₂'⟩

end

/-- A `usermod` that fails, or that does not. -/
def usermodOf (ok : Bool) : Usermod where
  run file name first last := (ok, if ok then file ++ [(name, ⟨first, last - first + 1⟩)] else file)
  adds _ _ _ _ h := if_pos h
  leaves _ _ _ _ h := by rw [show ok = false from h]; rfl

/-- Two users, with a range that has been there before, which the new ones are put behind. -/
theorem disjoint_run_two : ∃ sort : List SubIDRange → List SubIDRange,
    (createAll sort ⟨[("ada", ⟨165536, 65536⟩)], []⟩
      [("bob", usermodOf true, usermodOf true), ("eve", usermodOf true, usermodOf false)]).subuid =
        [("ada", ⟨165536, 65536⟩), ("bob", ⟨231072, 65536⟩), ("eve", ⟨296608, 65536⟩)] ∧
    Roomy 0 (createAll sort ⟨[("ada", ⟨165536, 65536⟩)], []⟩
      [("bob", usermodOf true, usermodOf true), ("eve", usermodOf true, usermodOf false)]).subuid := by
  have hroomy : Roomy 2 [("ada", ⟨165536, 65536⟩)] := by
    constructor <;> simp [defaultRangeLen, defaultRangeStart, SubIDRange.Disjoint]
  have hempty : Roomy 2 [] := by
    constructor <;> simp [defaultRangeLen, defaultRangeStart, SubIDRange.Disjoint]
  have htotal : Std.Total fun r r' : SubIDRange => r.start ≤ r'.start := ⟨fun _ _ => le_total _ _⟩
  have htrans : IsTrans SubIDRange fun r r' => r.start ≤ r'.start := ⟨fun _ _ _ => le_trans⟩
  refine ⟨fun rs => rs.insertionSort fun r r' => r.start ≤ r'.start, by decide +kernel, ?_⟩
  exact (disjoint_run (fun rs => ⟨List.perm_insertionSort _ rs, List.pairwise_insertionSort _ rs⟩) ⟨_, []⟩
    [("bob", usermodOf true, usermodOf true), ("eve", usermodOf true, usermodOf false)] hroomy hempty).1.1

end Moby.Archive
