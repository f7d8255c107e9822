import Moby.Framework.Acyclic
import Moby.Framework.Machine
import Moby.Tarexport.Load

/-!
# Loading images from an archive without a manifest

`legacyLoad` and `legacyLoadImage` of `image/tarexport/load.go`. An image is a
directory with a file `json`, which may name a parent, another directory that
is loaded before it. `legacyLoadImage` calls itself for the parent and does not
know of the calls it is in, so it is modelled as a machine with its stack
(`Legacy`).
-/

namespace Moby.Tarexport

open Framework
open Reference (Named)

/-- What is outside of the package, for the `json` files: the parent that one
names, empty if none, its entry of the history, and the configuration that it
makes with a root FS and a history; for the file `repositories`: the name, the
tag and the image of each reference, in the order in which the maps are read. -/
structure V1Codec where
  parent : Bytes → Option String
  history : Bytes → Option History
  config : Bytes → Chain → List History → Option Bytes
  repositories : Bytes → Option (List (String × String × String))

/-- An extracted archive without a manifest: the directories in it, the
directory that the name of an image leads to, and the files, symbolic links
followed. -/
structure LegacyArchive where
  dirs : List String
  directory : String → String
  file : String → Option Bytes

namespace LegacyArchive

/-- The file `json` of an image. -/
def json (t : LegacyArchive) (oldID : String) : Option Bytes := t.file (t.directory oldID ++ "/json")

def layerPath (t : LegacyArchive) (oldID : String) : String := t.directory oldID ++ "/layer.tar"

end LegacyArchive

inductive LegacyErr
  | noJSON (oldID : String)
  | invalidJSON (oldID : String)
  | load (e : Err)
  /-- `os.ErrInvalid`, of the `Close` of a file that could not be opened. -/
  | noRepositories
  | invalidRepositories
  | invalidTarget (oldID : String)
  | invalidTag (name tag : String)
  deriving DecidableEq

/-- Where a call of `legacyLoadImage` is: at its start, or in its loop, which
waits for the parent to be loaded. -/
inductive LegacyPoint
  | start
  | waits (imageJSON : Bytes) (parent : String)
  deriving DecidableEq

/-- A call of `legacyLoadImage`. -/
structure Activation where
  oldID : String
  point : LegacyPoint := .start
  deriving DecidableEq

/-- `legacyLoad` as it runs: the directories it has not come to, its calls of
`legacyLoadImage` with the innermost first, `legacyLoadedMap`, and what it
returns once it does. -/
structure Legacy (c : Codec) where
  stores : Stores c
  dirs : List String
  stack : List Activation := []
  loaded : Map String ID := ∅
  result : Option (Except LegacyErr Unit) := none

variable {c : Codec} (v : V1Codec) (t : LegacyArchive)

/-- The root FS and the history of the parent, if there is one. -/
def parentImage : Option ID → Load c (Chain × List History)
  | none => return ([], [])
  | some parentID => do
    let parentImg ← getImage parentID
    return (parentImg.diffIDs, parentImg.history)

/-- The end of `legacyLoadImage`, once the parent is loaded. -/
def legacyCreate (oldID : String) (imageJSON : Bytes) (parentID : Option ID) : Load c ID := do
  let (rootFS, history) ← parentImage parentID
  let newLayer ← loadLayer t.file (t.layerPath oldID) rootFS
  match v.history imageJSON with
  | none => throw .invalidConfig
  | some h =>
    match v.config imageJSON newLayer (history ++ [h]) with
    | none => throw .invalidConfig
    | some config =>
      let imgID ← create config
      match parentID with
      | none => return imgID
      | some parentID =>
        setParent imgID parentID
        return imgID

/-- A reference of the file `repositories`. -/
def setTag (loaded : Map String ID) : String × String × String → Fallible LegacyErr (Stores c) Unit
  | (name, tag, oldID) => do
    match loaded.lookup oldID with
    | none => throw (.invalidTarget oldID)
    | some imgID =>
      match Reference.withName name >>= fun named => named.withTag tag with
      | .error _ => throw (.invalidTag name tag)
      | .ok ref => modify (·.setLoadedTag ref imgID)

namespace Legacy

def fail (s : Legacy c) (e : LegacyErr) : Legacy c := { s with stack := [], result := some (.error e) }

/-- The innermost call returns, without an error. -/
def pop (s : Legacy c) : Legacy c := { s with stack := s.stack.tail }

/-- The innermost call comes to its end. -/
def finish (s : Legacy c) (oldID : String) (imageJSON : Bytes) (parentID : Option ID) : Legacy c :=
  match (legacyCreate v t oldID imageJSON parentID).exec s.stores with
  | (.error e, stores) => { s with stores }.fail (.load e)
  | (.ok imgID, stores) => { s with stores, loaded := s.loaded.insert oldID imgID }.pop

/-- The start of a call, up to its loop. -/
def enter (s : Legacy c) (oldID : String) : Legacy c :=
  if oldID ∈ s.loaded then s.pop
  else
    match t.json oldID with
    | none => s.fail (.noJSON oldID)
    | some imageJSON =>
      match v.parent imageJSON with
      | none => s.fail (.invalidJSON oldID)
      | some parent =>
        if parent = "" then s.finish v t oldID imageJSON none
        else { s with stack := ⟨oldID, .waits imageJSON parent⟩ :: s.stack.tail }

/-- An iteration of the loop of a call. -/
def wait (s : Legacy c) (oldID : String) (imageJSON : Bytes) (parent : String) : Legacy c :=
  match s.loaded.lookup parent with
  | none => { s with stack := ⟨parent, .start⟩ :: s.stack }
  | some parentID => s.finish v t oldID imageJSON (some parentID)

/-- The tags of the file `repositories`. -/
def setTags (s : Legacy c) (tags : List (String × String × String)) : Legacy c :=
  match (tags.forM (setTag s.loaded)).exec s.stores with
  | (.error e, stores) => { s with stores }.fail e
  | (.ok _, stores) => { s with stores, result := some (.ok ()) }

/-- A step of `legacyLoad`; `none` once it has returned. -/
def next (s : Legacy c) : Option (Legacy c) :=
  match s.result with
  | some _ => none
  | none =>
    match s.stack with
    | ⟨oldID, .start⟩ :: _ => some (s.enter v t oldID)
    | ⟨oldID, .waits imageJSON parent⟩ :: _ => some (s.wait v t oldID imageJSON parent)
    | [] =>
      match s.dirs with
      | d :: dirs => some { s with dirs, stack := [⟨d, .start⟩] }
      | [] =>
        match t.file "repositories" with
        | none => some (s.fail .noRepositories)
        | some repositories =>
          match v.repositories repositories with
          | none => some (s.fail .invalidRepositories)
          | some tags => some (s.setTags tags)

/-- `legacyLoad` as a machine. -/
def exec (s : Legacy c) (_ : Unit) : Option (Legacy c) := s.next v t

end Legacy

/-- The start of `legacyLoad`. -/
def legacyLoad (stores : Stores c) : Legacy c := { stores, dirs := t.dirs }

/-! ## Steps -/

/-- A call needs no other one to go on: its image has no parent that could be
read, or the parent is loaded. -/
def Ready (s : Legacy c) (a : Activation) : Prop :=
  match a.point with
  | .start => ∀ imageJSON parent, t.json a.oldID = some imageJSON → v.parent imageJSON = some parent → parent = ""
  | .waits _ parent => parent ∈ s.loaded

/-- What a step of `legacyLoad` does. -/
inductive Goes (s : Legacy c) : Legacy c → Prop
  /-- The next directory is loaded. -/
  | directory {d : String} {dirs : List String} (hs : s.stack = []) (hd : s.dirs = d :: dirs) :
    Goes s { s with dirs, stack := [⟨d, .start⟩] }
  | returns {s' : Legacy c} (hs : s'.stack = []) (hl : s'.loaded = s.loaded) (hr : s'.result ≠ none)
    (hs₀ : s.stack = []) (hd₀ : s.dirs = []) : Goes s s'
  | known {oldID : String} {rest : List Activation} (hs : s.stack = ⟨oldID, .start⟩ :: rest) (hl : oldID ∈ s.loaded) :
    Goes s { s with stack := rest }
  | waits {oldID parent : String} {imageJSON : Bytes} {rest : List Activation}
    (hs : s.stack = ⟨oldID, .start⟩ :: rest) (hj : t.json oldID = some imageJSON)
    (hp : v.parent imageJSON = some parent) (hne : parent ≠ "") :
    Goes s { s with stack := ⟨oldID, .waits imageJSON parent⟩ :: rest }
  | calls {oldID parent : String} {imageJSON : Bytes} {rest : List Activation}
    (hs : s.stack = ⟨oldID, .waits imageJSON parent⟩ :: rest) (hl : parent ∉ s.loaded) :
    Goes s { s with stack := ⟨parent, .start⟩ :: s.stack }
  | loads {a : Activation} {rest : List Activation} {stores : Stores c} {imgID : ID} (hs : s.stack = a :: rest)
    (hr : Ready v t s a) : Goes s { s with stores, loaded := s.loaded.insert a.oldID imgID, stack := rest }
  | fails {a : Activation} {rest : List Activation} {stores : Stores c} {e : LegacyErr} (hs : s.stack = a :: rest)
    (hr : Ready v t s a) : Goes s { s with stores, stack := [], result := some (.error e) }

variable {v t} {s s' : Legacy c}

theorem finish_goes {a : Activation} {rest : List Activation} (hs : s.stack = a :: rest) (hr : Ready v t s a)
    (imageJSON : Bytes) (parentID : Option ID) : Goes v t s (s.finish v t a.oldID imageJSON parentID) := by
  unfold Legacy.finish
  split
  · exact .fails hs hr
  · have hpop : s.stack.tail = rest := by rw [hs]; rfl
    rw [Legacy.pop]
    simp only [hpop]
    exact .loads hs hr

theorem enter_goes {oldID : String} {rest : List Activation} (hs : s.stack = ⟨oldID, .start⟩ :: rest) :
    Goes v t s (s.enter v t oldID) := by
  have hpop : s.stack.tail = rest := by rw [hs]; rfl
  unfold Legacy.enter
  split_ifs with hl
  · rw [Legacy.pop, hpop]; exact .known hs hl
  · split
    · rename_i hj
      have hr : Ready v t s ⟨oldID, .start⟩ := by
        intro imageJSON parent hj'
        cases hj.symm.trans hj'
      exact .fails hs hr
    · rename_i imageJSON hj
      split
      · rename_i hp
        have hr : Ready v t s ⟨oldID, .start⟩ := by
          intro imageJSON' parent hj' hp'
          cases hj.symm.trans hj'
          cases hp.symm.trans hp'
        exact .fails hs hr
      · rename_i parent hp
        split_ifs with hne
        · have hr : Ready v t s ⟨oldID, .start⟩ := by
            intro imageJSON' parent' hj' hp'
            cases hj.symm.trans hj'
            cases hp.symm.trans hp'
            exact hne
          exact finish_goes hs hr imageJSON none
        · rw [hpop]; exact .waits hs hj hp hne

theorem wait_goes {oldID parent : String} {imageJSON : Bytes} {rest : List Activation}
    (hs : s.stack = ⟨oldID, .waits imageJSON parent⟩ :: rest) :
    Goes v t s (s.wait v t oldID imageJSON parent) := by
  unfold Legacy.wait
  split
  · rename_i hl
    exact .calls hs (Finmap.lookup_eq_none.mp hl)
  · rename_i parentID hl
    have hr : Ready v t s ⟨oldID, .waits imageJSON parent⟩ := Finmap.mem_of_lookup_eq_some hl
    exact finish_goes hs hr imageJSON (some parentID)

theorem setTags_goes (hs : s.stack = []) (hd : s.dirs = []) (tags : List (String × String × String)) :
    Goes v t s (s.setTags tags) := by
  unfold Legacy.setTags
  split
  · exact .returns rfl rfl (Option.some_ne_none _) hs hd
  · exact .returns hs rfl (Option.some_ne_none _) hs hd

/-- A step, taken while `legacyLoad` has not returned. -/
theorem next_goes (h : s.next v t = some s') : s.result = none ∧ Goes v t s s' := by
  unfold Legacy.next at h
  split at h
  · cases h
  · rename_i hr
    refine ⟨hr, ?_⟩
    split at h
    · rename_i hs; cases h; exact enter_goes hs
    · rename_i hs; cases h; exact wait_goes hs
    · rename_i hs
      split at h
      · rename_i hd; cases h; exact .directory hs hd
      · rename_i hd
        split at h
        · cases h; exact .returns rfl rfl (Option.some_ne_none _) hs hd
        · split at h
          · cases h; exact .returns rfl rfl (Option.some_ne_none _) hs hd
          · rename_i tags _
            cases h; exact setTags_goes hs hd tags

/-! ## Calls -/

section

variable (v t)

/-- The directory `q` is the parent of the image of the directory `d`. -/
def IsParent (q d : String) : Prop :=
  ∃ imageJSON parent, t.file (d ++ "/json") = some imageJSON ∧ v.parent imageJSON = some parent ∧ parent ≠ "" ∧
    t.directory parent = q

/-- Following the parents from an image comes to an end. -/
def Founded (oldID : String) : Prop := Acc (IsParent v t) (t.directory oldID)

/-- What is true of the calls and of what they have loaded. -/
structure Sound (s : Legacy c) : Prop where
  loaded : ∀ oldID ∈ s.loaded, Founded v t oldID
  /-- A call waits for the parent that its image names. -/
  waits : ∀ oldID imageJSON parent, ⟨oldID, .waits imageJSON parent⟩ ∈ s.stack →
    t.json oldID = some imageJSON ∧ v.parent imageJSON = some parent ∧ parent ≠ ""
  /-- Each call is for the parent that the call below it waits for. -/
  chained : s.stack.IsChain fun a b => ∃ imageJSON, b.point = .waits imageJSON a.oldID

end

theorem founded_of_parent {oldID parent : String} {imageJSON : Bytes} (hj : t.json oldID = some imageJSON)
    (hp : v.parent imageJSON = some parent) (h : parent ≠ "" → Founded v t parent) : Founded v t oldID := by
  refine .intro _ fun q hq => ?_
  obtain ⟨imageJSON', parent', hj', hp', hne, rfl⟩ := hq
  cases hj.symm.trans hj'
  cases hp.symm.trans hp'
  exact h hne

theorem Founded.parent {oldID parent : String} {imageJSON : Bytes} (h : Founded v t oldID)
    (hj : t.json oldID = some imageJSON) (hp : v.parent imageJSON = some parent) (hne : parent ≠ "") :
    Founded v t parent :=
  h.inv ⟨imageJSON, parent, hj, hp, hne, rfl⟩

namespace Sound

/-- A call that needs no other one is for an image whose ancestors are loaded. -/
theorem founded (h : Sound v t s) {a : Activation} (ha : a ∈ s.stack) (hr : Ready v t s a) : Founded v t a.oldID := by
  obtain ⟨oldID, point⟩ := a
  cases point with
  | start =>
    refine .intro _ fun q hq => ?_
    obtain ⟨imageJSON, parent, hj, hp, hne, -⟩ := hq
    exact absurd (hr imageJSON parent hj hp) hne
  | waits imageJSON parent =>
    obtain ⟨hj, hp, -⟩ := h.waits oldID imageJSON parent ha
    exact founded_of_parent hj hp fun _ => h.loaded parent hr

theorem start (stores : Stores c) : Sound v t (legacyLoad t stores) :=
  ⟨fun _ h => absurd h (Finmap.notMem_empty), by rintro _ _ _ ⟨⟩, .nil⟩

theorem goes (h : Sound v t s) (hg : Goes v t s s') : Sound v t s' := by
  cases hg with
  | directory hs hd =>
    refine ⟨h.loaded, fun oldID imageJSON parent hm => ?_, .singleton _⟩
    cases List.mem_singleton.mp hm
  | returns hs hl hr hs₀ hd₀ =>
    refine ⟨by rw [hl]; exact h.loaded, fun oldID imageJSON parent hm => ?_, by rw [hs]; exact .nil⟩
    rw [hs] at hm; cases hm
  | known hs hl =>
    refine ⟨h.loaded, fun oldID imageJSON parent hm => ?_, ?_⟩
    · exact h.waits oldID imageJSON parent (by rw [hs]; exact List.mem_cons_of_mem _ hm)
    · have hc := h.chained
      rw [hs] at hc
      exact hc.tail
  | @waits oldID parent imageJSON rest hs hj hp hne =>
    refine ⟨h.loaded, fun oldID' imageJSON' parent' hm => ?_, ?_⟩
    · rcases List.mem_cons.mp hm with heq | hm
      · cases heq; exact ⟨hj, hp, hne⟩
      · exact h.waits oldID' imageJSON' parent' (by rw [hs]; exact List.mem_cons_of_mem _ hm)
    · have hc := h.chained
      rw [hs] at hc
      cases hc with
      | singleton => exact .singleton _
      | cons_cons hab hrest => exact .cons_cons hab hrest
  | @calls oldID parent imageJSON rest hs hl =>
    refine ⟨h.loaded, fun oldID' imageJSON' parent' hm => ?_, ?_⟩
    · rcases List.mem_cons.mp hm with heq | hm
      · cases heq
      · exact h.waits oldID' imageJSON' parent' hm
    · have hc := h.chained
      rw [hs] at hc ⊢
      exact .cons_cons ⟨imageJSON, rfl⟩ hc
  | @loads a rest stores imgID hs hr =>
    have hf : Founded v t a.oldID := h.founded (by rw [hs]; exact List.mem_cons_self) hr
    refine ⟨fun oldID hm => ?_, fun oldID imageJSON parent hm => ?_, ?_⟩
    · rcases Finmap.mem_insert.mp hm with rfl | hm
      · exact hf
      · exact h.loaded oldID hm
    · exact h.waits oldID imageJSON parent (by rw [hs]; exact List.mem_cons_of_mem _ hm)
    · have hc := h.chained
      rw [hs] at hc
      exact hc.tail
  | fails hs hr => exact ⟨h.loaded, by rintro _ _ _ ⟨⟩, .nil⟩

end Sound

theorem sound_of_reaches {stores : Stores c} (h : Reaches (Legacy.exec v t) (legacyLoad t stores) s) : Sound v t s :=
  h.inv (Sound.start stores) fun _ _ _ _ ih _ he => ih.goes (next_goes he).2

/-! ## Calls that end, and calls that do not -/

theorem exists_next (h : s.result = none) : ∃ s', s.next v t = some s' := by
  rw [← Option.isSome_iff_exists]
  unfold Legacy.next
  rw [h]
  dsimp only
  repeat' split
  all_goals rfl

/-- A call for an image from which following the parents does not end. -/
theorem never_ends (h : Sound v t s) (hr : s.result = none) {a : Activation} {rest : List Activation}
    (hs : s.stack = a :: rest) (ha : ¬ Founded v t a.oldID) : ¬ Terminates (Legacy.exec v t) s := by
  -- The innermost call is always for such an image.
  refine Terminates.not_of_inv (I := fun s => Sound v t s ∧ s.result = none ∧
    ∃ a rest, s.stack = a :: rest ∧ ¬ Founded v t a.oldID) ⟨h, hr, a, rest, hs, ha⟩ ?_
  rintro s ⟨h, hr, a, rest, hs, ha⟩
  obtain ⟨s', he⟩ := exists_next hr
  have hg := (next_goes he).2
  refine ⟨(), s', he, h.goes hg, ?_⟩
  have hmem : a ∈ s.stack := by rw [hs]; exact List.mem_cons_self
  cases hg with
  | directory hs' hd => cases hs.symm.trans hs'
  | returns _ _ _ hs' _ => cases hs.symm.trans hs'
  | known hs' hl => cases hs.symm.trans hs'; exact absurd (h.loaded _ hl) ha
  | waits hs' hj hp hne => cases hs.symm.trans hs'; exact ⟨hr, _, _, rfl, ha⟩
  | calls hs' hl =>
    cases hs.symm.trans hs'
    obtain ⟨hj, hp, -⟩ := h.waits _ _ _ hmem
    exact ⟨hr, _, _, rfl, fun hf => ha (founded_of_parent hj hp fun _ => hf)⟩
  | loads hs' hready => cases hs.symm.trans hs'; exact absurd (h.founded hmem hready) ha
  | fails hs' hready => cases hs.symm.trans hs'; exact absurd (h.founded hmem hready) ha

theorem terminates_of_result (h : s.result ≠ none) : Terminates (Legacy.exec v t) s :=
  .of_next fun _ _ he => absurd (next_goes he).1 h

/-- The steps outside of calls. -/
theorem Goes.of_nil (h : Goes v t s s') (hs : s.stack = []) :
    (∃ d dirs, s.dirs = d :: dirs ∧ s'.stack = [⟨d, .start⟩] ∧ s'.dirs = dirs ∧ s'.result = s.result) ∨
      s.dirs = [] ∧ s'.result ≠ none := by
  cases h with
  | directory _ hd => exact .inl ⟨_, _, hd, rfl, rfl, rfl⟩
  | returns _ _ hr _ hd => exact .inr ⟨hd, hr⟩
  | known hs' _ => cases hs.symm.trans hs'
  | waits hs' _ _ _ => cases hs.symm.trans hs'
  | calls hs' _ => cases hs.symm.trans hs'
  | loads hs' _ => cases hs.symm.trans hs'
  | fails hs' _ => cases hs.symm.trans hs'

/-- The steps of a call that waits for its parent. -/
theorem Goes.of_waits {oldID parent : String} {imageJSON : Bytes} {rest : List Activation} (h : Goes v t s s')
    (hs : s.stack = ⟨oldID, .waits imageJSON parent⟩ :: rest) :
    (s'.stack = ⟨parent, .start⟩ :: ⟨oldID, .waits imageJSON parent⟩ :: rest ∧ s'.dirs = s.dirs ∧ parent ∉ s.loaded) ∨
      (s'.stack = rest ∧ s'.dirs = s.dirs ∧ oldID ∈ s'.loaded) ∨ s'.result ≠ none := by
  cases h with
  | directory hs' _ => cases hs.symm.trans hs'
  | returns _ _ _ hs' _ => cases hs.symm.trans hs'
  | known hs' _ => cases hs.symm.trans hs'
  | waits hs' _ _ _ => cases hs.symm.trans hs'
  | calls hs' hl => cases hs.symm.trans hs'; exact .inl ⟨congrArg _ hs, rfl, hl⟩
  | loads hs' _ => cases hs.symm.trans hs'; exact .inr (.inl ⟨rfl, rfl, Finmap.mem_insert.mpr (.inl rfl)⟩)
  | fails _ _ => exact .inr (.inr (Option.some_ne_none _))

/-- A call for an image from which following the parents ends: `legacyLoad`
ends if it does from the states in which the call has returned. -/
theorem ends_of_founded {s₀ : Legacy c} {oldID : String} (hf : Founded v t oldID) {rest : List Activation}
    (hreach : Reaches (Legacy.exec v t) s₀ s) (hs : s.stack = ⟨oldID, .start⟩ :: rest)
    (hk : ∀ s', Reaches (Legacy.exec v t) s₀ s' → s'.stack = rest → s'.dirs = s.dirs → oldID ∈ s'.loaded →
      Terminates (Legacy.exec v t) s') : Terminates (Legacy.exec v t) s := by
  unfold Founded at hf
  generalize hd : t.directory oldID = d at hf
  induction hf generalizing s oldID rest with
  | intro d _ ih =>
    refine .of_next fun _ s₁ he => ?_
    have hreach₁ : Reaches (Legacy.exec v t) s₀ s₁ := hreach.tail trivial he
    cases (next_goes he).2 with
    | directory hs' _ => cases hs.symm.trans hs'
    | returns _ _ _ hs' _ => cases hs.symm.trans hs'
    | known hs' hl => cases hs.symm.trans hs'; exact hk _ hreach₁ rfl rfl hl
    | calls hs' _ => cases hs.symm.trans hs'
    | loads hs' _ => cases hs.symm.trans hs'; exact hk _ hreach₁ rfl rfl (Finmap.mem_insert.mpr (.inl rfl))
    | fails hs' _ => exact terminates_of_result (Option.some_ne_none _)
    | @waits _ parent imageJSON _ hs' hj hp hne =>
      cases hs.symm.trans hs'
      refine .of_next fun _ s₂ he₂ => ?_
      have hreach₂ : Reaches (Legacy.exec v t) s₀ s₂ := hreach₁.tail trivial he₂
      rcases (next_goes he₂).2.of_waits rfl with ⟨hs₂, hd₂, -⟩ | ⟨hs₂, hd₂, hl₂⟩ | hr₂
      · refine ih (t.directory parent) ⟨imageJSON, parent, hd ▸ hj, hp, hne, rfl⟩ hreach₂ hs₂ ?_ rfl
        -- The parent is loaded: the call does not wait again.
        intro s₃ hreach₃ hs₃ hd₃ hl₃
        refine .of_next fun _ s₄ he₄ => ?_
        rcases (next_goes he₄).2.of_waits hs₃ with ⟨-, -, hl₄⟩ | ⟨hs₄, hd₄, hl₄⟩ | hr₄
        · exact absurd hl₃ hl₄
        · exact hk s₄ (hreach₃.tail trivial he₄) hs₄ (hd₄.trans (hd₃.trans hd₂)) hl₄
        · exact terminates_of_result hr₄
      · exact hk s₂ hreach₂ hs₂ hd₂ hl₂
      · exact terminates_of_result hr₂

/-- The loop over the directories ends if every call of it is for an image from
which following the parents ends. -/
theorem ends_of_directories {s₀ : Legacy c}
    (hf : ∀ s d dirs, Reaches (Legacy.exec v t) s₀ s → s.result = none → s.stack = [] → s.dirs = d :: dirs →
      Founded v t d)
    (hreach : Reaches (Legacy.exec v t) s₀ s) (hs : s.stack = []) : Terminates (Legacy.exec v t) s := by
  induction hd : s.dirs generalizing s with
  | nil =>
    refine .of_next fun _ s₁ he => ?_
    rcases (next_goes he).2.of_nil hs with ⟨d, dirs, hd', -⟩ | ⟨-, hr⟩
    · cases hd.symm.trans hd'
    · exact terminates_of_result hr
  | cons d dirs ih =>
    refine .of_next fun _ s₁ he => ?_
    obtain ⟨hr, hg⟩ := next_goes he
    rcases hg.of_nil hs with ⟨_, _, hd', hs₁, hd₁, -⟩ | ⟨-, hr₁⟩
    · cases hd.symm.trans hd'
      exact ends_of_founded (hf s d dirs hreach hr hs hd) (hreach.tail trivial he) hs₁
        fun s' hreach' hs' hdirs _ => ih hreach' hs' (hdirs.trans hd₁)
    · exact terminates_of_result hr₁

/-! ## One call for a directory -/

theorem Goes.founded {s₀ : Legacy c}
    (hf : ∀ s d dirs, Reaches (Legacy.exec v t) s₀ s → s.result = none → s.stack = [] → s.dirs = d :: dirs →
      Founded v t d)
    (hreach : Reaches (Legacy.exec v t) s₀ s) (hr : s.result = none) (h : Sound v t s)
    (hs : ∀ a ∈ s.stack, Founded v t a.oldID) (hg : Goes v t s s') : ∀ a ∈ s'.stack, Founded v t a.oldID := by
  intro a ha
  cases hg with
  | directory hs' hd => cases List.mem_singleton.mp ha; exact hf s _ _ hreach hr hs' hd
  | returns hs' _ _ _ _ => rw [hs'] at ha; cases ha
  | known hs' _ => exact hs a (by rw [hs']; exact List.mem_cons_of_mem _ ha)
  | @waits oldID parent imageJSON rest hs' _ _ _ =>
    rcases List.mem_cons.mp ha with rfl | ha
    · exact hs ⟨oldID, .start⟩ (by rw [hs']; exact List.mem_cons_self)
    · exact hs a (by rw [hs']; exact List.mem_cons_of_mem _ ha)
  | @calls oldID parent imageJSON rest hs' _ =>
    rcases List.mem_cons.mp ha with rfl | ha
    · have hmem : ⟨oldID, .waits imageJSON parent⟩ ∈ s.stack := by rw [hs']; exact List.mem_cons_self
      obtain ⟨hj, hp, hne⟩ := h.waits _ _ _ hmem
      exact (hs _ hmem).parent hj hp hne
    · exact hs a ha
  | loads hs' _ => exact hs a (by rw [hs']; exact List.mem_cons_of_mem _ ha)
  | fails _ _ => cases ha

/-- Two calls for one directory would be a cycle of parents. -/
theorem Sound.nodup (h : Sound v t s) (hf : ∀ a ∈ s.stack, Founded v t a.oldID) :
    (s.stack.map fun a => t.directory a.oldID).Nodup := by
  have hchain : (s.stack.map fun a => t.directory a.oldID).IsChain (Relation.TransGen (IsParent v t)) := by
    rw [List.isChain_map]
    refine h.chained.imp_of_mem_imp fun a b _ hb hab => ?_
    obtain ⟨oldID, point⟩ := b
    obtain ⟨imageJSON, rfl⟩ := hab
    obtain ⟨hj, hp, hne⟩ := h.waits oldID imageJSON a.oldID hb
    exact .single ⟨imageJSON, a.oldID, hj, hp, hne, rfl⟩
  refine hchain.pairwise.imp_of_mem fun {d d'} hd _ hdd' heq => ?_
  obtain ⟨a, ha, rfl⟩ := List.mem_map.mp hd
  exact not_transGen_of_acc (hf a ha) (heq ▸ hdd')

/-- `legacyLoad` ends, and at any time at most one of its calls is for each
directory, just if from every directory that it comes to following the parents
ends. -/
theorem legacyLoad_ends_iff (v : V1Codec) (t : LegacyArchive) (stores : Stores c) :
    (Terminates (Legacy.exec v t) (legacyLoad t stores) ∧
      ∀ s, Reaches (Legacy.exec v t) (legacyLoad t stores) s → (s.stack.map fun a => t.directory a.oldID).Nodup) ↔
    ∀ s d dirs, Reaches (Legacy.exec v t) (legacyLoad t stores) s → s.result = none → s.stack = [] →
      s.dirs = d :: dirs → Acc (IsParent v t) (t.directory d) := by
  constructor
  · rintro ⟨hends, -⟩ s d dirs hreach hr hs hd
    by_contra hf
    obtain ⟨s', he⟩ := exists_next (v := v) (t := t) hr
    have hreach' : Reaches (Legacy.exec v t) (legacyLoad t stores) s' := hreach.tail (e := ()) trivial he
    rcases (next_goes he).2.of_nil hs with ⟨d', dirs', hd', hs', -, hr'⟩ | ⟨hd', -⟩
    · cases hd.symm.trans hd'
      exact never_ends (sound_of_reaches hreach') (hr'.trans hr) hs' hf (hends.reaches hreach')
    · cases hd.symm.trans hd'
  · intro hf
    refine ⟨ends_of_directories hf .refl rfl, fun s hreach => ?_⟩
    have hstack : ∀ a ∈ s.stack, Founded v t a.oldID := by
      refine hreach.inv (I := fun s => ∀ a ∈ s.stack, Founded v t a.oldID) (by rintro _ ⟨⟩) fun s _ s' hs ih _ he => ?_
      obtain ⟨hr, hg⟩ := next_goes he
      exact hg.founded hf hs hr (sound_of_reaches hs) ih
    exact (sound_of_reaches hreach).nodup hstack

/-- A `json` that names the parent `a`, and two that name none, of which the
second has no valid date. -/
def selfJSON : Bytes := bytesOf "\x7b\"Parent\":\"a\"\x7d"

def rootJSON : Bytes := bytesOf "\x7b\"created\":\"2016-11-01T00:00:00Z\"\x7d"

def badDateJSON : Bytes := bytesOf "\x7b\"created\":\"x\"\x7d"

def sampleV1 : V1Codec where
  parent b := if b = selfJSON then some "a" else if b = rootJSON ∨ b = badDateJSON then some "" else none
  history b := if b = rootJSON then some { created := "2016-11-01T00:00:00Z" } else none
  config b rootFS history :=
    if b = rootJSON ∧ rootFS = [emptyDiffID] ∧ history = [{ created := "2016-11-01T00:00:00Z" }] then some layerConfig
    else none
  repositories b := if b = bytesOf "\x7b\x7d" then some [] else none

/-- An archive of one image. -/
def oneImage (json : Bytes) : LegacyArchive where
  dirs := ["a"]
  directory := id
  file path :=
    if path = "a/json" then some json
    else if path = "a/layer.tar" then some []
    else if path = "repositories" then some (bytesOf "\x7b\x7d")
    else none

theorem legacyLoad_unending :
    ∃ (c : Codec) (v : V1Codec) (t : LegacyArchive) (stores : Stores c),
      ¬ Terminates (Legacy.exec v t) (legacyLoad t stores) ∧
      ∃ s, Reaches (Legacy.exec v t) (legacyLoad t stores) s ∧
        s.stack.map (fun a => t.directory a.oldID) = ["a", "a"] := by
  have hself : ¬ Founded sampleV1 (oneImage selfJSON) "a" := fun h =>
    not_transGen_of_acc h (.single ⟨selfJSON, "a", by decide, by decide, by decide, rfl⟩)
  refine ⟨sampleCodec, sampleV1, oneImage selfJSON, emptyStores sampleCodec, fun h => ?_, ?_⟩
  · obtain ⟨s, hs, hview⟩ := ReachesIf.of_view (Legacy.exec sampleV1 (oneImage selfJSON)) (fun _ _ => True)
      (legacyLoad (oneImage selfJSON) (emptyStores sampleCodec)) [()] (fun s => (s.stack, s.result.isNone))
      (b := ([⟨"a", .start⟩], true)) (by decide +kernel)
    simp only [Prod.mk.injEq, Option.isNone_iff_eq_none] at hview
    exact never_ends (sound_of_reaches hs) hview.2 hview.1 hself (h.reaches hs)
  · exact ReachesIf.of_view (Legacy.exec sampleV1 (oneImage selfJSON)) (fun _ _ => True)
      (legacyLoad (oneImage selfJSON) (emptyStores sampleCodec)) [(), (), ()]
      (fun s => s.stack.map fun a => (oneImage selfJSON).directory a.oldID) (b := ["a", "a"]) (by decide +kernel)

end Moby.Tarexport
