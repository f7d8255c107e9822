import Mathlib.Data.List.Basic
import Mathlib.Logic.Function.Basic
import Mathlib.Order.Nat

/-!
# The layers and links of overlay2 (daemon/graphdriver/overlay2/overlay.go)

A layer has a directory, and a symbolic link with a random name in the directory `l` that points to its
`diff` directory; the file `link` of the layer has the name of the link, and the file `lower` the links
of its ancestors. `Create` makes the directory, the link and the files one after the other. If it fails
it removes the directory, as far as that succeeds, and not the link, so whether each link still belongs to
a layer depends on the step that fails (`links_kept_iff`).
-/

namespace Moby.Graphdriver.Layers

abbrev Text := List Char

def maxDepth : ℕ := 128

/-- The directory of a layer: whether there is `diff`, and the files `link` and `lower`. -/
structure LayerDir where
  diff : Bool
  link : Option Text
  lower : Option Text
  deriving DecidableEq

/-- The home directory. The IDs of layers and the names of links are names of files, and a link is told
by the layer to whose `diff` it points. -/
structure Home (κ : Type) where
  layers : κ → Option LayerDir
  links : Text → Option κ

/-- The calls of `Create` that may fail. -/
inductive Step
  | rootIDs
  | mkdirAll
  | mkdir
  /-- The directory has been made and does not get its owner. -/
  | chown
  | mkdirDiff
  | symlink
  | writeLink
  | mkdirWork
  | mkdirMerged
  | lstatParent
  | readLink
  | readLower
  | writeLower
  deriving DecidableEq

/-- What is left of a directory that could not be removed. -/
structure Residue where
  diff : Bool
  link : Bool
  lower : Bool
  deriving DecidableEq

def Residue.left (r : Residue) (dir : LayerDir) : LayerDir where
  diff := dir.diff && r.diff
  link := if r.link then dir.link else none
  lower := if r.lower then dir.lower else none

inductive Error
  | storageOpt
  | maxDepthExceeded
  | failed (s : Step)
  deriving DecidableEq

variable {κ : Type}

/-- `path.Join(linkDir, link)`. -/
def entry (link : Text) : Text := 'l' :: '/' :: link

namespace Home

/-- `getLower`. A file `lower` that cannot be read is as none. -/
def getLower (h : Home κ) (parent : κ) (fault : Option Step) : Except Error Text :=
  match h.layers parent with
  | none => .error (.failed .lstatParent)
  | some dir =>
    if fault = some .lstatParent then .error (.failed .lstatParent)
    else
      match dir.link with
      | none => .error (.failed .readLink)
      | some link =>
        if fault = some .readLink then .error (.failed .readLink)
        else
          let parentLowers := if fault = some .readLower then [] else (dir.lower.map (·.splitOn ':')).getD []
          let lowers := entry link :: parentLowers
          if maxDepth < lowers.length then .error .maxDepthExceeded else .ok ([':'].intercalate lowers)

variable [DecidableEq κ]

def setLayer (h : Home κ) (id : κ) (dir : Option LayerDir) : Home κ := { h with layers := Function.update h.layers id dir }

def setLink (h : Home κ) (name : Text) (target : Option κ) : Home κ := { h with links := Function.update h.links name target }

/-- `Create` with a parent, from its link file on. -/
def createLower (h : Home κ) (id : κ) (dir : LayerDir) (parent : κ) (fault : Option Step) : Home κ × Option Error :=
  if fault = some .mkdirWork then (h, some (.failed .mkdirWork))
  else if fault = some .mkdirMerged then (h, some (.failed .mkdirMerged))
  else
    match h.getLower parent fault with
    | .error e => (h, some e)
    | .ok lower =>
      if fault = some .writeLower then (h, some (.failed .writeLower))
      else (h.setLayer id (some { dir with lower := some lower }), none)

/-- `Create` from where the directory is removed on failure. `lid` is the ID that is generated. -/
def createIn (h : Home κ) (id : κ) (dir : LayerDir) (parent : Option κ) (lid : Text) (fault : Option Step) :
    Home κ × Option Error :=
  if fault = some .mkdirDiff then (h, some (.failed .mkdirDiff))
  else
    let dir := { dir with diff := true }
    let h := h.setLayer id (some dir)
    if fault = some .symlink ∨ (h.links lid).isSome then (h, some (.failed .symlink))
    else
      let h := h.setLink lid (some id)
      if fault = some .writeLink then (h, some (.failed .writeLink))
      else
        let dir := { dir with link := some lid }
        let h := h.setLayer id (some dir)
        match parent with
        | none => (h, none)
        | some parent => h.createLower id dir parent fault

/-- `os.RemoveAll` of the directory of a layer. -/
def removeAll (h : Home κ) (id : κ) (residue : Option Residue) : Home κ :=
  h.setLayer id (residue.bind fun r => (h.layers id).map r.left)

/-- The deferred function: a failure removes the directory. -/
def cleanUp (id : κ) (residue : Option Residue) (r : Home κ × Option Error) : Home κ × Option Error :=
  if r.2.isSome then (r.1.removeAll id residue, r.2) else r

/-- `Create`. A directory that is there already is no error. -/
def create (h : Home κ) (id : κ) (parent : Option κ) (storageOpt : Bool) (lid : Text) (fault : Option Step)
    (residue : Option Residue) : Home κ × Option Error :=
  if storageOpt then (h, some .storageOpt)
  else if fault = some .rootIDs then (h, some (.failed .rootIDs))
  else if fault = some .mkdirAll then (h, some (.failed .mkdirAll))
  else if fault = some .mkdir then (h, some (.failed .mkdir))
  else
    let dir := (h.layers id).getD { diff := false, link := none, lower := none }
    let h := h.setLayer id (some dir)
    if fault = some .chown then (h, some (.failed .chown))
    else cleanUp id residue (h.createIn id dir parent lid fault)

end Home

/-- The calls of `Remove` that may fail. -/
inductive RemoveStep
  | readLink
  | removeLink
  | removeDir (r : Residue)
  deriving DecidableEq

namespace Home

variable [DecidableEq κ]

/-- `Remove`, and whether it has succeeded: a link that cannot be removed is no error. -/
def remove (h : Home κ) (id : κ) (fault : Option RemoveStep) : Home κ × Bool :=
  let lid := if fault = some .readLink then none else (h.layers id).bind LayerDir.link
  let h :=
    match lid with
    | none => h
    | some lid => if fault = some RemoveStep.removeLink then h else h.setLink lid none
  match fault with
  | some (.removeDir r) => (h.removeAll id (some r), false)
  | _ => (h.removeAll id none, true)

/-! ## Links and layers -/

/-- The links correspond to the layers. -/
structure Corr (h : Home κ) : Prop where
  link : ∀ id dir, h.layers id = some dir → ∃ lid, dir.link = some lid ∧ h.links lid = some id
  layer : ∀ lid id, h.links lid = some id → ∃ dir, h.layers id = some dir ∧ dir.link = some lid

section

variable (h : Home κ) (id : κ) (dir : Option LayerDir) (name : Text) (target : Option κ)

@[simp] theorem setLayer_layers : (h.setLayer id dir).layers = Function.update h.layers id dir := rfl

@[simp] theorem setLayer_links : (h.setLayer id dir).links = h.links := rfl

omit [DecidableEq κ] in
@[simp] theorem setLink_layers : (h.setLink name target).layers = h.layers := rfl

omit [DecidableEq κ] in
@[simp] theorem setLink_links : (h.setLink name target).links = Function.update h.links name target := rfl

@[simp] theorem setLayer_setLayer (dir' : Option LayerDir) : (h.setLayer id dir).setLayer id dir' = h.setLayer id dir' := by
  rw [setLayer, setLayer_layers, Function.update_idem]
  rfl

@[simp] theorem setLayer_setLink : (h.setLink name target).setLayer id dir = (h.setLayer id dir).setLink name target := rfl

theorem cleanUp_error (residue : Option Residue) (dir : LayerDir) (e : Error) :
    cleanUp id residue (h.setLayer id (some dir), some e) = (h.setLayer id (residue.map (·.left dir)), some e) := by
  cases residue <;> simp [cleanUp, removeAll]

theorem cleanUp_linked_error (residue : Option Residue) (dir : LayerDir) (e : Error) :
    cleanUp id residue ((h.setLayer id (some dir)).setLink name target, some e) =
      ((h.setLayer id (residue.map (·.left dir))).setLink name target, some e) := by
  cases residue <;> simp [cleanUp, removeAll]

end

/-! ## Where a call fails -/

section

variable (h : Home κ) (id : κ) (parent : Option κ) (storageOpt : Bool) (lid : Text) (fault : Option Step)

omit [DecidableEq κ]

/-- `Create` fails before it has changed anything. -/
def Refused : Prop := storageOpt = true ∨ fault = some .rootIDs ∨ fault = some .mkdirAll ∨ fault = some .mkdir

/-- `Create`, with the directory of the layer, does not come to the link. -/
def Unlinked : Prop := fault = some .mkdirDiff ∨ fault = some .symlink ∨ (h.links lid).isSome

/-- The parent is too deep: with it, its lower layers are more than `maxDepth`. -/
def TooDeep (p : κ) : Prop := ∃ dir lower, h.layers p = some dir ∧ dir.lower = some lower ∧ maxDepth ≤ (lower.splitOn ':').length

/-- `Create` fails with the link and the file `link` in place. -/
def Unlayered : Prop := ∃ p, parent = some p ∧ (fault = some .mkdirWork ∨ fault = some .mkdirMerged ∨
  (fault = some .lstatParent ∨ p ≠ id ∧ h.layers p = none) ∨ fault = some .readLink ∨
  fault ≠ some .readLower ∧ h.TooDeep p ∨ fault = some .writeLower)

end

variable {h : Home κ} {id : κ} {parent : Option κ} {storageOpt : Bool} {lid : Text} {fault : Option Step}
  {residue : Option Residue}

/-- The directory that `Create` finds or makes. -/
def found (h : Home κ) (id : κ) : LayerDir := (h.layers id).getD { diff := false, link := none, lower := none }

/-- A layer with its link, before the file `lower` is written. -/
def linked (h : Home κ) (id : κ) (lid : Text) : Home κ :=
  (h.setLayer id (some { h.found id with diff := true, link := some lid })).setLink lid (some id)

/-- `Create` of which no call fails by itself. -/
theorem create_of_none (hlink : h.links lid = none) :
    h.create id parent storageOpt lid none none =
      if storageOpt then (h, some .storageOpt)
      else
        match parent with
        | none => (h.linked id lid, none)
        | some p =>
          match (h.linked id lid).getLower p none with
          | .error e => ((h.linked id lid).setLayer id none, some e)
          | .ok lower => ((h.linked id lid).setLayer id
              (some { h.found id with diff := true, link := some lid, lower := some lower }), none) := by
  have hcreate : h.create id parent storageOpt lid none none =
      if storageOpt then (h, some .storageOpt)
      else cleanUp id none (match parent with
        | none => (h.linked id lid, none)
        | some p => (h.linked id lid).createLower id { h.found id with diff := true, link := some lid } p none) := by
    simp [create, createIn, hlink, linked, found]
  rw [hcreate]
  congr 1
  cases parent with
  | none => rfl
  | some p =>
    simp only [createLower, reduceCtorEq, if_false]
    cases (h.linked id lid).getLower p none <;> rfl

omit [DecidableEq κ] in
/-- `getLower` looks at the parent only. -/
theorem getLower_congr {h h' : Home κ} {parent : κ} (hp : h'.layers parent = h.layers parent) (fault : Option Step) :
    h'.getLower parent fault = h.getLower parent fault := by
  rw [getLower, getLower, hp]

omit [DecidableEq κ] in
/-- `getLower` of a layer with a link. -/
theorem getLower_error_iff {p : κ} {dir : LayerDir} {link : Text} (hdir : h.layers p = some dir) (hlink : dir.link = some link) :
    (∃ e, h.getLower p fault = .error e) ↔ fault = some .lstatParent ∨ fault = some .readLink ∨
      fault ≠ some .readLower ∧ h.TooDeep p := by
  have hdeep : h.TooDeep p ↔ maxDepth < 1 + ((dir.lower.map (·.splitOn ':')).getD []).length := by
    unfold TooDeep
    rw [hdir]
    cases hlower : dir.lower with
    | none => simp [hlower, maxDepth]
    | some lower => simp [hlower, Nat.lt_one_add_iff]
  simp only [getLower, hdir, hlink, hdeep]
  split_ifs with hl hr hlow hlong hlong
  · simp [hl]
  · simp [hr]
  · simp [maxDepth] at hlong
  · simp [hlow]
  · simpa [hl, hr, hlow, Nat.add_comm] using hlong
  · simpa [hl, hr, hlow, Nat.add_comm] using hlong

/-- `getLower` in `Create`, where the layer may be its own parent. -/
theorem getLower_linked_error_iff (hc : h.Corr) (id : κ) (lid : Text) (p : κ) (fault : Option Step) :
    (∃ e, (h.linked id lid).getLower p fault = .error e) ↔ (fault = some .lstatParent ∨ p ≠ id ∧ h.layers p = none) ∨
      fault = some .readLink ∨ fault ≠ some .readLower ∧ h.TooDeep p := by
  by_cases hp : p = id
  · have hdeep : (h.linked id lid).TooDeep p ↔ h.TooDeep p := by
      subst hp
      cases hdir : h.layers p <;> simp [TooDeep, linked, found, hdir]
    have hlinked : (h.linked id lid).layers p = some { h.found id with diff := true, link := some lid } := by
      simp [linked, hp]
    rw [getLower_error_iff hlinked rfl, hdeep]
    simp [hp]
  · have hlayers : (h.linked id lid).layers p = h.layers p := by simp [linked, hp]
    cases hdir : h.layers p with
    | none => simp [getLower, hlayers, hdir, hp]
    | some dir =>
      obtain ⟨link, hlink, -⟩ := hc.link p dir hdir
      rw [getLower_error_iff (hlayers.trans hdir) hlink, TooDeep, hlayers, ← TooDeep]
      simp

/-- `Create` behind the link. -/
theorem createLower_cases (hc : h.Corr) (id : κ) {p : κ} (hparent : parent = some p) (lid : Text) (dir : LayerDir)
    (fault : Option Step) :
    (∃ e, (h.linked id lid).createLower id dir p fault = (h.linked id lid, some e) ∧ h.Unlayered id parent fault) ∨
    ∃ lower, (h.linked id lid).createLower id dir p fault =
      ((h.linked id lid).setLayer id (some { dir with lower }), none) ∧ ¬ h.Unlayered id parent fault := by
  have hlower := getLower_linked_error_iff hc id lid p fault
  unfold Unlayered
  simp only [hparent, Option.some_inj, exists_eq_left']
  rw [createLower]
  by_cases hwork : fault = some .mkdirWork
  · exact .inl ⟨_, if_pos hwork, .inl hwork⟩
  rw [if_neg hwork]
  by_cases hmerged : fault = some .mkdirMerged
  · exact .inl ⟨_, if_pos hmerged, .inr (.inl hmerged)⟩
  rw [if_neg hmerged]
  cases hget : (h.linked id lid).getLower p fault with
  | error e =>
    refine .inl ⟨e, rfl, .inr (.inr ?_)⟩
    rcases hlower.mp ⟨e, hget⟩ with h | h | h
    · exact .inl h
    · exact .inr (.inl h)
    · exact .inr (.inr (.inl h))
  | ok lower =>
    have hnot := mt hlower.mpr (by simp [hget])
    dsimp only
    by_cases hwrite : fault = some .writeLower
    · exact .inl ⟨_, if_pos hwrite, .inr (.inr (.inr (.inr (.inr hwrite))))⟩
    · rw [if_neg hwrite]
      refine .inr ⟨some lower, rfl, ?_⟩
      simp only [not_or] at hnot ⊢
      exact ⟨hwork, hmerged, hnot.1, hnot.2.1, hnot.2.2, hwrite⟩

/-! ## Which calls keep the links -/

/-- A layer is there as before, or with other contents. -/
theorem corr_setLayer_some (hc : h.Corr) {dir : LayerDir} :
    (h.setLayer id (some dir)).Corr ↔ ∃ dir₀, h.layers id = some dir₀ ∧ dir.link = dir₀.link := by
  constructor
  · intro hc'
    obtain ⟨lid, hlid, hlink⟩ := hc'.link id dir (by simp)
    obtain ⟨dir₀, hdir₀, hlid₀⟩ := hc.layer lid id hlink
    exact ⟨dir₀, hdir₀, hlid.trans hlid₀.symm⟩
  · rintro ⟨dir₀, hdir₀, hsame⟩
    refine ⟨fun id' dir' hdir' => ?_, fun lid id' hlink => ?_⟩
    · rw [setLayer_layers] at hdir'
      by_cases hid : id' = id
      · rw [hid, Function.update_self, Option.some_inj] at hdir'
        rw [← hdir', hsame, hid]
        exact hc.link id dir₀ hdir₀
      · rw [Function.update_of_ne hid] at hdir'
        exact hc.link id' dir' hdir'
    · obtain ⟨dir', hdir', hlid⟩ := hc.layer lid id' hlink
      by_cases hid : id' = id
      · rw [hid, hdir₀, Option.some_inj] at hdir'
        exact ⟨dir, by simp [hid], by rw [hsame, hdir', hlid]⟩
      · exact ⟨dir', by simpa [hid] using hdir', hlid⟩

theorem corr_setLayer_none (hc : h.Corr) : (h.setLayer id none).Corr ↔ h.layers id = none := by
  constructor
  · intro hc'
    by_contra hsome
    obtain ⟨dir, hdir⟩ := Option.ne_none_iff_exists'.mp hsome
    obtain ⟨lid, -, hlink⟩ := hc.link id dir hdir
    obtain ⟨dir', hdir', -⟩ := hc'.layer lid id hlink
    simp at hdir'
  · intro hnone
    have hsame : h.setLayer id none = h := by rw [setLayer, ← hnone, Function.update_eq_self]
    rwa [hsame]

theorem not_corr_dangling : ¬ ((h.setLayer id none).setLink lid (some id)).Corr := by
  intro hc
  obtain ⟨dir, hdir, -⟩ := hc.layer lid id (by simp)
  simp at hdir

/-- A layer that has been made, with its link. -/
theorem corr_made (hc : h.Corr) (hlink : h.links lid = none) {dir : LayerDir} :
    ((h.setLayer id (some dir)).setLink lid (some id)).Corr ↔ h.layers id = none ∧ dir.link = some lid := by
  constructor
  · intro hc'
    have hdir : dir.link = some lid := by
      obtain ⟨dir', hdir', hlid⟩ := hc'.layer lid id (by simp)
      rw [setLink_layers, setLayer_layers, Function.update_self, Option.some_inj] at hdir'
      rw [hdir', hlid]
    refine ⟨?_, hdir⟩
    by_contra hsome
    obtain ⟨dir', hdir'⟩ := Option.ne_none_iff_exists'.mp hsome
    obtain ⟨old, -, hold⟩ := hc.link id dir' hdir'
    have hne : old ≠ lid := fun he => by
      rw [he, hlink] at hold
      cases hold
    -- The old link is still there.
    obtain ⟨dir'', hdir'', hold'⟩ := hc'.layer old id (by simpa [hne] using hold)
    rw [setLink_layers, setLayer_layers, Function.update_self, Option.some_inj] at hdir''
    rw [← hdir'', hdir, Option.some_inj] at hold'
    exact hne hold'.symm
  · rintro ⟨hnone, hdir⟩
    refine ⟨fun id' dir' hdir' => ?_, fun lid' id' hlid' => ?_⟩
    · rw [setLink_layers, setLayer_layers] at hdir'
      by_cases hid : id' = id
      · rw [hid, Function.update_self, Option.some_inj] at hdir'
        exact ⟨lid, hdir' ▸ hdir, by simp [hid]⟩
      · rw [Function.update_of_ne hid] at hdir'
        obtain ⟨lid', hlid', hlink'⟩ := hc.link id' dir' hdir'
        have hne : lid' ≠ lid := fun he => by
          rw [he, hlink] at hlink'
          cases hlink'
        exact ⟨lid', hlid', by simpa [hne] using hlink'⟩
    · rw [setLink_links, setLayer_links] at hlid'
      by_cases hl : lid' = lid
      · rw [hl, Function.update_self, Option.some_inj] at hlid'
        exact ⟨dir, by simp [hlid'], hl ▸ hdir⟩
      · rw [Function.update_of_ne hl] at hlid'
        obtain ⟨dir', hdir', hlink'⟩ := hc.layer lid' id' hlid'
        have hid : id' ≠ id := fun he => by
          rw [he, hnone] at hdir'
          cases hdir'
        exact ⟨dir', by simpa [hid] using hdir', hlink'⟩

/-- The calls of `Create` that keep the links. -/
inductive KeepsLinks (h : Home κ) (id : κ) (parent : Option κ) (storageOpt : Bool) (lid : Text) (fault : Option Step)
    (residue : Option Residue) : Prop
  | refused (hr : Refused storageOpt fault)
  /-- The directory of a layer that exists does not get its owner. -/
  | chown (hf : fault = some .chown) (hold : h.layers id ≠ none)
  /-- There is no link yet: the directory goes if it is new, and stays with its link if it is not. -/
  | unlinked (hf : fault ≠ some .chown) (hu : h.Unlinked lid fault)
    (hleft : if residue.isSome then h.layers id ≠ none ∧ residue.all (·.link) else h.layers id = none)
  /-- A new layer is made, or could not be removed any more. -/
  | made (hf : fault ≠ some .chown) (hu : ¬ h.Unlinked lid fault) (hw : fault ≠ some .writeLink) (hnew : h.layers id = none)
    (hleft : h.Unlayered id parent fault → residue.isSome ∧ residue.all (·.link))

theorem corr_unlinked (hc : h.Corr) {dir : LayerDir} (hdir : dir.link = (h.found id).link) :
    (h.setLayer id (residue.map (·.left dir))).Corr ↔
      if residue.isSome then h.layers id ≠ none ∧ residue.all (·.link) else h.layers id = none := by
  cases residue with
  | none => exact corr_setLayer_none hc
  | some r =>
    refine (corr_setLayer_some hc).trans ?_
    cases hlayer : h.layers id with
    | none => simp
    | some dir₀ =>
      obtain ⟨lid, hlid, -⟩ := hc.link id dir₀ hlayer
      simp [Residue.left, hdir, found, hlayer, hlid]

theorem corr_linked (hc : h.Corr) (hlink : h.links lid = none) {dir : LayerDir} :
    ((h.setLayer id (residue.map (·.left dir))).setLink lid (some id)).Corr ↔
      h.layers id = none ∧ dir.link = some lid ∧ residue.isSome ∧ residue.all (·.link) := by
  cases residue with
  | none => simpa using not_corr_dangling
  | some r =>
    refine (corr_made hc hlink).trans (and_congr_right fun _ => ?_)
    cases hr : r.link <;> simp [Residue.left, hr]

theorem corr_createIn_iff (hc : h.Corr) (hr : ¬ Refused storageOpt fault) (hf : fault ≠ some .chown) :
    (cleanUp id residue ((h.setLayer id (some (h.found id))).createIn id (h.found id) parent lid fault)).1.Corr ↔
      h.KeepsLinks id parent storageOpt lid fault residue := by
  by_cases hu : h.Unlinked lid fault
  · have hkeeps : h.KeepsLinks id parent storageOpt lid fault residue ↔
        if residue.isSome then h.layers id ≠ none ∧ residue.all (·.link) else h.layers id = none := by
      refine ⟨fun hk => ?_, .unlinked hf hu⟩
      cases hk with
      | refused hr' => exact absurd hr' hr
      | chown hf' => exact absurd hf' hf
      | unlinked _ _ hleft => exact hleft
      | made _ hu' => exact absurd hu hu'
    rw [hkeeps, createIn]
    by_cases hdiff : fault = some .mkdirDiff
    · rw [if_pos hdiff, cleanUp_error]
      exact corr_unlinked hc rfl
    · have hsym : fault = some .symlink ∨ (h.links lid).isSome := hu.resolve_left hdiff
      rw [if_neg hdiff]
      dsimp only
      rw [setLayer_setLayer, setLayer_links, if_pos hsym, cleanUp_error]
      exact corr_unlinked hc rfl
  · have hkeeps : h.KeepsLinks id parent storageOpt lid fault residue ↔ fault ≠ some .writeLink ∧ h.layers id = none ∧
        (h.Unlayered id parent fault → residue.isSome ∧ residue.all (·.link)) := by
      refine ⟨fun hk => ?_, fun hk => .made hf hu hk.1 hk.2.1 hk.2.2⟩
      cases hk with
      | refused hr' => exact absurd hr' hr
      | chown hf' => exact absurd hf' hf
      | unlinked _ hu' => exact absurd hu' hu
      | made _ _ hw hnew hleft => exact ⟨hw, hnew, hleft⟩
    obtain ⟨hdiff, hsym⟩ := not_or.mp hu
    have hlink : h.links lid = none := by simpa using (not_or.mp hsym).2
    rw [hkeeps, createIn, if_neg hdiff]
    dsimp only
    rw [setLayer_setLayer, setLayer_links, if_neg hsym]
    by_cases hwrite : fault = some .writeLink
    · -- The file `link` is as it was, and not the one of the new link.
      rw [if_pos hwrite, cleanUp_linked_error, corr_linked hc hlink]
      refine ⟨fun hk => ?_, fun hk => absurd hwrite hk.1⟩
      have hnone := hk.2.1
      rw [found, hk.1] at hnone
      cases hnone
    rw [if_neg hwrite, setLayer_setLink, setLayer_setLayer]
    cases hparent : parent with
    | none =>
      have hnot : ¬ h.Unlayered id none fault := fun ⟨p, hp, _⟩ => nomatch hp
      simp [cleanUp, corr_made hc hlink, hwrite, hnot]
    | some p =>
      dsimp only
      rw [← linked]
      rcases createLower_cases hc id hparent lid { h.found id with diff := true, link := some lid } fault with
        ⟨e, heq, hun⟩ | ⟨lower, heq, hun⟩
      · rw [heq, linked, cleanUp_linked_error, corr_linked hc hlink]
        rw [hparent] at hun
        simp [hwrite, hun]
      · rw [heq, linked, setLayer_setLink, setLayer_setLayer]
        rw [hparent] at hun
        simp [cleanUp, corr_made hc hlink, hwrite, hun]

theorem corr_create_iff (hc : h.Corr) (id : κ) (parent : Option κ) (storageOpt : Bool) (lid : Text) (fault : Option Step)
    (residue : Option Residue) : (h.create id parent storageOpt lid fault residue).1.Corr ↔
      h.KeepsLinks id parent storageOpt lid fault residue := by
  rw [create]
  split_ifs with hopt hids hall hmkdir hchown
  · exact iff_of_true hc (.refused (.inl hopt))
  · exact iff_of_true hc (.refused (.inr (.inl hids)))
  · exact iff_of_true hc (.refused (.inr (.inr (.inl hall))))
  · exact iff_of_true hc (.refused (.inr (.inr (.inr hmkdir))))
  · have hr : ¬ Refused storageOpt fault := by simp [Refused, hopt, hids, hall, hmkdir]
    refine (corr_setLayer_some hc).trans ⟨fun ⟨dir₀, hdir₀, _⟩ => .chown hchown (by simp [hdir₀]), fun hk => ?_⟩
    cases hk with
    | refused hr' => exact absurd hr' hr
    | chown _ hold =>
      obtain ⟨dir₀, hdir₀⟩ := Option.ne_none_iff_exists'.mp hold
      exact ⟨dir₀, hdir₀, by simp [hdir₀]⟩
    | unlinked hf => exact absurd hchown hf
    | made hf => exact absurd hchown hf
  · exact corr_createIn_iff hc (by simp [Refused, hopt, hids, hall, hmkdir]) hchown

/-- A layer and its link, removed together. -/
theorem corr_removed (hc : h.Corr) {dir : LayerDir} (hdir : h.layers id = some dir) (hlid : dir.link = some lid) :
    ((h.setLink lid none).setLayer id none).Corr := by
  obtain ⟨lid', hlid', hlink⟩ := hc.link id dir hdir
  obtain rfl : lid = lid' := Option.some_inj.mp (hlid.symm.trans hlid')
  refine ⟨fun id' dir' hdir' => ?_, fun other id' hother => ?_⟩
  · rw [setLayer_layers, setLink_layers] at hdir'
    have hid : id' ≠ id := fun he => by simp [he] at hdir'
    rw [Function.update_of_ne hid] at hdir'
    obtain ⟨other, hother, hlink'⟩ := hc.link id' dir' hdir'
    have hne : other ≠ lid := fun he => by
      rw [he, hlink, Option.some_inj] at hlink'
      exact hid hlink'.symm
    exact ⟨other, hother, by simpa [hne] using hlink'⟩
  · rw [setLayer_links, setLink_links] at hother
    have hne : other ≠ lid := fun he => by simp [he] at hother
    rw [Function.update_of_ne hne] at hother
    obtain ⟨dir', hdir', hlink'⟩ := hc.layer other id' hother
    have hid : id' ≠ id := fun he => by
      rw [he, hdir, Option.some_inj] at hdir'
      rw [← hdir', hlid, Option.some_inj] at hlink'
      exact hne hlink'.symm
    exact ⟨dir', by simpa [hid] using hdir', hlink'⟩

/-- A layer without its link. -/
theorem not_corr_unlinked {dir : LayerDir} (hlid : ∀ l, dir.link = some l → l = lid) :
    ¬ ((h.setLink lid none).setLayer id (some dir)).Corr := by
  intro hc'
  obtain ⟨l, hl, hlink⟩ := hc'.link id dir (by simp)
  rw [hlid l hl] at hlink
  simp at hlink

theorem corr_remove_iff (hc : h.Corr) (id : κ) (fault : Option RemoveStep) :
    (h.remove id fault).1.Corr ↔ h.layers id = none ∨ fault = none := by
  cases hdir : h.layers id with
  | none =>
    have hsame : h.setLayer id none = h := by rw [setLayer, ← hdir, Function.update_eq_self]
    rcases fault with - | - | - | r <;> simp [remove, removeAll, hdir, hsame, hc]
  | some dir =>
    obtain ⟨lid, hlid, -⟩ := hc.link id dir hdir
    have hnone : ¬ (h.setLayer id none).Corr := by simp [corr_setLayer_none hc, hdir]
    rcases fault with - | - | - | r
    · simpa [remove, removeAll, hdir, hlid] using corr_removed hc hdir hlid
    · simpa [remove, removeAll] using hnone
    · simpa [remove, removeAll, hdir, hlid] using hnone
    · have hleft : ∀ l, (r.left dir).link = some l → l = lid := by
        intro l hl
        simp only [Residue.left, hlid, Option.ite_none_right_eq_some, Option.some_inj] at hl
        exact hl.2.symm
      simpa [remove, removeAll, hdir, hlid] using not_corr_unlinked hleft

/-- A home with the layer 0, whose link is `A`. -/
def homeOne : Home Nat where
  layers id := if id = 0 then some { diff := true, link := some ['A'], lower := none } else none
  links name := if name = ['A'] then some 0 else none

theorem corr_homeOne : homeOne.Corr := by
  refine ⟨fun id dir hdir => ?_, fun lid id hlid => ?_⟩
  · simp only [homeOne, Option.ite_none_right_eq_some, Option.some_inj] at hdir
    exact ⟨['A'], by rw [← hdir.2], by simp [homeOne, hdir.1]⟩
  · simp only [homeOne, Option.ite_none_right_eq_some, Option.some_inj] at hlid
    exact ⟨{ diff := true, link := some ['A'], lower := none }, by simp [homeOne, ← hlid.2], by simp [hlid.1]⟩

end Home

end Moby.Graphdriver.Layers
