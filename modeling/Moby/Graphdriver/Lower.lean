import Mathlib.Data.List.Forall2
import Moby.Framework.Machine
import Moby.Graphdriver.Layers

/-!
# The lower files of overlay2 (daemon/graphdriver/overlay2/overlay.go)

`Create` makes the file `lower` of a layer from the link and the file `lower` of its parent, as they are
then. In runs in which `Create` gets new IDs only, the files keep to the chain of the ancestors as it is
now (`lower_ok`). `Create` of an ID that exists is no error, and leaves the children of the layer with the
files they have (`lower_stale`).
-/

namespace Moby.Graphdriver.Layers

open Framework

variable {κ : Type}

/-- The alphabet of `base32.StdEncoding`. -/
def base32 : Text := "ABCDEFGHIJKLMNOPQRSTUVWXYZ234567".toList

def idLength : ℕ := 26

/-- What `generateID` returns. -/
def generated (lid : Text) : Bool := lid.length == idLength && lid.all base32.contains

namespace Home

/-- `os.Readlink` of an entry of a lower file. -/
def readlink (h : Home κ) : Text → Option κ
  | 'l' :: '/' :: name => h.links name
  | _ => none

/-- `getLowerDirs`: the layers whose `diff` directories it returns. -/
def getLowerDirs (h : Home κ) (id : κ) : Option (List κ) :=
  match (h.layers id).bind LayerDir.lower with
  | none => some []
  | some lowers => (lowers.splitOn ':').mapM h.readlink

end Home

/-! ## Runs -/

/-- The home, and the parents that the layers have been made with. -/
structure State (κ : Type) where
  home : Home κ
  parents : κ → Option κ

inductive Call (κ : Type)
  | create (id : κ) (parent : Option κ) (storageOpt : Bool) (lid : Text)
  | remove (id : κ)

/-- The empty home. -/
def init : State κ where
  home := { layers := fun _ => none, links := fun _ => none }
  parents _ := none

variable [DecidableEq κ]

/-- A call of which no step fails. -/
def exec (s : State κ) : Call κ → Option (State κ)
  | .create id parent storageOpt lid =>
    let r := s.home.create id parent storageOpt lid none none
    some { home := r.1, parents := if r.2.isSome then s.parents else Function.update s.parents id parent }
  | .remove id => some { home := (s.home.remove id none).1, parents := Function.update s.parents id none }

/-- The link gets an ID that no link has, and a layer that is removed is not the parent of another. -/
def Fits (s : State κ) : Call κ → Prop
  | .create _ _ _ lid => generated lid = true ∧ s.home.links lid = none
  | .remove id => ∀ child, s.home.layers child ≠ none → s.parents child ≠ some id

/-- The ID of a layer that is made is new, and it is not its own parent. -/
def Fresh (s : State κ) : Call κ → Prop
  | .create id parent _ _ => s.home.layers id = none ∧ parent ≠ some id
  | .remove _ => True

/-- The ancestors of a layer, from the nearest to the farthest. -/
inductive Ancestors (parents : κ → Option κ) : κ → List κ → Prop
  | nil {id : κ} (hparent : parents id = none) : Ancestors parents id []
  | cons {id p : κ} {as : List κ} (hparent : parents id = some p) (has : Ancestors parents p as) :
    Ancestors parents id (p :: as)

omit [DecidableEq κ] in
theorem Ancestors.unique {parents : κ → Option κ} {id : κ} {as bs : List κ} (ha : Ancestors parents id as)
    (hb : Ancestors parents id bs) : as = bs := by
  induction ha generalizing bs with
  | nil hparent =>
    cases hb with
    | nil _ => rfl
    | cons hparent' _ => simp [hparent] at hparent'
  | cons hparent _ ih =>
    cases hb with
    | nil hparent' => simp [hparent] at hparent'
    | cons hparent' hb =>
      rw [hparent, Option.some_inj] at hparent'
      rw [hparent', ih (hparent' ▸ hb)]

/-- The text of a lower file that lists these links. -/
def lowerOf (links : List Text) : Option Text :=
  if links = [] then none else some ([':'].intercalate (links.map entry))

/-- The lower file of a layer lists the links of its ancestors, and they resolve to them. -/
structure Lists (s : State κ) (id : κ) (dir : LayerDir) (as : List κ) : Prop where
  ancestors : Ancestors s.parents id as
  depth : as.length ≤ maxDepth
  lower : ∃ links, List.Forall₂ (fun a link => (s.home.layers a).bind LayerDir.link = some link) as links ∧
    dir.lower = lowerOf links
  dirs : s.home.getLowerDirs id = some as

/-! ## Chains -/

/-- The name of a layer's link. -/
structure Names (h : Home κ) (id : κ) (dir : LayerDir) (lid : Text) : Prop where
  layer : h.layers id = some dir
  file : dir.link = some lid
  generated : generated lid = true
  link : h.links lid = some id

/-- A layer with its ancestors and their links. -/
inductive Chain (s : State κ) : κ → List κ → List Text → Prop
  | base {id : κ} {dir : LayerDir} {lid : Text} (hnames : Names s.home id dir lid) (hparent : s.parents id = none)
    (hlower : dir.lower = none) : Chain s id [] []
  | step {id p : κ} {dir dirp : LayerDir} {lid lidp : Text} {as : List κ} {ls : List Text}
    (hnames : Names s.home id dir lid) (hparent : s.parents id = some p) (hp : Names s.home p dirp lidp)
    (hlower : dir.lower = lowerOf (lidp :: ls)) (hchain : Chain s p as ls) : Chain s id (p :: as) (lidp :: ls)

variable {s s' : State κ} {id : κ} {as : List κ} {ls : List Text} {dir : LayerDir} {lid : Text}

omit [DecidableEq κ] in
theorem colon_notMem_entry (hlid : generated lid = true) : ':' ∉ entry lid := by
  intro hmem
  rw [entry, List.mem_cons, List.mem_cons] at hmem
  rcases hmem with hmem | hmem | hmem
  · cases hmem
  · cases hmem
  · rw [generated, Bool.and_eq_true] at hlid
    have := List.all_eq_true.mp hlid.2 ':' hmem
    revert this
    decide +kernel

namespace Chain

omit [DecidableEq κ]

theorem names (hc : Chain s id as ls) : ∃ dir lid, Names s.home id dir lid := by
  cases hc with
  | base hnames _ _ => exact ⟨_, _, hnames⟩
  | step hnames _ _ _ _ => exact ⟨_, _, hnames⟩

theorem ancestors (hc : Chain s id as ls) : Ancestors s.parents id as := by
  induction hc with
  | base _ hparent _ => exact .nil hparent
  | step _ hparent _ _ _ ih => exact .cons hparent ih

theorem forall_names (hc : Chain s id as ls) : List.Forall₂ (fun a l => ∃ dir, Names s.home a dir l) as ls := by
  induction hc with
  | base _ _ _ => exact .nil
  | step _ _ hp _ _ ih => exact .cons ⟨_, hp⟩ ih

theorem lower (hc : Chain s id as ls) (hdir : s.home.layers id = some dir) : dir.lower = lowerOf ls := by
  cases hc with
  | base hnames _ hlower =>
    obtain rfl := Option.some_inj.mp (hdir.symm.trans hnames.layer)
    exact hlower
  | step hnames _ _ hlower _ =>
    obtain rfl := Option.some_inj.mp (hdir.symm.trans hnames.layer)
    exact hlower

theorem length_eq (hc : Chain s id as ls) : as.length = ls.length := hc.forall_names.length_eq

theorem generated_of_mem (hc : Chain s id as ls) {l : Text} (hl : l ∈ ls) : generated l = true := by
  induction hc with
  | base _ _ _ => cases hl
  | step _ _ hp _ _ ih =>
    rcases List.mem_cons.mp hl with rfl | hl
    · exact hp.generated
    · exact ih hl

/-- What `getLower` splits a lower file into. -/
theorem split_lower (hc : Chain s id as ls) : ((lowerOf ls).map (·.splitOn ':')).getD [] = ls.map entry := by
  rw [lowerOf]
  split_ifs with hnil
  · rw [hnil]
    rfl
  · refine List.splitOn_intercalate ':' (fun l hl => ?_) (by simpa using hnil)
    obtain ⟨link, hlink, rfl⟩ := List.mem_map.mp hl
    exact colon_notMem_entry (hc.generated_of_mem hlink)

theorem getLower (hc : Chain s id as ls) (hnames : Names s.home id dir lid) : s.home.getLower id none =
    if maxDepth ≤ as.length then .error .maxDepthExceeded else .ok ([':'].intercalate ((lid :: ls).map entry)) := by
  have hsplit : (dir.lower.map (·.splitOn ':')).getD [] = ls.map entry := by
    rw [hc.lower hnames.layer, hc.split_lower]
  rw [Home.getLower, hnames.layer]
  dsimp only
  rw [if_neg (by simp), hnames.file]
  dsimp only
  rw [if_neg (by simp), if_neg (show ¬ none = some Step.readLower by simp), hsplit, List.length_cons, List.length_map,
    hc.length_eq, List.map_cons]
  simp only [Nat.lt_succ_iff]

theorem mapM_readlink {h : Home κ} (hn : List.Forall₂ (fun a l => ∃ dir, Names h a dir l) as ls) :
    (ls.map entry).mapM h.readlink = some as := by
  induction hn with
  | nil => rfl
  | @cons a l _ _ hal _ ih =>
    obtain ⟨dir, hnames⟩ := hal
    have hread : h.readlink (entry l) = some a := hnames.link
    rw [List.map_cons, List.mapM_cons, hread, ih]
    rfl

theorem getLowerDirs (hc : Chain s id as ls) : s.home.getLowerDirs id = some as := by
  obtain ⟨dir, lid, hnames⟩ := hc.names
  have hsplit := hc.split_lower
  have hmap := mapM_readlink hc.forall_names
  rw [Home.getLowerDirs, hnames.layer, Option.bind_some, hc.lower hnames.layer]
  cases hlower : lowerOf ls with
  | none =>
    rw [hlower] at hsplit
    rw [← hsplit] at hmap
    exact hmap
  | some lowers =>
    rw [hlower] at hsplit
    rw [← hsplit] at hmap
    exact hmap

/-- A change to a layer that is no ancestor of others. -/
theorem frame {gone : κ} (hlayers : ∀ x ≠ gone, s'.home.layers x = s.home.layers x)
    (hparents : ∀ x ≠ gone, s'.parents x = s.parents x)
    (hlinks : ∀ x lid, x ≠ gone → s.home.links lid = some x → s'.home.links lid = some x)
    (hchild : ∀ x, s.home.layers x ≠ none → s.parents x ≠ some gone) (hc : Chain s id as ls) (hid : id ≠ gone) :
    Chain s' id as ls := by
  have hnames : ∀ {x dir lid}, x ≠ gone → Names s.home x dir lid → Names s'.home x dir lid := fun hx hn =>
    ⟨(hlayers _ hx).trans hn.layer, hn.file, hn.generated, hlinks _ _ hx hn.link⟩
  induction hc with
  | base hn hparent hlower => exact .base (hnames hid hn) ((hparents _ hid).trans hparent) hlower
  | @step x p _ _ _ _ _ _ hn hparent hp hlower _ ih =>
    have hpg : p ≠ gone := fun he => hchild x (by simp [hn.layer]) (he ▸ hparent)
    exact .step (hnames hid hn) ((hparents _ hid).trans hparent) (hnames hpg hp) hlower (ih hpg)

end Chain

/-! ## The invariant -/

/-- Every layer has its chain. -/
def Chained (s : State κ) : Prop :=
  ∀ id, s.home.layers id ≠ none → ∃ as ls, Chain s id as ls ∧ as.length ≤ maxDepth

omit [DecidableEq κ] in
/-- A layer's parent is a layer. -/
theorem Chained.parent (hs : Chained s) (hid : s.home.layers id = none) {x : κ} (hx : s.home.layers x ≠ none) :
    s.parents x ≠ some id := by
  intro hparent
  obtain ⟨as, ls, hc, -⟩ := hs x hx
  cases hc with
  | base _ hnone _ => simp [hparent] at hnone
  | step _ hparent' hp _ _ =>
    rw [hparent, Option.some_inj] at hparent'
    have hlayer := hp.layer
    simp [← hparent', hid] at hlayer

/-- A change at one layer, which no other layer has as its parent. -/
structure Changed (s s' : State κ) (id : κ) : Prop where
  layers : ∀ x ≠ id, s'.home.layers x = s.home.layers x
  parents : ∀ x ≠ id, s'.parents x = s.parents x
  links : ∀ x lid, x ≠ id → s.home.links lid = some x → s'.home.links lid = some x
  child : ∀ x, s.home.layers x ≠ none → s.parents x ≠ some id

omit [DecidableEq κ] in
theorem Changed.chain (hch : Changed s s' id) {x : κ} (hx : x ≠ id) (hc : Chain s x as ls) : Chain s' x as ls :=
  hc.frame hch.layers hch.parents hch.links hch.child hx

theorem Changed.chained (hch : Changed s s' id) (hs : Chained s)
    (hnew : s'.home.layers id ≠ none → ∃ as ls, Chain s' id as ls ∧ as.length ≤ maxDepth) : Chained s' := by
  intro x hx
  by_cases hxid : x = id
  · rw [hxid] at hx ⊢
    exact hnew hx
  · rw [hch.layers x hxid] at hx
    obtain ⟨as, ls, hc, hlen⟩ := hs x hx
    exact ⟨as, ls, hch.chain hxid hc, hlen⟩

/-- `Create` of a new layer, with the link made. -/
theorem changed_link (hs : Chained s) (hid : s.home.layers id = none) (hlink : s.home.links lid = none)
    (d : Option LayerDir) {parents : κ → Option κ} (hparents : ∀ x ≠ id, parents x = s.parents x) :
    Changed s { home := (s.home.setLayer id d).setLink lid (some id), parents } id where
  layers x hx := Function.update_of_ne hx _ _
  parents := hparents
  links x l hx hl := by
    have hne : l ≠ lid := fun he => by
      rw [he, hlink] at hl
      cases hl
    simpa [hne] using hl
  child x hx := hs.parent hid hx

theorem names_link (h : Home κ) (id : κ) (hfile : dir.link = some lid) (hlid : generated lid = true) :
    Names ((h.setLayer id (some dir)).setLink lid (some id)) id dir lid where
  layer := Function.update_self ..
  file := hfile
  generated := hlid
  link := Function.update_self ..

omit [DecidableEq κ] in
/-- A lower file that `getLower` has made. -/
theorem Chained.getLower_ok (hs : Chained s) {p : κ} {lower : Text} (hok : s.home.getLower p none = .ok lower) :
    ∃ as ls dir lid, Chain s p as ls ∧ Names s.home p dir lid ∧ as.length < maxDepth ∧ some lower = lowerOf (lid :: ls) := by
  have hp : s.home.layers p ≠ none := fun hnone => by
    rw [Home.getLower, hnone] at hok
    cases hok
  obtain ⟨as, ls, hc, -⟩ := hs p hp
  obtain ⟨dir, lid, hnames⟩ := hc.names
  rw [hc.getLower hnames] at hok
  split_ifs at hok with hlen
  rw [Except.ok.injEq] at hok
  exact ⟨as, ls, dir, lid, hc, hnames, not_le.mp hlen, by rw [← hok]; rfl⟩

theorem chained_create (hs : Chained s) {parent : Option κ} {storageOpt : Bool}
    (hfits : Fits s (.create id parent storageOpt lid)) (hfresh : Fresh s (.create id parent storageOpt lid))
    (he : exec s (.create id parent storageOpt lid) = some s') : Chained s' := by
  obtain ⟨hlid, hlink⟩ := hfits
  obtain ⟨hid, hparent⟩ := hfresh
  have hfound : s.home.found id = { diff := false, link := none, lower := none } := by rw [Home.found, hid, Option.getD_none]
  have hcreate := @Home.create_of_none κ _ s.home id parent storageOpt lid hlink
  rw [exec, Option.some_inj] at he
  subst he
  generalize s.home.create id parent storageOpt lid none none = r at hcreate
  split_ifs at hcreate
  · subst hcreate
    exact hs
  cases parent with
  | none =>
    subst hcreate
    refine (changed_link hs hid hlink _ fun x hx => Function.update_of_ne hx _ _).chained hs fun _ => ?_
    refine ⟨[], [], .base (names_link _ _ rfl hlid) (Function.update_self ..) ?_, Nat.zero_le _⟩
    rw [hfound]
  | some p =>
    have hne : p ≠ id := fun he => hparent (congrArg some he)
    dsimp only at hcreate
    cases hlower : (s.home.linked id lid).getLower p none with
    | error e =>
      rw [hlower] at hcreate
      subst hcreate
      dsimp only
      rw [Home.linked, Home.setLayer_setLink, Home.setLayer_setLayer]
      exact (changed_link hs hid hlink none fun _ _ => rfl).chained hs fun hx => absurd (by simp) hx
    | ok lower =>
      rw [hlower] at hcreate
      subst hcreate
      dsimp only
      rw [Home.linked, Home.getLower_congr (Function.update_of_ne hne _ _)] at hlower
      obtain ⟨as, ls, dirp, lidp, hc, hnames, hlen, hlower⟩ := hs.getLower_ok hlower
      rw [Home.linked, Home.setLayer_setLink, Home.setLayer_setLayer]
      have hch := changed_link hs hid hlink
        (some { s.home.found id with diff := true, link := some lid, lower := some lower })
        fun x hx => Function.update_of_ne hx (some p) s.parents
      refine hch.chained hs fun _ => ⟨p :: as, lidp :: ls, ?_, hlen⟩
      have hnames' : Names _ p dirp lidp := ⟨(hch.layers p hne).trans hnames.layer, hnames.file, hnames.generated,
        hch.links p lidp hne hnames.link⟩
      exact .step (names_link _ _ rfl hlid) (Function.update_self ..) hnames' hlower (hch.chain hne hc)

theorem remove_layers (h : Home κ) (id : κ) : (h.remove id none).1.layers = Function.update h.layers id none := by
  simp only [Home.remove, reduceCtorEq, if_false]
  cases (h.layers id).bind LayerDir.link <;> rfl

/-- `Remove` takes the link that the layer's file names. -/
theorem remove_links {h : Home κ} {name : Text} (hname : (h.layers id).bind LayerDir.link ≠ some name) :
    (h.remove id none).1.links name = h.links name := by
  simp only [Home.remove, reduceCtorEq, if_false]
  cases hlid : (h.layers id).bind LayerDir.link with
  | none => rfl
  | some lid =>
    rw [hlid, ne_eq, Option.some_inj] at hname
    exact Function.update_of_ne (Ne.symm hname) _ _

theorem chained_remove (hs : Chained s) (hfits : Fits s (.remove id)) (he : exec s (.remove id) = some s') : Chained s' := by
  rw [exec, Option.some_inj] at he
  subst he
  have hlayers := remove_layers s.home id
  have hch : Changed s { home := (s.home.remove id none).1, parents := Function.update s.parents id none } id := by
    refine ⟨fun x hx => ?_, fun x hx => Function.update_of_ne hx _ _, fun x name hx hname => ?_, hfits⟩
    · rw [hlayers, Function.update_of_ne hx]
    · rw [remove_links, hname]
      intro hfile
      -- The file of the layer names a link of its own.
      obtain ⟨dir, hdir, hfile⟩ := Option.bind_eq_some_iff.mp hfile
      obtain ⟨as, ls, hc, -⟩ := hs id (by simp [hdir])
      obtain ⟨dir', lid, hnames⟩ := hc.names
      obtain rfl := Option.some_inj.mp (hdir.symm.trans hnames.layer)
      obtain rfl := Option.some_inj.mp (hfile.symm.trans hnames.file)
      exact hx (Option.some_inj.mp (hname.symm.trans hnames.link))
  refine hch.chained hs (absurd ?_)
  rw [hlayers, Function.update_self]

theorem chained_of_reaches (h : ReachesIf exec (fun s c => Fits s c ∧ Fresh s c) init s) : Chained s := by
  refine h.inv (fun id hid => absurd rfl hid) fun s c s' _ hs hG he => ?_
  cases c with
  | create id parent storageOpt lid => exact chained_create hs hG.1 hG.2 he
  | remove id => exact chained_remove hs hG.1 he

/-! ## The lower files -/

omit [DecidableEq κ] in
theorem Chain.lists (hc : Chain s id as ls) (hlen : as.length ≤ maxDepth) (hdir : s.home.layers id = some dir) :
    Lists s id dir as where
  ancestors := hc.ancestors
  depth := hlen
  lower := by
    refine ⟨ls, hc.forall_names.imp fun a l hal => ?_, hc.lower hdir⟩
    obtain ⟨d, hnames⟩ := hal
    rw [hnames.layer, Option.bind_some, hnames.file]
  dirs := hc.getLowerDirs

omit [DecidableEq κ] in
theorem Chained.getLower_deep (hs : Chained s) (p : κ) : s.home.getLower p none = .error .maxDepthExceeded ↔
    ∃ dir as, s.home.layers p = some dir ∧ Ancestors s.parents p as ∧ as.length = maxDepth := by
  cases hp : s.home.layers p with
  | none =>
    rw [Home.getLower, hp]
    simp
  | some dir =>
    obtain ⟨as, ls, hc, hlen⟩ := hs p (by simp [hp])
    obtain ⟨dir', lid, hnames⟩ := hc.names
    rw [hc.getLower hnames]
    constructor
    · intro herr
      split_ifs at herr with hle
      exact ⟨dir, as, rfl, hc.ancestors, le_antisymm hlen hle⟩
    · rintro ⟨-, as', -, has', hlen'⟩
      rw [hc.ancestors.unique has', hlen', if_pos le_rfl]

/-- With a parent, `Create` is as deep as `getLower` of the parent. -/
theorem create_deep_iff {h : Home κ} (hlink : h.links lid = none) {p : κ} (hp : p ≠ id) :
    (h.create id (some p) false lid none none).2 = some .maxDepthExceeded ↔
      h.getLower p none = .error .maxDepthExceeded := by
  have hsame : (h.linked id lid).getLower p none = h.getLower p none :=
    Home.getLower_congr (Function.update_of_ne hp _ _) none
  rw [Home.create_of_none hlink, if_neg Bool.false_ne_true]
  dsimp only
  rw [hsame]
  cases h.getLower p none <;> simp

/-- In every run in which `Create` gets new IDs, the lower file of each layer lists the links of its
ancestors, and `Create` is too deep for a parent with `maxDepth` ancestors and for no other. -/
theorem lower_ok (h : ReachesIf exec (fun s c => Fits s c ∧ Fresh s c) init s) :
    (∀ id dir, s.home.layers id = some dir → ∃ as, Lists s id dir as) ∧
    ∀ id p lid, s.home.links lid = none → p ≠ id →
      ((s.home.create id (some p) false lid none none).2 = some .maxDepthExceeded ↔
        ∃ dir as, s.home.layers p = some dir ∧ Ancestors s.parents p as ∧ as.length = maxDepth) := by
  have hs := chained_of_reaches h
  refine ⟨fun id dir hdir => ?_, fun id p lid hlink hp => ?_⟩
  · obtain ⟨as, ls, hc, hlen⟩ := hs id (by simp [hdir])
    exact ⟨as, hc.lists hlen hdir⟩
  · rw [create_deep_iff hlink hp, hs.getLower_deep]

instance (s : State (Fin 3)) (c : Call (Fin 3)) : Decidable (Fits s c) :=
  match c with
  | .create _ _ _ _ => inferInstanceAs (Decidable (_ ∧ _))
  | .remove _ => inferInstanceAs (Decidable (∀ _, _))

instance (s : State (Fin 3)) (c : Call (Fin 3)) : Decidable (Fresh s c) :=
  match c with
  | .create _ _ _ _ => inferInstanceAs (Decidable (_ ∧ _))
  | .remove _ => inferInstanceAs (Decidable True)

def idOf (c : Char) : Text := List.replicate idLength c

/-- The layer 1 over the layer 0, and a layer 2 that is made over 1 and removed. -/
theorem lower_ok_two : ∃ s, ReachesIf exec (fun s c => Fits s c ∧ Fresh s c) (init : State (Fin 3)) s ∧
    ∃ dir, s.home.layers 1 = some dir ∧ ∃ as, Lists s 1 dir as := by
  obtain ⟨s, hs, hdir⟩ := ReachesIf.of_view exec (fun s c => Fits s c ∧ Fresh s c) (init : State (Fin 3))
    [.create 0 none false (idOf 'A'), .create 1 (some 0) false (idOf 'B'), .create 2 (some 1) false (idOf 'C'), .remove 2]
    (fun s => s.home.layers 1)
    (b := some { diff := true, link := some (idOf 'B'), lower := some (entry (idOf 'A')) }) (by decide +kernel)
  exact ⟨s, hs, _, hdir, (lower_ok hs).1 1 _ hdir⟩

/-- The layer 2 is made over 0, and then 0 again over 1. All calls succeed. Now 2 has the ancestors 0 and
1, and its lower file has the old link of 0 only. -/
theorem lower_stale : ∃ s, ReachesIf exec Fits (init : State (Fin 3)) s ∧
    Ancestors s.parents 2 [0, 1] ∧ s.home.getLowerDirs 2 = some [0] ∧
    (s.home.layers 2).bind LayerDir.lower = some (entry (idOf 'A')) ∧
    (s.home.layers 0).bind LayerDir.link = some (idOf 'D') := by
  obtain ⟨s, hs, hview⟩ := ReachesIf.of_view exec Fits (init : State (Fin 3))
    [.create 0 none false (idOf 'A'), .create 1 none false (idOf 'B'), .create 2 (some 0) false (idOf 'C'),
      .create 0 (some 1) false (idOf 'D')]
    (fun s => decide (s.parents 2 = some 0 ∧ s.parents 0 = some 1 ∧ s.parents 1 = none ∧ s.home.getLowerDirs 2 = some [0] ∧
      (s.home.layers 2).bind LayerDir.lower = some (entry (idOf 'A')) ∧
      (s.home.layers 0).bind LayerDir.link = some (idOf 'D')))
    (b := true) (by decide +kernel)
  obtain ⟨h2, h0, h1, hdirs, hlower, hlink⟩ := of_decide_eq_true hview
  exact ⟨s, hs, .cons h2 (.cons h0 (.nil h1)), hdirs, hlower, hlink⟩

end Moby.Graphdriver.Layers
