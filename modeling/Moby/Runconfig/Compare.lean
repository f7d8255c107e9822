import Moby.Framework.Map
import Moby.Framework.Path

/-!
# Configurations of containers (runconfig/compare.go) and the build cache (daemon/image.go)

`Compare` goes through the labels of its first argument and reads those of the second with `""` for
a key that is not there. After the comparison of the lengths this tells the maps apart but for
labels whose value is `""`: `{x: ""}` passes for every map with one label and without `x`. What
`Compare` accepts is `compare_iff`; it is the agreement of the configurations exactly if the second
has every key that the first maps to `""` (`compare_agrees_iff`).
-/

namespace Moby.Runconfig

open Moby.Framework Moby.Framework.Path

/-- What `Compare` reads of a configuration. -/
structure Config where
  attachStdout : Bool
  attachStderr : Bool
  user : GoString
  openStdin : Bool
  tty : Bool
  cmd : List GoString
  env : List GoString
  labels : Map GoString GoString
  exposedPorts : Finset GoString
  entrypoint : List GoString
  volumes : Finset GoString

/-! ## `Compare` -/

/-- The loop over two slices of the same length. -/
def sameWords (a b : List GoString) : Bool := (List.range a.length).all fun i => a[i]? = b[i]?

/-- A label, `""` if it is not there. -/
def label (m : Map GoString GoString) (k : GoString) : GoString := (m.lookup k).getD []

/-- The loop over the labels of `a`. -/
def sameLabels (a b : Map GoString GoString) : Bool := decide (∀ k ∈ a.keys, label a k = label b k)

/-- The loop over the keys of a set of ports or volumes. -/
def sameKeys (a b : Finset GoString) : Bool := decide (∀ k ∈ a, k ∈ b)

/-- `Compare`; either pointer may be nil. -/
def compare : Option Config → Option Config → Bool
  | some a, some b =>
    if a.openStdin ∨ b.openStdin then false
    else if a.attachStdout ≠ b.attachStdout ∨ a.attachStderr ≠ b.attachStderr ∨ a.user ≠ b.user ∨
        a.openStdin ≠ b.openStdin ∨ a.tty ≠ b.tty then false
    else if a.cmd.length ≠ b.cmd.length ∨ a.env.length ≠ b.env.length ∨
        a.labels.keys.card ≠ b.labels.keys.card ∨ a.exposedPorts.card ≠ b.exposedPorts.card ∨
        a.entrypoint.length ≠ b.entrypoint.length ∨ a.volumes.card ≠ b.volumes.card then false
    else
      sameWords a.cmd b.cmd && sameWords a.env b.env && sameLabels a.labels b.labels &&
        sameKeys a.exposedPorts b.exposedPorts && sameWords a.entrypoint b.entrypoint &&
        sameKeys a.volumes b.volumes
  | _, _ => false

/-! ## Agreement -/

/-- The configurations agree on what is compared, but for the labels. -/
structure Config.AgreeBut (a b : Config) : Prop where
  attachStdout : a.attachStdout = b.attachStdout
  attachStderr : a.attachStderr = b.attachStderr
  user : a.user = b.user
  tty : a.tty = b.tty
  cmd : a.cmd = b.cmd
  env : a.env = b.env
  exposedPorts : a.exposedPorts = b.exposedPorts
  entrypoint : a.entrypoint = b.entrypoint
  volumes : a.volumes = b.volumes

/-- The configurations agree on all that is compared. -/
def Config.Agree (a b : Config) : Prop := a.AgreeBut b ∧ a.labels = b.labels

/-- There are as many labels, and every label of `a` has the same value in `b`, or is empty and not
there. -/
def LabelsPass (a b : Map GoString GoString) : Prop :=
  a.keys.card = b.keys.card ∧ ∀ k v, a.lookup k = some v → b.lookup k = some v ∨ v = [] ∧ k ∉ b

/-- `b` has the labels that are empty in `a`. -/
def HasBlank (a b : Map GoString GoString) : Prop := ∀ k, a.lookup k = some [] → k ∈ b

/-- No label is empty. -/
def Config.NoBlank (c : Config) : Prop := ∀ k, c.labels.lookup k ≠ some []

theorem sameWords_iff {a b : List GoString} : a.length = b.length ∧ sameWords a b ↔ a = b := by
  constructor
  · rintro ⟨hlen, h⟩
    apply List.ext_getElem? fun i => ?_
    by_cases hi : i < a.length
    · exact of_decide_eq_true (List.all_eq_true.mp h i (List.mem_range.mpr hi))
    · rw [List.getElem?_eq_none (by omega), List.getElem?_eq_none (by omega)]
  · rintro rfl
    simp [sameWords]

theorem sameKeys_iff {a b : Finset GoString} : a.card = b.card ∧ sameKeys a b ↔ a = b := by
  rw [sameKeys, decide_eq_true_iff]
  constructor
  · rintro ⟨hcard, h⟩
    exact Finset.eq_of_subset_of_card_le h hcard.ge
  · rintro rfl
    exact ⟨rfl, fun _ h => h⟩

theorem sameLabels_iff {a b : Map GoString GoString} :
    sameLabels a b ↔ ∀ k v, a.lookup k = some v → b.lookup k = some v ∨ v = [] ∧ k ∉ b := by
  have hlabel : ∀ k v, a.lookup k = some v → (label a k = label b k ↔ b.lookup k = some v ∨ v = [] ∧ k ∉ b) := by
    intro k v hv
    rw [label, label, hv, Option.getD_some, ← Finmap.lookup_eq_none]
    cases b.lookup k with
    | none => simp
    | some w => simp [eq_comm]
  rw [sameLabels, decide_eq_true_iff]
  constructor
  · exact fun h k v hv => (hlabel k v hv).mp (h k (Finmap.mem_keys.mpr (Finmap.mem_of_lookup_eq_some hv)))
  · intro h k hk
    obtain ⟨v, hv⟩ := Finmap.mem_iff.mp (Finmap.mem_keys.mp hk)
    exact (hlabel k v hv).mpr (h k v hv)

theorem compare_iff (a b : Config) :
    compare (some a) (some b) = true ↔
      a.openStdin = false ∧ b.openStdin = false ∧ a.AgreeBut b ∧ LabelsPass a.labels b.labels := by
  rw [compare]
  constructor
  · intro h
    split at h
    · cases h
    rename_i hstdin
    split at h
    · cases h
    rename_i hscalar
    split at h
    · cases h
    rename_i hlen
    simp only [not_or, Bool.not_eq_true, not_not] at hstdin hscalar hlen
    simp only [Bool.and_eq_true] at h
    obtain ⟨⟨⟨⟨⟨hcmd, henv⟩, hlabels⟩, hports⟩, hentry⟩, hvolumes⟩ := h
    obtain ⟨hlcmd, hlenv, hllabels, hlports, hlentry, hlvolumes⟩ := hlen
    exact ⟨hstdin.1, hstdin.2,
      { attachStdout := hscalar.1
        attachStderr := hscalar.2.1
        user := hscalar.2.2.1
        tty := hscalar.2.2.2.2
        cmd := sameWords_iff.mp ⟨hlcmd, hcmd⟩
        env := sameWords_iff.mp ⟨hlenv, henv⟩
        exposedPorts := sameKeys_iff.mp ⟨hlports, hports⟩
        entrypoint := sameWords_iff.mp ⟨hlentry, hentry⟩
        volumes := sameKeys_iff.mp ⟨hlvolumes, hvolumes⟩ },
      hllabels, sameLabels_iff.mp hlabels⟩
  · rintro ⟨ha, hb, h, hcard, hlabels⟩
    have hlabels : sameLabels a.labels b.labels := sameLabels_iff.mpr hlabels
    simp [ha, hb, h.attachStdout, h.attachStderr, h.user, h.tty, h.cmd, h.env, h.exposedPorts, h.entrypoint,
      h.volumes, hcard, hlabels, (sameWords_iff.mpr rfl).2, (sameKeys_iff.mpr rfl).2]

/-! ## The labels -/

variable {a b : Map GoString GoString}

theorem LabelsPass.refl (a : Map GoString GoString) : LabelsPass a a := ⟨rfl, fun _ _ => .inl⟩

/-- The keys of `a` are among those of `b`, of which there are as many. -/
theorem LabelsPass.eq (h : LabelsPass a b) (hblank : HasBlank a b) : a = b := by
  have hlookup : ∀ k v, a.lookup k = some v → b.lookup k = some v := by
    intro k v hv
    rcases h.2 k v hv with hb | ⟨rfl, hk⟩
    · exact hb
    · exact absurd (hblank k hv) hk
  have hsub : a.keys ⊆ b.keys := by
    intro k hk
    obtain ⟨v, hv⟩ := Finmap.mem_iff.mp (Finmap.mem_keys.mp hk)
    exact Finmap.mem_keys.mpr (Finmap.mem_of_lookup_eq_some (hlookup k v hv))
  have hkeys : a.keys = b.keys := Finset.eq_of_subset_of_card_le hsub h.1.ge
  apply Finmap.ext_lookup fun k => ?_
  by_cases hk : k ∈ a
  · obtain ⟨v, hv⟩ := Finmap.mem_iff.mp hk
    rw [hv, hlookup k v hv]
  · have hk' : k ∉ b := fun hb => hk (Finmap.mem_keys.mp (hkeys ▸ Finmap.mem_keys.mpr hb))
    rw [Finmap.lookup_eq_none.mpr hk, Finmap.lookup_eq_none.mpr hk']

theorem HasBlank.refl (a : Map GoString GoString) : HasBlank a a :=
  fun _ h => Finmap.mem_of_lookup_eq_some h

/-! ## What `Compare` decides -/

theorem compare_of_agree {a b : Config} (ha : a.openStdin = false) (hb : b.openStdin = false) (h : a.Agree b) :
    compare (some a) (some b) = true :=
  (compare_iff a b).mpr ⟨ha, hb, h.1, h.2 ▸ .refl _⟩

/-- The configurations that `Compare` accepts agree exactly if the second has the empty labels of
the first. -/
theorem agree_iff_hasBlank {a b : Config} (h : compare (some a) (some b) = true) :
    a.Agree b ↔ HasBlank a.labels b.labels := by
  obtain ⟨-, -, hbut, hpass⟩ := (compare_iff a b).mp h
  exact ⟨fun hagree => hagree.2 ▸ .refl _, fun hblank => ⟨hbut, hpass.eq hblank⟩⟩

/-- Where no label is empty, `Compare` decides whether the configurations agree. -/
theorem compare_eq_agree {a b : Config} (ha : a.openStdin = false) (hb : b.openStdin = false) (hblank : a.NoBlank) :
    compare (some a) (some b) = true ↔ a.Agree b :=
  ⟨fun h => (agree_iff_hasBlank h).mpr fun k hk => absurd hk (hblank k), compare_of_agree ha hb⟩

/-- The configurations without `OpenStdin` and without empty labels. -/
def Plain : Type := { c : Config // c.openStdin = false ∧ c.NoBlank }

theorem Config.Agree.symm {a b : Config} (h : a.Agree b) : b.Agree a := by
  obtain ⟨h, hl⟩ := h
  exact ⟨⟨h.1.symm, h.2.symm, h.3.symm, h.4.symm, h.5.symm, h.6.symm, h.7.symm, h.8.symm, h.9.symm⟩, hl.symm⟩

theorem Config.Agree.trans {a b c : Config} (h : a.Agree b) (h' : b.Agree c) : a.Agree c := by
  obtain ⟨h, hl⟩ := h
  obtain ⟨h', hl'⟩ := h'
  exact ⟨⟨h.1.trans h'.1, h.2.trans h'.2, h.3.trans h'.3, h.4.trans h'.4, h.5.trans h'.5, h.6.trans h'.6,
    h.7.trans h'.7, h.8.trans h'.8, h.9.trans h'.9⟩, hl.trans hl'⟩

theorem Config.Agree.refl (a : Config) : a.Agree a := ⟨⟨rfl, rfl, rfl, rfl, rfl, rfl, rfl, rfl, rfl⟩, rfl⟩

theorem compare_equivalence : Equivalence fun a b : Plain => compare (some a.1) (some b.1) = true := by
  have hiff : ∀ a b : Plain, compare (some a.1) (some b.1) = true ↔ a.1.Agree b.1 :=
    fun a b => compare_eq_agree a.2.1 b.2.1 a.2.2
  simp only [hiff]
  exact ⟨fun a => .refl a.1, fun h => h.symm, fun h h' => h.trans h'⟩

/-! ## The build cache -/

abbrev ID := GoString

structure Image where
  parent : ID
  created : ℤ
  containerConfig : Config

/-- What is asked of the image store: an image, all images and the children of one, in the order in
which the maps are gone through. -/
structure ImageStore where
  get : ID → Option Image
  map : List (ID × Image)
  children : ID → List ID

inductive Err
  | unableToFindImage (id : ID)

/-- `getMatch`, from a match found before. -/
def getMatch (store : ImageStore) (config : Option Config) : List ID → Option Image → Except Err (Option Image)
  | [], found => .ok found
  | id :: siblings, found =>
    match store.get id with
    | none => .error (.unableToFindImage id)
    | some img =>
      if compare (some img.containerConfig) config then
        match found with
        | none => getMatch store config siblings (some img)
        | some m =>
          if m.created < img.created then getMatch store config siblings (some img)
          else getMatch store config siblings found
      else getMatch store config siblings found

/-- `GetCachedImage`. -/
def getCachedImage (store : ImageStore) (imgID : ID) (config : Option Config) : Except Err (Option Image) :=
  if imgID = [] then
    getMatch store config ((store.map.filter fun e => e.2.parent = imgID).map Prod.fst) none
  else getMatch store config (store.children imgID) none

/-- Every match is an image that `Compare` accepts. -/
theorem getMatch_compare {store : ImageStore} {config : Option Config} {siblings : List ID} {found : Option Image}
    {img : Image} (hfound : ∀ m, found = some m → compare (some m.containerConfig) config = true)
    (h : getMatch store config siblings found = .ok (some img)) :
    compare (some img.containerConfig) config = true := by
  induction siblings generalizing found with
  | nil =>
    cases h
    exact hfound img rfl
  | cons id siblings ih =>
    rw [getMatch] at h
    split at h
    · cases h
    rename_i img' _
    split at h
    · rename_i hc
      have hnew : ∀ m, some img' = some m → compare (some m.containerConfig) config = true := by
        rintro m ⟨⟩
        exact hc
      split at h
      · exact ih hnew h
      · split at h
        · exact ih hnew h
        · exact ih hfound h
    · exact ih hfound h

theorem getCachedImage_compare {store : ImageStore} {imgID : ID} {config : Option Config} {img : Image}
    (h : getCachedImage store imgID config = .ok (some img)) :
    compare (some img.containerConfig) config = true := by
  have hnone : ∀ m : Image, (none : Option Image) = some m → compare (some m.containerConfig) config = true := by
    rintro m ⟨⟩
  rw [getCachedImage] at h
  split at h
  · exact getMatch_compare hnone h
  · exact getMatch_compare hnone h

/-- `Compare` is right about two configurations unless they differ only in that a label of the first
is empty and missing in the second; it is an equivalence where no label is empty; and the
configuration of an image from the cache agrees with the one asked for if that has its empty labels. -/
theorem compare_agrees_iff (a b : Config) (ha : a.openStdin = false) (hb : b.openStdin = false) :
    ((compare (some a) (some b) = true ↔ a.Agree b) ↔
        (a.AgreeBut b → LabelsPass a.labels b.labels → HasBlank a.labels b.labels)) ∧
      (Equivalence fun a b : Plain => compare (some a.1) (some b.1) = true) ∧
      ∀ store imgID img, getCachedImage store imgID (some b) = .ok (some img) →
        (img.containerConfig.Agree b ↔ HasBlank img.containerConfig.labels b.labels) := by
  refine ⟨⟨fun hiff hbut hpass => ?_, fun hblank => ⟨fun h => ?_, compare_of_agree ha hb⟩⟩, compare_equivalence, ?_⟩
  · have h := (compare_iff a b).mpr ⟨ha, hb, hbut, hpass⟩
    exact (agree_iff_hasBlank h).mp (hiff.mp h)
  · obtain ⟨-, -, hbut, hpass⟩ := (compare_iff a b).mp h
    exact ⟨hbut, hpass.eq (hblank hbut hpass)⟩
  · intro store imgID img h
    exact agree_iff_hasBlank (getCachedImage_compare h)

/-- A configuration with the given labels. -/
def labelled (labels : Map GoString GoString) : Config :=
  { attachStdout := false, attachStderr := false, user := [], openStdin := false, tty := false, cmd := [], env := [],
    labels, exposedPorts := ∅, entrypoint := [], volumes := ∅ }

/-- The label `x`, which is empty, is there with another value. -/
theorem compare_agrees_iff_labels :
    let a := labelled (Finmap.insert (bytesOf "x") [] (Finmap.singleton (bytesOf "y") (bytesOf "1")))
    let b := labelled (Finmap.insert (bytesOf "x") (bytesOf "2") (Finmap.singleton (bytesOf "y") (bytesOf "1")))
    compare (some a) (some b) = false ∧ (compare (some a) (some b) = true ↔ a.Agree b) := by
  intro a b
  refine ⟨by decide, (compare_agrees_iff a b rfl rfl).1.mpr fun _ hpass => ?_⟩
  rcases hpass.2 (bytesOf "x") [] (by decide) with h | ⟨-, h⟩
  · exact absurd h (by decide)
  · exact absurd (Finmap.mem_insert.mpr (.inl rfl)) h

/-- The label `x`, which is empty, against a label `y`: accepted one way only, and the image with the
one is taken for the other. -/
theorem compare_blank :
    let a := labelled (Finmap.singleton (bytesOf "x") [])
    let b := labelled (Finmap.singleton (bytesOf "y") (bytesOf "1"))
    compare (some a) (some b) = true ∧ compare (some b) (some a) = false ∧ ¬ a.Agree b ∧
      ∃ store img, getCachedImage store (bytesOf "parent") (some b) = .ok (some img) ∧ img.containerConfig = a := by
  refine ⟨by decide, by decide, ?_, ?_⟩
  · rintro ⟨-, h⟩
    have hx := congrArg (Finmap.lookup (bytesOf "x")) h
    exact absurd hx (by decide)
  · let img : Image := ⟨bytesOf "parent", 0, labelled (Finmap.singleton (bytesOf "x") [])⟩
    exact ⟨⟨fun _ => some img, [], fun _ => [bytesOf "child"]⟩, img, rfl, rfl⟩

end Moby.Runconfig
