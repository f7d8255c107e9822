import Moby.Digest
import Moby.Framework.Map

/-!
# The layers of a manifest of schema 1

`fixManifestLayers` of `distribution/pull_v2.go`: repeated layers are removed
from a manifest, in place and backwards, and the chain of parents is checked.
`lastOfRuns` says which layers are left, and `fixManifestLayers_ok_iff` when
the function succeeds, and with what.
-/

namespace Moby.Distribution

open Moby.Digest

/-! ## Runs of equal keys -/

section

variable {α β κ : Type} [DecidableEq κ]

/-- The last element of every maximal run of elements with one key. -/
def lastOfRuns (key : α → κ) : List α → List α
  | a :: b :: l => if key a = key b then lastOfRuns key (b :: l) else a :: lastOfRuns key (b :: l)
  | l => l

variable {key : α → κ}

/-- The key of the first run. -/
theorem lastOfRuns_head (key : α → κ) (a : α) (l : List α) :
    ∃ x r, lastOfRuns key (a :: l) = x :: r ∧ key x = key a := by
  induction l generalizing a with
  | nil => exact ⟨a, [], rfl, rfl⟩
  | cons b l ih =>
    obtain ⟨x, r, hx, hkey⟩ := ih b
    unfold lastOfRuns
    by_cases h : key a = key b
    · rw [if_pos h]
      exact ⟨x, r, hx, hkey.trans h.symm⟩
    · rw [if_neg h]
      exact ⟨a, _, rfl, rfl⟩

/-- The last element is kept. -/
theorem lastOfRuns_getLast (key : α → κ) (l : List α) : (lastOfRuns key l).getLast? = l.getLast? := by
  induction l with
  | nil => rfl
  | cons a l ih =>
    cases l with
    | nil => rfl
    | cons b l =>
      unfold lastOfRuns
      split
      · rw [ih, List.getLast?_cons_cons]
      · obtain ⟨x, r, hx, -⟩ := lastOfRuns_head key b l
        rw [hx] at ih ⊢
        rw [List.getLast?_cons_cons, List.getLast?_cons_cons, ih]

theorem map_lastOfRuns {f : α → β} {key' : β → κ} (h : ∀ a, key' (f a) = key a) (l : List α) :
    (lastOfRuns key l).map f = lastOfRuns key' (l.map f) := by
  induction l with
  | nil => rfl
  | cons a l ih =>
    cases l with
    | nil => rfl
    | cons b l =>
      simp only [List.map_cons, lastOfRuns, h] at ih ⊢
      split
      · exact ih
      · rw [List.map_cons, ih]

end

/-! ## fixManifestLayers -/

/-- The fields of `image.V1Image` that are read. -/
structure V1Image where
  id : String
  parent : String
  deriving DecidableEq

/-- The layers of a manifest, and the texts of its history. -/
structure Manifest (F : Type) where
  fsLayers : List F
  history : List (List UInt8)
  deriving DecidableEq

/-- The errors of `fixManifestLayers`. `outOfRange` is a panic. -/
inductive FixErr where
  | unmarshal
  | invalidID (id : String)
  | invalidBaseParent
  | appearsMultipleTimes (id : String)
  | invalidParent (expected got : String)
  | outOfRange
  deriving DecidableEq

variable {F : Type} (decode : List UInt8 → Option V1Image)

/-- The first loop: `v1.ValidateID` of every image. -/
def readImages : List F → List (List UInt8) → Except FixErr (List V1Image)
  | [], _ => .ok []
  | _ :: _, [] => .error .outOfRange
  | _ :: layers, h :: history =>
    match decode h with
    | none => .error .unmarshal
    | some img =>
      if IsHex64 img.id then
        match readImages layers history with
        | .error e => .error e
        | .ok imgs => .ok (img :: imgs)
      else .error (.invalidID img.id)

/-- The second loop. -/
def checkDuplicates (lastID : String) (idmap : Finset String) : List V1Image → Except FixErr Unit
  | [] => .ok ()
  | img :: imgs =>
    if img.id ≠ lastID ∧ img.id ∈ idmap then .error (.appearsMultipleTimes img.id)
    else checkDuplicates img.id (insert img.id idmap) imgs

/-- The index `i` is removed from both slices. -/
def Manifest.remove (m : Manifest F) (i : ℕ) : Manifest F := ⟨m.fsLayers.eraseIdx i, m.history.eraseIdx i⟩

/-- The last loop, for the indexes below `i`, downwards. -/
def removeRepeated (imgs : List V1Image) : ℕ → Manifest F → Except FixErr (Manifest F)
  | 0, m => .ok m
  | i + 1, m =>
    match imgs[i]?, imgs[i + 1]? with
    | some img, some next =>
      if img.id = next.id then removeRepeated imgs i (m.remove i)
      else if img.parent ≠ next.id then .error (.invalidParent next.id img.parent)
      else removeRepeated imgs i m
    | _, _ => .error .outOfRange

/-- `fixManifestLayers`. -/
def fixManifestLayers (windows : Bool) (m : Manifest F) : Except FixErr (Manifest F) :=
  match readImages decode m.fsLayers m.history with
  | .error e => .error e
  | .ok imgs =>
    match imgs.getLast? with
    | none => .error .outOfRange
    | some base =>
      if base.parent ≠ "" ∧ windows = false then .error .invalidBaseParent
      else
        match checkDuplicates "" ∅ imgs with
        | .error e => .error e
        | .ok () => removeRepeated imgs (imgs.length - 1) m

/-! ## What the loops check -/

theorem length_readImages {layers : List F} {history : List (List UInt8)} {imgs : List V1Image}
    (h : readImages decode layers history = .ok imgs) : imgs.length = layers.length := by
  induction layers generalizing history imgs with
  | nil =>
    cases h
    rfl
  | cons layer layers ih =>
    cases history with
    | nil => cases h
    | cons text history =>
      rw [readImages] at h
      split at h
      · cases h
      split at h
      · split at h
        · cases h
        · rename_i imgs' hrest
          cases h
          exact congrArg (· + 1) (ih hrest)
      · cases h

/-- The second loop, after an image. -/
theorem checkDuplicates_ok {lastID : String} {idmap : Finset String} (hlast : lastID ∈ idmap) (imgs : List V1Image) :
    checkDuplicates lastID idmap imgs = .ok () ↔
      (lastOfRuns id (lastID :: imgs.map V1Image.id)).Nodup ∧
      ∀ y ∈ lastOfRuns id (lastID :: imgs.map V1Image.id), y ∈ idmap → y = lastID := by
  induction imgs generalizing lastID idmap with
  | nil => simp [checkDuplicates, lastOfRuns]
  | cons img imgs ih =>
    rw [List.map_cons, checkDuplicates, lastOfRuns]
    by_cases heq : img.id = lastID
    · have hmem : img.id ∈ idmap := heq ▸ hlast
      simp only [heq, ne_eq, not_true_eq_false, false_and, if_false, id, if_true]
      rw [Finset.insert_eq_of_mem hlast]
      exact ih hlast
    · obtain ⟨x, r, hx, hkey⟩ := lastOfRuns_head id img.id (imgs.map V1Image.id)
      have hfirst : img.id ∈ lastOfRuns id (img.id :: imgs.map V1Image.id) := by
        rw [hx, ← show x = img.id from hkey]
        exact List.mem_cons_self
      rw [if_neg (show ¬ id lastID = id img.id from Ne.symm heq)]
      by_cases hmem : img.id ∈ idmap
      · simp only [heq, hmem, ne_eq, not_false_eq_true, and_self, if_true]
        exact iff_of_false (fun h => by cases h) fun h => heq (h.2 _ (List.mem_cons_of_mem _ hfirst) hmem)
      · simp only [hmem, and_false, if_false]
        rw [ih (Finset.mem_insert_self _ _), List.nodup_cons]
        constructor
        · rintro ⟨hnodup, hold⟩
          -- nothing that follows has been seen before this image
          have hnew : ∀ y ∈ lastOfRuns id (img.id :: imgs.map V1Image.id), y ∉ idmap := fun y hy hyM =>
            hmem (hold y hy (Finset.mem_insert_of_mem hyM) ▸ hyM)
          refine ⟨⟨fun h => hnew _ h hlast, hnodup⟩, fun y hy hyM => ?_⟩
          rcases List.mem_cons.mp hy with rfl | hy
          · rfl
          · exact absurd hyM (hnew y hy)
        · rintro ⟨⟨hlast', hnodup⟩, hold⟩
          refine ⟨hnodup, fun y hy hyM => ?_⟩
          rcases Finset.mem_insert.mp hyM with rfl | hyM
          · rfl
          · exact absurd (hold y (List.mem_cons_of_mem _ hy) hyM ▸ hy) hlast'

/-- A layer of a manifest with its image and its history. -/
abbrev Entry (F : Type) := V1Image × F × List UInt8

/-- The manifest of a list of entries. -/
def Manifest.ofEntries (es : List (Entry F)) : Manifest F := ⟨es.map fun e => e.2.1, es.map fun e => e.2.2⟩

theorem Manifest.remove_ofEntries (es : List (Entry F)) (e : Entry F) (rest : List (Entry F)) :
    (Manifest.ofEntries (es ++ e :: rest)).remove es.length = Manifest.ofEntries (es ++ rest) := by
  simp only [Manifest.remove, Manifest.ofEntries, List.map_append, List.map_cons, Manifest.mk.injEq]
  constructor
  · rw [List.eraseIdx_append_of_length_le (by simp)]
    simp
  · rw [List.eraseIdx_append_of_length_le (by simp)]
    simp

/-- The key of an entry. -/
def Entry.id (e : Entry F) : String := e.1.id

/-- The last loop, where it has come to the index `n`: below it the manifest is as it was, and above it
reduced. -/
theorem removeRepeated_ok {es : List (Entry F)} {m : Manifest F} {n : ℕ} (hn : n < es.length) :
    removeRepeated (es.map Prod.fst) n (.ofEntries (es.take n ++ lastOfRuns Entry.id (es.drop n))) = .ok m ↔
      (∀ j, ∀ h : j < n, (es[j]).1.id = (es[j + 1]).1.id ∨ (es[j]).1.parent = (es[j + 1]).1.id) ∧
      m = .ofEntries (lastOfRuns Entry.id es) := by
  induction n with
  | zero =>
    simp only [removeRepeated, List.take_zero, List.drop_zero, List.nil_append, Except.ok.injEq, Nat.not_lt_zero,
      IsEmpty.forall_iff, implies_true, true_and]
    exact eq_comm
  | succ i ih =>
    have hi : i < es.length := Nat.lt_of_succ_lt hn
    have hdrop : es.drop i = es[i] :: es.drop (i + 1) := List.drop_eq_getElem_cons hi
    have hdrop' : es.drop (i + 1) = es[i + 1] :: es.drop (i + 2) := List.drop_eq_getElem_cons hn
    have htake : es.take (i + 1) ++ lastOfRuns Entry.id (es.drop (i + 1)) =
        es.take i ++ es[i] :: lastOfRuns Entry.id (es.drop (i + 1)) := by
      rw [← List.take_concat_get' es i hi, List.append_assoc]
      rfl
    -- what the model of the rest does with the entry `i`
    have hruns : lastOfRuns Entry.id (es.drop i) = if (es[i]).1.id = (es[i + 1]).1.id
        then lastOfRuns Entry.id (es.drop (i + 1)) else es[i] :: lastOfRuns Entry.id (es.drop (i + 1)) := by
      rw [hdrop, hdrop', lastOfRuns]
      rfl
    have hsplit : (∀ j, ∀ h : j < i + 1, (es[j]).1.id = (es[j + 1]).1.id ∨ (es[j]).1.parent = (es[j + 1]).1.id) ↔
        ((es[i]).1.id = (es[i + 1]).1.id ∨ (es[i]).1.parent = (es[i + 1]).1.id) ∧
        ∀ j, ∀ h : j < i, (es[j]).1.id = (es[j + 1]).1.id ∨ (es[j]).1.parent = (es[j + 1]).1.id := by
      constructor
      · exact fun h => ⟨h i (Nat.lt_succ_self i), fun j hj => h j (Nat.lt_succ_of_lt hj)⟩
      · rintro ⟨hlast, hbelow⟩ j hj
        rcases Nat.lt_succ_iff_lt_or_eq.mp hj with hj | rfl
        · exact hbelow j hj
        · exact hlast
    have ih := ih hi
    rw [hruns] at ih
    rw [removeRepeated, List.getElem?_map, List.getElem?_map, List.getElem?_eq_getElem hi, List.getElem?_eq_getElem hn,
      hsplit, htake]
    simp only [Option.map_some]
    by_cases hid : (es[i]).1.id = (es[i + 1]).1.id
    · have hlen : (es.take i).length = i := List.length_take_of_le (Nat.le_of_lt hi)
      have hremove := Manifest.remove_ofEntries (es.take i) es[i] (lastOfRuns Entry.id (es.drop (i + 1)))
      rw [hlen] at hremove
      rw [if_pos hid] at ih ⊢
      rw [hremove, ih]
      simp only [hid, true_or, true_and]
    · rw [if_neg hid] at ih ⊢
      by_cases hparent : (es[i]).1.parent = (es[i + 1]).1.id
      · simp only [hparent, ne_eq, not_true_eq_false, if_false, or_true, true_and]
        exact ih
      · simp only [hparent, ne_eq, not_false_eq_true, if_true, hid, or_self, false_and, iff_false]
        exact fun h => by cases h

/-- The parents, checked where the ID changes, are those of the entries that are left. -/
theorem isChain_lastOfRuns (imgs : List V1Image) :
    imgs.IsChain (fun a b => a.id = b.id ∨ a.parent = b.id) ↔
      (lastOfRuns V1Image.id imgs).IsChain fun a b => a.parent = b.id := by
  induction imgs with
  | nil => simp [lastOfRuns]
  | cons a imgs ih =>
    cases imgs with
    | nil => simp [lastOfRuns]
    | cons b imgs =>
      obtain ⟨x, r, hx, hkey⟩ := lastOfRuns_head V1Image.id b imgs
      rw [List.isChain_cons_cons, ih, lastOfRuns]
      by_cases h : a.id = b.id
      · rw [if_pos h]
        exact and_iff_right (.inl h)
      · rw [if_neg h, hx, List.isChain_cons_cons, hkey, or_iff_right h]

/-! ## When it succeeds -/

/-- A chain of images without repetitions: the parent of each is the next one, and the last has none. -/
structure WellFormed (imgs : List V1Image) : Prop where
  distinct : (imgs.map V1Image.id).Nodup
  parents : imgs.IsChain fun a b => a.parent = b.id
  base : ∀ img ∈ imgs.getLast?, img.parent = ""

/-- The images of a manifest, each with its layer and its history. -/
def entries (imgs : List V1Image) (m : Manifest F) : List (Entry F) := imgs.zip (m.fsLayers.zip m.history)

theorem checkDuplicates_first (imgs : List V1Image) :
    checkDuplicates "" ∅ imgs = .ok () ↔ ((lastOfRuns V1Image.id imgs).map V1Image.id).Nodup := by
  cases imgs with
  | nil => simp [checkDuplicates, lastOfRuns]
  | cons img imgs =>
    have hids : (lastOfRuns V1Image.id (img :: imgs)).map V1Image.id = lastOfRuns id (img.id :: imgs.map V1Image.id) :=
      map_lastOfRuns (f := V1Image.id) (fun a => show id a.id = a.id from rfl) (img :: imgs)
    rw [hids, checkDuplicates, if_neg (by simp), checkDuplicates_ok (Finset.mem_insert_self _ _)]
    refine and_iff_left fun y _ hy => ?_
    simpa using hy

theorem removeRepeated_all {imgs : List V1Image} {m m' : Manifest F} (hlayers : imgs.length = m.fsLayers.length)
    (hlen : m.fsLayers.length = m.history.length) (hne : imgs ≠ []) :
    removeRepeated imgs (imgs.length - 1) m = .ok m' ↔
      (lastOfRuns V1Image.id imgs).IsChain (fun a b => a.parent = b.id) ∧
      m' = .ofEntries (lastOfRuns Entry.id (entries imgs m)) := by
  have hzip : (m.fsLayers.zip m.history).length = imgs.length := by
    rw [List.length_zip, ← hlen, Nat.min_self, hlayers]
  have himgs : (entries imgs m).map Prod.fst = imgs := List.map_fst_zip (Nat.le_of_eq hzip.symm)
  have hrest : (entries imgs m).map Prod.snd = m.fsLayers.zip m.history := List.map_snd_zip (Nat.le_of_eq hzip)
  have hes : (entries imgs m).length = imgs.length := (List.length_map _).symm.trans (congrArg List.length himgs)
  have hpos : 0 < imgs.length := List.length_pos_iff.mpr hne
  -- before the loop only the last entry has been passed
  have hstart : m = .ofEntries ((entries imgs m).take (imgs.length - 1) ++
      lastOfRuns Entry.id ((entries imgs m).drop (imgs.length - 1))) := by
    have hlast : lastOfRuns Entry.id ((entries imgs m).drop (imgs.length - 1)) =
        (entries imgs m).drop (imgs.length - 1) := by
      rw [List.drop_eq_getElem_cons (by omega), List.drop_of_length_le (by omega), lastOfRuns]
      rintro _ _ _ ⟨⟩
    rw [hlast, List.take_append_drop]
    show m = ⟨(entries imgs m).map (Prod.fst ∘ Prod.snd), (entries imgs m).map (Prod.snd ∘ Prod.snd)⟩
    rw [← List.map_map, ← List.map_map, hrest, List.map_fst_zip (Nat.le_of_eq hlen),
      List.map_snd_zip (Nat.le_of_eq hlen.symm)]
  have hloop := @removeRepeated_ok F (entries imgs m) m' (imgs.length - 1) (by omega)
  rw [himgs, ← hstart] at hloop
  rw [hloop, ← isChain_lastOfRuns, List.isChain_iff_getElem]
  refine and_congr_left fun _ => ?_
  have hget {j : ℕ} (h : j < imgs.length) : (entries imgs m)[j].1 = imgs[j] := by
    simp only [entries, List.getElem_zip]
  constructor
  · intro h j hj
    have hentry := h j (by omega)
    rwa [hget, hget] at hentry
  · intro h j hj
    rw [hget, hget]
    exact h j (by omega)

/-- `fixManifestLayers` succeeds exactly if the history is read, the IDs are valid, and the input with every run of
equal IDs reduced to its last entry is well formed; the result is the input so reduced, layers and history
together. -/
theorem fixManifestLayers_ok_iff {m : Manifest F} (hlen : m.fsLayers.length = m.history.length)
    (hne : m.fsLayers ≠ []) (m' : Manifest F) :
    fixManifestLayers decode false m = .ok m' ↔ ∃ imgs, readImages decode m.fsLayers m.history = .ok imgs ∧
      WellFormed (lastOfRuns V1Image.id imgs) ∧ m' = .ofEntries (lastOfRuns Entry.id (entries imgs m)) := by
  unfold fixManifestLayers
  cases hread : readImages decode m.fsLayers m.history with
  | error e =>
    refine iff_of_false (fun h => by cases h) ?_
    rintro ⟨imgs, h, -⟩
    cases h
  | ok imgs =>
    have hlayers := length_readImages decode hread
    have himgs : imgs ≠ [] := by
      rintro rfl
      exact hne (List.length_eq_zero_iff.mp hlayers.symm)
    obtain ⟨base, hbase⟩ := Option.isSome_iff_exists.mp (List.getLast?_isSome.mpr himgs)
    have hwell : WellFormed (lastOfRuns V1Image.id imgs) ↔ base.parent = "" ∧
        checkDuplicates "" ∅ imgs = .ok () ∧
        (lastOfRuns V1Image.id imgs).IsChain fun a b => a.parent = b.id := by
      rw [checkDuplicates_first]
      constructor
      · intro h
        exact ⟨h.base base (by rw [lastOfRuns_getLast]; exact hbase), h.distinct, h.parents⟩
      · rintro ⟨hparent, hdistinct, hparents⟩
        refine ⟨hdistinct, hparents, fun img himg => ?_⟩
        rw [lastOfRuns_getLast, hbase] at himg
        cases himg
        exact hparent
    simp only [Except.ok.injEq, exists_eq_left', hwell, hbase, and_true]
    by_cases hparent : base.parent = ""
    · simp only [hparent, ne_eq, not_true_eq_false, if_false, true_and]
      cases hcheck : checkDuplicates "" ∅ imgs with
      | error e =>
        simp only [reduceCtorEq, false_and]
      | ok _ =>
        simp only [true_and]
        exact removeRepeated_all hlayers hlen himgs
    · simp only [hparent, ne_eq, not_false_eq_true, if_true, false_and, reduceCtorEq]

/-- The texts of a sample history, whose first two images are the same. -/
def sampleImage (text : List UInt8) : Option V1Image :=
  if text = [1] then some ⟨String.ofList (List.replicate 64 'a'), String.ofList (List.replicate 64 'b')⟩
  else some ⟨String.ofList (List.replicate 64 'b'), ""⟩

/-- A manifest with a repeated layer: the second of the two is left. -/
theorem fixManifestLayers_ok_repeated : ∃ imgs : List V1Image,
    fixManifestLayers sampleImage false ⟨[10, 11, 12], [[1], [1], [2]]⟩ = .ok ⟨[11, 12], [[1], [2]]⟩ ∧
    WellFormed (lastOfRuns V1Image.id imgs) ∧ imgs.length = 3 := by
  have hok : fixManifestLayers sampleImage false ⟨[10, 11, 12], [[1], [1], [2]]⟩ = .ok ⟨[11, 12], [[1], [2]]⟩ := by
    decide +kernel
  obtain ⟨imgs, hread, hwell, -⟩ := (fixManifestLayers_ok_iff sampleImage rfl (by decide) _).mp hok
  exact ⟨imgs, hok, hwell, length_readImages sampleImage hread⟩

end Moby.Distribution
