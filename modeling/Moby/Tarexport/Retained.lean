import Moby.Tarexport.Legacy
import Mathlib.Data.Multiset.AddSub

/-!
# The references of a legacy load to layers

`loadLayer` returns a layer with a reference that the layer store has recorded
for it, and `legacyLoadImage` of `image/tarexport/load.go` gives it back with
`Release` once the image is created. The load of `Moby.Tarexport.Legacy` is run
here together with these references.
-/

namespace Moby.Tarexport

open Framework

/-- The stores, and the references to layers that the loader holds. -/
structure Retained (c : Codec) where
  stores : Stores c
  layers : Multiset Chain

abbrev Retaining (c : Codec) := Fallible Err (Retained c)

variable {c : Codec} {α β : Type}

/-- What takes no reference and gives none back. -/
def outside (x : Load c α) : Retaining c α :=
  ExceptT.mk fun s => ((x.exec s.stores).1, { s with stores := (x.exec s.stores).2 })

/-- A reference to a layer is recorded. -/
def retain (l : Chain) : Retaining c Unit := modify fun s => { s with layers := l ::ₘ s.layers }

/-- `ls.Release`. The image that has been created keeps the layer. -/
def release (l : Chain) : Retaining c Unit := modify fun s => { s with layers := s.layers.erase l }

section

variable (v : V1Codec) (t : LegacyArchive)

/-- The end of `legacyLoadImage`, with its reference to the new layer. -/
def retainingCreate (oldID : String) (imageJSON : Bytes) (parentID : Option ID) : Retaining c ID := do
  let (rootFS, history) ← outside (parentImage parentID)
  let newLayer ← outside (loadLayer t.file (t.layerPath oldID) rootFS)
  retain newLayer
  match v.history imageJSON with
  | none => throw .invalidConfig
  | some h =>
    match v.config imageJSON newLayer (history ++ [h]) with
    | none => throw .invalidConfig
    | some config =>
      let imgID ← outside (create config)
      release newLayer
      match parentID with
      | none => return imgID
      | some parentID =>
        outside (setParent imgID parentID)
        return imgID

/-- The call of `legacyLoadImage` that the next step brings to its end, if it
does: the image, its `json` and its parent. -/
def Legacy.creates (s : Legacy c) : Option (String × Bytes × Option ID) :=
  match s.stack with
  | ⟨oldID, .start⟩ :: _ =>
    if oldID ∈ s.loaded then none
    else
      match t.json oldID with
      | none => none
      | some imageJSON => if v.parent imageJSON = some "" then some (oldID, imageJSON, none) else none
  | ⟨oldID, .waits imageJSON parent⟩ :: _ =>
    match s.loaded.lookup parent with
    | none => none
    | some parentID => some (oldID, imageJSON, some parentID)
  | [] => none

/-- `legacyLoad` as it runs, with the references that it holds. -/
structure RetainingLegacy (c : Codec) where
  legacy : Legacy c
  layers : Multiset Chain

namespace RetainingLegacy

/-- The references after the next step. -/
def nextLayers (s : RetainingLegacy c) : Multiset Chain :=
  match s.legacy.creates v t with
  | none => s.layers
  | some (oldID, imageJSON, parentID) =>
    ((retainingCreate v t oldID imageJSON parentID).exec ⟨s.legacy.stores, s.layers⟩).2.layers

def exec (s : RetainingLegacy c) (_ : Unit) : Option (RetainingLegacy c) :=
  match s.legacy.next v t with
  | none => none
  | some legacy => some ⟨legacy, s.nextLayers v t⟩

end RetainingLegacy

/-- `legacyLoadImage` gets the layer `newLayer` and then fails before it
releases it: the history or the configuration cannot be made, or the image not
be created. -/
def Abandons (oldID : String) (imageJSON : Bytes) (parentID : Option ID) (stores : Stores c) (newLayer : Chain) : Prop :=
  ∃ rootFS history stores₁ stores₂, (parentImage parentID).exec stores = (.ok (rootFS, history), stores₁) ∧
    (loadLayer t.file (t.layerPath oldID) rootFS).exec stores₁ = (.ok newLayer, stores₂) ∧
    ∀ h, v.history imageJSON = some h → ∀ config, v.config imageJSON newLayer (history ++ [h]) = some config →
      ∃ e, ((create config).exec stores₂).1 = .error e

/-- The next step is the end of a call that abandons its layer. -/
def RetainingLegacy.Abandons (s : RetainingLegacy c) : Prop :=
  ∃ oldID imageJSON parentID newLayer, s.legacy.creates v t = some (oldID, imageJSON, parentID) ∧
    Tarexport.Abandons v t oldID imageJSON parentID s.legacy.stores newLayer

end

/-! ## The load without the references -/

/-- A program with references is one without them, with the references left out. -/
def Erases (y : Retaining c α) (x : Load c α) : Prop :=
  ∀ s, x.exec s.stores = ((y.exec s).1, (y.exec s).2.stores)

namespace Erases

theorem outside (x : Load c α) : Erases (outside x) x := fun _ => rfl

theorem throw (e : Err) : Erases (throw e : Retaining c α) (MonadExcept.throw e) := fun _ => rfl

theorem bind {y : Retaining c α} {x : Load c α} {g : α → Retaining c β} {f : α → Load c β} (h : Erases y x)
    (hf : ∀ a, Erases (g a) (f a)) : Erases (y >>= g) (x >>= f) := by
  intro s
  have hx := h s
  cases hy : y.exec s with
  | mk r s' =>
    rw [hy] at hx
    cases r with
    | ok a => rw [Fallible.exec_bind_ok hy, Fallible.exec_bind_ok hx]; exact hf a s'
    | error e => rw [Fallible.exec_bind_error hy, Fallible.exec_bind_error hx]

/-- References come and go without the stores. -/
theorem retained {g : Multiset Chain → Multiset Chain} {y : Retaining c α} {x : Load c α} (h : Erases y x) :
    Erases (do modify (fun s => { s with layers := g s.layers }); y) x :=
  fun s => h { s with layers := g s.layers }

end Erases

variable {v : V1Codec} {t : LegacyArchive}

theorem retainingCreate_erases (oldID : String) (imageJSON : Bytes) (parentID : Option ID) :
    Erases (c := c) (retainingCreate v t oldID imageJSON parentID) (legacyCreate v t oldID imageJSON parentID) := by
  unfold retainingCreate legacyCreate
  refine (Erases.outside _).bind fun r => ?_
  obtain ⟨rootFS, history⟩ := r
  refine (Erases.outside _).bind fun newLayer => Erases.retained ?_
  cases v.history imageJSON with
  | none => exact .throw _
  | some h =>
    cases hc : v.config imageJSON newLayer (history ++ [h]) with
    | none => simp only [hc]; exact .throw _
    | some config =>
      simp only [hc]
      refine (Erases.outside _).bind fun imgID => Erases.retained ?_
      cases parentID with
      | none => exact .outside _
      | some parentID => exact (Erases.outside _).bind fun _ => .outside _

/-! ## One call -/

/-- What does not touch the references ends as it does without them. -/
theorem ensures_outside {x : Load c α} {s : Retained c} {Q : α → Retained c → Prop} {E : Err → Retained c → Prop}
    (hQ : ∀ a stores, x.exec s.stores = (.ok a, stores) → Q a { s with stores })
    (hE : ∀ e stores, x.exec s.stores = (.error e, stores) → E e { s with stores }) : Ensures (outside x) s Q E := by
  have hy : (outside x).exec s = ((x.exec s.stores).1, { s with stores := (x.exec s.stores).2 }) := rfl
  cases hx : x.exec s.stores with
  | mk r stores =>
    rw [hx] at hy
    cases r with
    | ok a => rw [Ensures, hy]; exact hQ a stores hx
    | error e => rw [Ensures, hy]; exact hE e stores hx

theorem retain_ensures {l : Chain} {s : Retained c} {Q : Unit → Retained c → Prop} {E : Err → Retained c → Prop}
    (h : Q () { s with layers := l ::ₘ s.layers }) : Ensures (retain l) s Q E := h

theorem release_ensures {l : Chain} {s : Retained c} {Q : Unit → Retained c → Prop} {E : Err → Retained c → Prop}
    (h : Q () { s with layers := s.layers.erase l }) : Ensures (release l) s Q E := h

/-- The end of a call keeps the references as they are, or fails and leaves one
to the layer that it abandons. -/
theorem retainingCreate_layers (oldID : String) (imageJSON : Bytes) (parentID : Option ID) (s : Retained c) :
    Ensures (retainingCreate v t oldID imageJSON parentID) s
      (fun _ s' => (∀ l, ¬ Abandons v t oldID imageJSON parentID s.stores l) ∧ s'.layers = s.layers)
      (fun _ s' => (∀ l, ¬ Abandons v t oldID imageJSON parentID s.stores l) ∧ s'.layers = s.layers ∨
        ∃ l, Abandons v t oldID imageJSON parentID s.stores l ∧ s'.layers = l ::ₘ s.layers) := by
  refine .bind (ensures_outside ?_ ?_)
  · rintro ⟨rootFS, history⟩ stores₁ hp
    refine .bind (ensures_outside ?_ ?_)
    · intro newLayer stores₂ hl
      refine .bind (retain_ensures ?_)
      cases hh : v.history imageJSON with
      | none =>
        refine .throw (.inr ⟨newLayer, ⟨rootFS, history, stores₁, stores₂, hp, hl, fun h hh' => ?_⟩, rfl⟩)
        cases hh.symm.trans hh'
      | some h =>
        cases hc : v.config imageJSON newLayer (history ++ [h]) with
        | none =>
          simp only [hc]
          refine .throw (.inr ⟨newLayer, ⟨rootFS, history, stores₁, stores₂, hp, hl, fun h' hh' config hc' => ?_⟩, rfl⟩)
          cases hh.symm.trans hh'
          cases hc.symm.trans hc'
        | some config =>
          simp only [hc]
          refine .bind (ensures_outside ?_ ?_)
          · intro imgID stores₃ hcreate
            -- From here on every way out comes after the release.
            have hnot : ∀ l, ¬ Abandons v t oldID imageJSON parentID s.stores l := by
              rintro l ⟨_, _, _, _, hp', hl', hfail⟩
              cases hp.symm.trans hp'
              cases hl.symm.trans hl'
              obtain ⟨e, he⟩ := hfail h hh config hc
              rw [hcreate] at he
              cases he
            have hback : (newLayer ::ₘ s.layers).erase newLayer = s.layers := Multiset.erase_cons_head _ _
            refine .bind (release_ensures ?_)
            cases parentID with
            | none => exact .pure ⟨hnot, hback⟩
            | some parentID =>
              exact .bind (ensures_outside (fun _ _ _ => .pure ⟨hnot, hback⟩) fun _ _ _ => .inl ⟨hnot, hback⟩)
          · intro e stores₃ hcreate
            refine .inr ⟨newLayer, ⟨rootFS, history, stores₁, stores₂, hp, hl, fun h' hh' config' hc' => ⟨e, ?_⟩⟩, rfl⟩
            cases hh.symm.trans hh'
            cases hc.symm.trans hc'
            rw [hcreate]
    · intro e stores₂ hl
      refine .inl ⟨?_, rfl⟩
      rintro l ⟨_, _, _, _, hp', hl', -⟩
      cases hp.symm.trans hp'
      cases hl.symm.trans hl'
  · intro e stores₁ hp
    refine .inl ⟨?_, rfl⟩
    rintro l ⟨_, _, _, _, hp', -⟩
    cases hp.symm.trans hp'

/-! ## Steps and runs -/

/-- A step that brings a call to its end does what `legacyCreate` does. -/
theorem next_of_creates {s s' : Legacy c} {oldID : String} {imageJSON : Bytes} {parentID : Option ID}
    (hc : s.creates v t = some (oldID, imageJSON, parentID)) (h : s.next v t = some s') :
    s' = s.finish v t oldID imageJSON parentID := by
  unfold Legacy.creates at hc
  unfold Legacy.next at h
  split at h
  · cases h
  · split at hc
    · rename_i oldID' rest hs
      simp only [hs, Option.some.injEq] at h
      split_ifs at hc with hl
      split at hc
      · cases hc
      · rename_i hj
        split_ifs at hc with hp
        cases hc
        rw [← h, Legacy.enter, if_neg hl, hj]
        simp only [hp, if_true]
    · rename_i hs
      simp only [hs, Option.some.injEq] at h
      split at hc
      · cases hc
      · rename_i hl
        cases hc
        rw [← h, Legacy.wait, hl]
    · cases hc

/-- A step keeps the references as they are, or abandons a layer and is the
last one. -/
theorem RetainingLegacy.exec_layers {s s' : RetainingLegacy c} (h : s.exec v t () = some s') :
    (¬ s.Abandons v t ∧ s'.layers = s.layers) ∨
      s.Abandons v t ∧ s'.legacy.result ≠ none ∧ ∃ l, s'.layers = l ::ₘ s.layers := by
  unfold RetainingLegacy.exec at h
  split at h
  · cases h
  · rename_i legacy hnext
    cases h
    unfold RetainingLegacy.nextLayers
    cases hc : s.legacy.creates v t with
    | none =>
      refine .inl ⟨?_, by simp only⟩
      rintro ⟨_, _, _, _, hc', -⟩
      cases hc.symm.trans hc'
    | some call =>
      obtain ⟨oldID, imageJSON, parentID⟩ := call
      have hnot (hn : ∀ l, ¬ Tarexport.Abandons v t oldID imageJSON parentID s.legacy.stores l) : ¬ s.Abandons v t := by
        rintro ⟨_, _, _, l, hc', hl⟩
        cases hc.symm.trans hc'
        exact hn l hl
      have hlayers := retainingCreate_layers (v := v) (t := t) oldID imageJSON parentID ⟨s.legacy.stores, s.layers⟩
      have herases := retainingCreate_erases (v := v) (t := t) oldID imageJSON parentID ⟨s.legacy.stores, s.layers⟩
      cases hx : (retainingCreate v t oldID imageJSON parentID).exec ⟨s.legacy.stores, s.layers⟩ with
      | mk r s₁ =>
        rw [hx] at herases
        simp only [hx]
        cases r with
        | ok imgID =>
          obtain ⟨hn, heq⟩ := hlayers.of_ok hx
          exact .inl ⟨hnot hn, heq⟩
        | error e =>
          rcases hlayers.of_error hx with ⟨hn, heq⟩ | ⟨l, hl, heq⟩
          · exact .inl ⟨hnot hn, heq⟩
          · refine .inr ⟨⟨oldID, imageJSON, parentID, l, hc, hl⟩, ?_, l, heq⟩
            rw [next_of_creates hc hnext, Legacy.finish, herases]
            exact Option.some_ne_none _

theorem RetainingLegacy.exec_none {s : RetainingLegacy c} (h : s.legacy.result ≠ none) : s.exec v t () = none := by
  obtain ⟨r, hr⟩ := Option.ne_none_iff_exists'.mp h
  simp only [RetainingLegacy.exec, Legacy.next, hr]

/-- The references that the loader holds are as before `legacyLoad` just if no
step of the run abandons a layer. -/
theorem legacyLoad_layers_iff (v : V1Codec) (t : LegacyArchive) (stores : Stores c) (layers : Multiset Chain)
    (s : RetainingLegacy c) (h : Reaches (RetainingLegacy.exec v t) ⟨legacyLoad t stores, layers⟩ s) :
    (∀ l, s.layers.count l = layers.count l) ↔
      ReachesIf (RetainingLegacy.exec v t) (fun s _ => ¬ s.Abandons v t) ⟨legacyLoad t stores, layers⟩ s := by
  constructor
  · intro heq
    have hrun : ReachesIf (RetainingLegacy.exec v t) (fun s _ => ¬ s.Abandons v t) ⟨legacyLoad t stores, layers⟩ s ∧
        s.layers = layers ∨ s.legacy.result ≠ none ∧ ∃ l, s.layers = l ::ₘ layers := by
      refine h.inv (I := fun s => ReachesIf (RetainingLegacy.exec v t) (fun s _ => ¬ s.Abandons v t)
        ⟨legacyLoad t stores, layers⟩ s ∧ s.layers = layers ∨ s.legacy.result ≠ none ∧ ∃ l, s.layers = l ::ₘ layers)
        (.inl ⟨.refl, rfl⟩) fun s e s' _ ih _ he => ?_
      rcases ih with ⟨hreach, heq⟩ | ⟨hr, -⟩
      · rcases RetainingLegacy.exec_layers he with ⟨hn, heq'⟩ | ⟨-, hr, hl⟩
        · exact .inl ⟨hreach.tail hn he, heq'.trans heq⟩
        · exact .inr ⟨hr, heq ▸ hl⟩
      · cases (RetainingLegacy.exec_none hr).symm.trans he
    rcases hrun with ⟨hreach, -⟩ | ⟨-, l, hl⟩
    · exact hreach
    · have hcount := heq l
      rw [hl, Multiset.count_cons_self] at hcount
      omega
  · intro hreach l
    refine hreach.inv (I := fun s => s.layers.count l = layers.count l) rfl fun s e s' _ ih hn he => ?_
    rcases RetainingLegacy.exec_layers he with ⟨-, heq⟩ | ⟨hab, -⟩
    · rw [heq]; exact ih
    · exact absurd hab hn

theorem legacyLoad_layers_released :
    ∃ s : RetainingLegacy sampleCodec, s.legacy.result = some (.ok ()) ∧ [emptyDiffID] ∈ s.legacy.stores.layers ∧
      ReachesIf (RetainingLegacy.exec sampleV1 (oneImage rootJSON)) (fun s _ => ¬ s.Abandons sampleV1 (oneImage rootJSON))
        ⟨legacyLoad (oneImage rootJSON) (emptyStores sampleCodec), 0⟩ s := by
  obtain ⟨s, hs, hview⟩ := ReachesIf.of_view (RetainingLegacy.exec sampleV1 (oneImage rootJSON)) (fun _ _ => True)
    ⟨legacyLoad (oneImage rootJSON) (emptyStores sampleCodec), 0⟩ [(), (), ()]
    (fun s => (s.layers, s.legacy.result, decide ([emptyDiffID] ∈ s.legacy.stores.layers)))
    (b := (0, some (.ok ()), true)) (by decide +kernel)
  simp only [Prod.mk.injEq, decide_eq_true_eq] at hview
  obtain ⟨hlayers, hr, hl⟩ := hview
  exact ⟨s, hr, hl, (legacyLoad_layers_iff _ _ _ _ s hs).mp fun l => by rw [hlayers]⟩

/-- The `json` gives no entry of the history: the load fails, and its reference
to the layer stays. -/
theorem legacyLoad_layer_left :
    ∃ s : RetainingLegacy sampleCodec,
      Reaches (RetainingLegacy.exec sampleV1 (oneImage badDateJSON))
        ⟨legacyLoad (oneImage badDateJSON) (emptyStores sampleCodec), 0⟩ s ∧
      s.legacy.result.isSome ∧ s.layers.count [emptyDiffID] = 1 := by
  obtain ⟨s, hs, hview⟩ := ReachesIf.of_view (RetainingLegacy.exec sampleV1 (oneImage badDateJSON)) (fun _ _ => True)
    ⟨legacyLoad (oneImage badDateJSON) (emptyStores sampleCodec), 0⟩ [(), ()]
    (fun s => (s.layers.count [emptyDiffID], s.legacy.result.isSome)) (b := (1, true)) (by decide +kernel)
  simp only [Prod.mk.injEq] at hview
  exact ⟨s, hs, hview.2, hview.1⟩

end Moby.Tarexport
