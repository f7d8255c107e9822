import Moby.Volume.Store

/-!
# Failures of the volume store (volume/store/store.go)

`Moby.Volume.Store` has the operations of the store step by step and any number of them at a time. Here one
call runs from beginning to end with one step that fails, together with the volumes that the drivers have.
`Create` does not take back what it has done if the labels cannot be encoded or written, and `Remove`
asks a driver that it has not found for its name. The failures of `getVolume`, of `Get` and of the database
in `purge` are not reported (`failures_iff`).
-/

namespace Moby.Volume

/-- The store, and the volumes that each driver has. -/
structure World (ι : Type) where
  store : System ι
  volumes : String → String → Bool

/-- The step that fails. -/
inductive Fault
  /-- `getVolume` reads the database, lists the drivers, and asks them one after the other. -/
  | readDatabase
  | listDrivers
  | probe (driver : String)
  | lookup
  | get
  | create
  | encode
  | write
  | remove
  /-- The database in `purge`. -/
  | delete
  deriving DecidableEq

inductive Error
  | nameConflict
  | inUse
  | lookup
  | create
  | encode
  | write
  | remove
  deriving DecidableEq

inductive Outcome
  | ok
  | error (e : Error)
  | panic
  deriving DecidableEq

namespace World

variable {ι : Type}

/-- An empty name is that of the local driver. -/
def driverOf (driverName : String) : String := if driverName = "" then "local" else driverName

/-- `GetDriver`. -/
def getDriver (drivers : List String) (driverName : String) (fault : Option Fault) : Option String :=
  if driverOf driverName ∈ drivers ∧ fault ≠ some .lookup then some (driverOf driverName) else none

/-- `getVolume`, of a name that the store does not have: the first driver that has the volume. -/
def getVolume (drivers : List String) (w : World ι) (name : String) (fault : Option Fault) : Option String :=
  if w.store.db.isSome ∧ fault = some .readDatabase then none
  else if fault = some .listDrivers then none
  else drivers.find? fun driver => w.volumes driver name && fault ≠ some (.probe driver)

/-- `create` from the call of the driver on. -/
def createIn (w : World ι) (name driver : String) (labels : Labels) (fault : Option Fault) : World ι × Except Error String :=
  if fault = some .create then (w, .error .create)
  else
    let w := { w with
      store.labels := Function.update w.store.labels name (some labels)
      volumes := Function.update w.volumes driver (Function.update (w.volumes driver) name true) }
    match w.store.db with
    | none => (w, .ok driver)
    | some db =>
      if fault = some .encode then (w, .error .encode)
      else if fault = some .write then (w, .error .write)
      else ({ w with store.db := some (Function.update db name (some labels)) }, .ok driver)

/-- `create`, which returns the driver of the volume. All names are valid. -/
def create (drivers : List String) (w : World ι) (name driverName : String) (labels : Labels) (fault : Option Fault) :
    World ι × Except Error String :=
  match w.store.names name with
  | some driver =>
    if driver ≠ driverName ∧ driverName ≠ "" ∧ driverName ≠ "local" then (w, .error .nameConflict) else (w, .ok driver)
  | none =>
    match if driverName = "" then w.getVolume drivers name fault else none with
    | some driver => (w, .ok driver)
    | none =>
      match getDriver drivers driverName fault with
      | none => (w, .error .lookup)
      | some driver =>
        -- An error of `Get` is as no volume.
        if w.volumes driver name ∧ fault ≠ some .get then (w, .ok driver) else w.createIn name driver labels fault

/-- `CreateWithRef`, and `Create` if the reference is empty. -/
def createWithRef (drivers : List String) (w : World ι) (name driverName ref : String) (labels : Labels)
    (fault : Option Fault) : World ι × Outcome :=
  match w.create drivers name driverName labels fault with
  | (w, .error e) => (w, .error e)
  | (w, .ok driver) => ({ w with store := w.store.setNamed (.create name driverName ref labels) driver }, .ok)

/-- `purge`. An error of the database is logged; without a database there is a nil pointer. -/
def purge (w : World ι) (name : String) (fault : Option Fault) : World ι × Outcome :=
  match w.store.db with
  | none => ({ w with store := w.store.purge name }, .panic)
  | some db =>
    let w := { w with store := w.store.purge name }
    (if fault = some .delete then { w with store.db := some db } else w, .ok)

/-- `Remove`. Where there is no driver, the name of a nil interface is asked for. -/
def remove (drivers : List String) (w : World ι) (name driverName : String) (fault : Option Fault) : World ι × Outcome :=
  if w.store.refs name ≠ [] then (w, .error .inUse)
  else
    match getDriver drivers driverName fault with
    | none => (w, .panic)
    | some driver =>
      if fault = some .remove then (w, .error .remove)
      else
        { w with volumes := Function.update w.volumes driver (Function.update (w.volumes driver) name false) }.purge name fault

/-! ## Where a call comes to -/

section

variable (drivers : List String) (w : World ι) (name driverName : String) (fault : Option Fault)

/-- `GetDriver` finds the driver. -/
def Found : Prop := driverOf driverName ∈ drivers ∧ fault ≠ some .lookup

/-- The store has a volume of this name, of another driver than the one that is asked for. -/
def Conflict : Prop :=
  ∃ driver, w.store.names name = some driver ∧ driver ≠ driverName ∧ driverName ≠ "" ∧ driverName ≠ "local"

/-- The store has no volume of this name, and if no driver is asked for, none of those that answer has one. -/
structure Unknown : Prop where
  unnamed : w.store.names name = none
  volume : driverName = "" → w.store.db.isSome ∧ fault = some .readDatabase ∨ fault = some .listDrivers ∨
    ∀ driver ∈ drivers, w.volumes driver name = true → fault = some (.probe driver)

/-- The driver is to create the volume: it has none, or could not say so. -/
structure Asked : Prop extends Unknown drivers w name driverName fault where
  found : Found drivers driverName fault
  absent : w.volumes (driverOf driverName) name = true → fault = some .get

/-- There is a database, and the labels cannot be encoded or written to it. -/
def Unsaved : Prop := w.store.db.isSome ∧ (fault = some .encode ∨ fault = some .write)

end

variable {drivers : List String} {w : World ι} {name driverName ref : String} {labels : Labels} {fault : Option Fault}

theorem getDriver_eq (drivers : List String) (driverName : String) (fault : Option Fault)
    [Decidable (Found drivers driverName fault)] : getDriver drivers driverName fault =
      if Found drivers driverName fault then some (driverOf driverName) else none := by
  unfold getDriver Found
  congr

theorem getVolume_eq_none : w.getVolume drivers name fault = none ↔
    w.store.db.isSome ∧ fault = some .readDatabase ∨ fault = some .listDrivers ∨
      ∀ driver ∈ drivers, w.volumes driver name = true → fault = some (.probe driver) := by
  unfold getVolume
  split_ifs with hread hlist
  · simp [hread]
  · simp [hlist]
  · simp [hread, hlist, List.find?_eq_none]

theorem create_of_conflict (h : Conflict w name driverName) :
    w.create drivers name driverName labels fault = (w, .error .nameConflict) := by
  obtain ⟨driver, hname, hne⟩ := h
  simp only [create, hname, if_pos hne]

theorem create_of_unknown (h : Unknown drivers w name driverName fault) :
    w.create drivers name driverName labels fault =
      match getDriver drivers driverName fault with
      | none => (w, .error .lookup)
      | some driver =>
        if w.volumes driver name ∧ fault ≠ some .get then (w, .ok driver) else w.createIn name driver labels fault := by
  have hnone : (if driverName = "" then w.getVolume drivers name fault else none) = none := by
    split_ifs with hempty
    · exact getVolume_eq_none.mpr (h.volume hempty)
    · rfl
  simp only [create, h.unnamed, hnone]

/-- A volume that is known is returned. -/
theorem create_of_known (hc : ¬ Conflict w name driverName) (hu : ¬ Unknown drivers w name driverName fault)
    (labels : Labels) :
    ∃ driver, w.create drivers name driverName labels fault = (w, .ok driver) := by
  cases hname : w.store.names name with
  | some driver =>
    refine ⟨driver, ?_⟩
    simp only [create, hname]
    exact if_neg fun hne => hc ⟨driver, hname, hne⟩
  | none =>
    have hsome : ∃ driver, (if driverName = "" then w.getVolume drivers name fault else none) = some driver := by
      rw [← Option.ne_none_iff_exists']
      intro hnone
      refine hu ⟨hname, fun hempty => ?_⟩
      rw [if_pos hempty] at hnone
      exact getVolume_eq_none.mp hnone
    obtain ⟨driver, hsome⟩ := hsome
    exact ⟨driver, by simp only [create, hname, hsome]⟩

/-! ## What a failure leaves -/

/-- The error of a `Create`, and whether it leaves the store and the drivers as they were. -/
structure Fails (w w' : World ι) (outcome : Outcome) (error changed : Prop) : Prop where
  no_panic : outcome ≠ .panic
  reported : (∃ e, outcome = .error e) ↔ error
  unchanged : (∃ e, outcome = .error e) → (w' = w ↔ ¬ changed)

theorem Fails.of_ok {w' : World ι} {error changed : Prop} (he : ¬ error) : Fails w w' .ok error changed :=
  ⟨by simp, by simpa using he, by simp⟩

theorem Fails.of_error {error changed : Prop} {e : Error} (he : error) (hc : ¬ changed) :
    Fails w w (.error e) error changed :=
  ⟨by simp, by simpa using he, fun _ => by simpa using hc⟩

/-- The driver is asked: what it has created stays if it cannot be saved. -/
theorem createIn_fails {driver : String} (hnew : w.volumes driver name = true → fault = some .get) (labels : Labels) :
    (∃ driver' w', w.createIn name driver labels fault = (w', .ok driver') ∧ fault ≠ some .create ∧ ¬ Unsaved w fault) ∨
    (∃ e, w.createIn name driver labels fault = (w, .error e) ∧ fault = some .create) ∨
    ∃ e w', w.createIn name driver labels fault = (w', .error e) ∧ w' ≠ w ∧ Unsaved w fault := by
  have hne : ∀ w' : World ι, w'.volumes driver name = true → fault ≠ some .get → w' ≠ w := by
    rintro w' hw' hget rfl
    exact hget (hnew hw')
  rw [createIn]
  by_cases hcreate : fault = some .create
  · exact .inr (.inl ⟨.create, if_pos hcreate, hcreate⟩)
  rw [if_neg hcreate]
  cases hdb : w.store.db with
  | none =>
    simp only [hdb]
    exact .inl ⟨driver, _, rfl, hcreate, by simp [Unsaved, hdb]⟩
  | some db =>
    simp only [hdb]
    split_ifs with hencode hwrite
    · exact .inr (.inr ⟨.encode, _, rfl, hne _ (by simp) (by simp [hencode]), by simp [hdb], .inl hencode⟩)
    · exact .inr (.inr ⟨.write, _, rfl, hne _ (by simp) (by simp [hwrite]), by simp [hdb], .inr hwrite⟩)
    · exact .inl ⟨driver, _, rfl, hcreate, by simp [Unsaved, hencode, hwrite]⟩

theorem createWithRef_fails (drivers : List String) (w : World ι) (name driverName ref : String) (labels : Labels)
    (fault : Option Fault) :
    Fails w (w.createWithRef drivers name driverName ref labels fault).1
      (w.createWithRef drivers name driverName ref labels fault).2
      (Conflict w name driverName ∨ Unknown drivers w name driverName fault ∧ ¬ Found drivers driverName fault ∨
        Asked drivers w name driverName fault ∧ (fault = some .create ∨ Unsaved w fault))
      (Asked drivers w name driverName fault ∧ Unsaved w fault) := by
  classical
  rw [createWithRef]
  by_cases hc : Conflict w name driverName
  · rw [create_of_conflict hc]
    obtain ⟨driver, hname, -⟩ := id hc
    exact .of_error (.inl hc) fun h => by simp [h.1.unnamed] at hname
  by_cases hu : Unknown drivers w name driverName fault
  · rw [create_of_unknown hu, getDriver_eq]
    by_cases hf : Found drivers driverName fault
    · simp only [if_pos hf]
      by_cases hexists : w.volumes (driverOf driverName) name = true ∧ fault ≠ some .get
      · have hna : ¬ Asked drivers w name driverName fault := fun h => hexists.2 (h.absent hexists.1)
        rw [if_pos hexists]
        exact .of_ok (by simp [hc, hf, hna])
      · have hnew : w.volumes (driverOf driverName) name = true → fault = some .get := by simpa using hexists
        have ha : Asked drivers w name driverName fault := ⟨hu, hf, hnew⟩
        rw [if_neg hexists]
        rcases createIn_fails hnew labels with
          ⟨driver', w', heq, hcreate, hsaved⟩ | ⟨e, heq, hcreate⟩ | ⟨e, w', heq, hne, hunsaved⟩
        · rw [heq]
          exact .of_ok (by simp [hc, hf, hcreate, hsaved])
        · rw [heq]
          exact .of_error (.inr (.inr ⟨ha, .inl hcreate⟩)) (by simp [Unsaved, hcreate])
        · rw [heq]
          exact ⟨by simp, by simp [ha, hunsaved], fun _ => by simp [hne, ha, hunsaved]⟩
    · simp only [if_neg hf]
      exact .of_error (.inr (.inl ⟨hu, hf⟩)) fun h => hf h.1.found
  · obtain ⟨driver, heq⟩ := create_of_known hc hu labels
    rw [heq]
    exact .of_ok (by simp [hc, hu, show ¬ Asked drivers w name driverName fault from fun h => hu h.toUnknown])

theorem purge_iff (w : World ι) (name : String) (fault : Option Fault) :
    ((w.purge name fault).2 = .panic ↔ w.store.db = none) ∧ ∀ e, (w.purge name fault).2 ≠ .error e := by
  rw [purge]
  cases w.store.db <;> simp

theorem remove_iff (drivers : List String) (w : World ι) (name driverName : String) (fault : Option Fault) :
    ((w.remove drivers name driverName fault).2 = .panic ↔ w.store.refs name = [] ∧
      (¬ Found drivers driverName fault ∨ fault ≠ some .remove ∧ w.store.db = none)) ∧
    ((∃ e, (w.remove drivers name driverName fault).2 = .error e) ↔
      w.store.refs name ≠ [] ∨ Found drivers driverName fault ∧ fault = some .remove) ∧
    ∀ e, (w.remove drivers name driverName fault).2 = .error e → (w.remove drivers name driverName fault).1 = w := by
  classical
  rw [remove]
  by_cases hrefs : w.store.refs name ≠ []
  · rw [if_pos hrefs]
    simp [hrefs]
  rw [if_neg hrefs, getDriver_eq]
  have hrefs : w.store.refs name = [] := not_not.mp hrefs
  by_cases hf : Found drivers driverName fault
  · simp only [if_pos hf]
    by_cases hremove : fault = some .remove
    · simp [hremove, hrefs, show Found drivers driverName (some .remove) from hremove ▸ hf]
    · rw [if_neg hremove]
      obtain ⟨hpanic, herror⟩ := purge_iff { w with
        volumes := Function.update w.volumes (driverOf driverName)
          (Function.update (w.volumes (driverOf driverName)) name false) } name fault
      exact ⟨by simp [hpanic, hrefs, hremove, hf], by simp [herror, hrefs, hremove], fun e he => absurd he (herror e)⟩
  · simp [hrefs, hf]

/-- A store with a database, whose driver has no volume yet. -/
def empty : World Unit where
  store := .new (some fun _ => none)
  volumes _ _ := false

end World

end Moby.Volume
