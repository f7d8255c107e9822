import Mathlib.Data.List.Basic
import Mathlib.Logic.Function.Basic
import Moby.Framework.Machine

/-!
# The volume store (volume/store)

Each operation of a `VolumeStore` holds the lock of its volume's name from beginning to
end, and the global lock for each access to the maps. The calls of the drivers take any
time and may fail. The steps of an operation are the accesses to the maps and the calls
of the drivers.
-/

namespace Moby.Volume

open Moby.Framework

abbrev Labels := List (String × String)

/-- What is called. `Create` is `CreateWithRef` without a reference, and the volumes given
to `Remove` and `Dereference` are told by their names and drivers. -/
inductive Op
  | create (name driverName ref : String) (labels : Labels)
  | get (name : String)
  | getWithRef (name driverName ref : String)
  | remove (name driverName : String)
  | dereference (name ref : String)
  deriving DecidableEq

namespace Op

def name : Op → String
  | .create name _ _ _ => name
  | .get name => name
  | .getWithRef name _ _ => name
  | .remove name _ => name
  | .dereference name _ => name

/-- The reference that is stored with the volume, if it is not empty. -/
def ref : Op → String
  | .create _ _ ref _ => ref
  | .getWithRef _ _ ref => ref
  | _ => ""

def labels : Op → Labels
  | .create _ _ _ labels => labels
  | _ => []

/-- The driver that `GetDriver` is asked for. -/
def driver (o : Op) : String :=
  match o with
  | .create _ driverName _ _ => if driverName = "" then "local" else driverName
  | .getWithRef _ driverName _ => if driverName = "" then "local" else driverName
  | .remove _ driverName => if driverName = "" then "local" else driverName
  | _ => "local"

end Op

/-- Where an operation is. -/
inductive Point
  | idle
  /-- `s.locks.Lock(name)`. -/
  | locking (o : Op)
  /-- It has the lock of the name. -/
  | entered (o : Op)
  /-- `getVolume`. -/
  | probing (o : Op)
  /-- `volumedrivers.GetDriver`. -/
  | finding (o : Op)
  /-- `vd.Get(name)`. -/
  | asking (o : Op)
  /-- `vd.Create(name, opts)`. -/
  | creating (o : Op)
  /-- `s.labels[name] = labels`. -/
  | labelling (o : Op)
  /-- `s.db.Update`. -/
  | saving (o : Op)
  /-- `s.setNamed(v, ref)`, with the driver of the volume. -/
  | storing (o : Op) (driver : String)
  /-- `vd.Remove(vol)`. -/
  | removing (o : Op)
  /-- `s.purge(name)`. -/
  | purging (o : Op)
  /-- `s.locks.Unlock(name)`. -/
  | leaving (o : Op)
  deriving DecidableEq

/-- The operation that holds the lock of its name. -/
def Point.op : Point → Option Op
  | .idle => none
  | .locking _ => none
  | .entered o => some o
  | .probing o => some o
  | .finding o => some o
  | .asking o => some o
  | .creating o => some o
  | .labelling o => some o
  | .saving o => some o
  | .storing o _ => some o
  | .removing o => some o
  | .purging o => some o
  | .leaving o => some o

/-- The operation that has found no references and does not want any to come. -/
def Point.clear : Point → Option Op
  | .finding (.remove name driverName) => some (.remove name driverName)
  | .removing o => some o
  | .purging o => some o
  | _ => none

theorem Point.op_of_clear {p : Point} {o : Op} (h : p.clear = some o) : p.op = some o := by
  unfold Point.clear at h
  split at h
  all_goals first
    | exact h
    | cases h

structure System (ι : Type) where
  lock : String → Option ι
  /-- The global lock will not be released any more. -/
  stuck : Bool
  names : String → Option String
  refs : String → List String
  labels : String → Option Labels
  db : Option (String → Option Labels)
  point : ι → Point
  /-- The references that have been added and not been taken away by `Dereference`. -/
  added : String → List String

inductive Event (ι : Type)
  | call (t : ι) (o : Op)
  | lock (t : ι)
  /-- What does not ask a driver or the database. -/
  | step (t : ι)
  /-- A driver or the database answers: with an error, or with the name of a driver
  where one is looked for. -/
  | answer (t : ι) (r : Option String)
  deriving DecidableEq

variable {ι : Type}

namespace System

/-- A store, with a database or without. -/
def new (db : Option (String → Option Labels)) : System ι :=
  { lock := fun _ => none, stuck := false, names := fun _ => none, refs := fun _ => [], labels := fun _ => none,
    db := db, point := fun _ => .idle, added := fun _ => [] }

def setNamed (s : System ι) (o : Op) (driver : String) : System ι :=
  let s := { s with names := Function.update s.names o.name (some driver) }
  if o.ref ≠ "" then
    { s with
      refs := Function.update s.refs o.name (s.refs o.name ++ [o.ref])
      added := Function.update s.added o.name (s.added o.name ++ [o.ref]) }
  else s

/-- The database is not there to be asked: the global lock stays locked. -/
def purge (s : System ι) (name : String) : System ι :=
  { s with
    names := Function.update s.names name none
    refs := Function.update s.refs name []
    labels := Function.update s.labels name none
    stuck := s.db.isNone
    db := s.db.map fun db => Function.update db name none }

def dereference (s : System ι) (name ref : String) : System ι :=
  { s with
    refs := Function.update s.refs name ((s.refs name).filter (· ≠ ref))
    added := Function.update s.added name ((s.added name).filter (· ≠ ref)) }

section

variable [DecidableEq ι]

def move (s : System ι) (t : ι) (p : Point) : System ι := { s with point := Function.update s.point t p }

/-- The operation has the lock of its name. -/
def enter (s : System ι) (t : ι) (o : Op) : System ι :=
  match o with
  | .create name driverName _ _ =>
    match s.names name with
    | some driver =>
      if driver ≠ driverName ∧ driverName ≠ "" ∧ driverName ≠ "local" then s.move t (.leaving o)
      else s.move t (.storing o driver)
    | none => if driverName = "" then s.move t (.probing o) else s.move t (.finding o)
  | .get _ => s.move t (.probing o)
  | .getWithRef _ _ _ => s.move t (.finding o)
  | .remove name _ => if s.refs name ≠ [] then s.move t (.leaving o) else s.move t (.finding o)
  | .dereference name ref => (s.dereference name ref).move t (.leaving o)

def step (s : System ι) (t : ι) : Option (System ι) :=
  match s.point t with
  | .entered o => if s.stuck then none else some (s.enter t o)
  | .labelling o =>
    if s.stuck then none
    else some { s.move t (.saving o) with labels := Function.update s.labels o.name (some o.labels) }
  | .storing o driver => if s.stuck then none else some ((s.setNamed o driver).move t (.leaving o))
  | .purging o => if s.stuck then none else some ((s.purge o.name).move t (.leaving o))
  | .leaving o => some { s.move t .idle with lock := Function.update s.lock o.name none }
  | _ => none

/-- `getVolume` asks the driver that is stored, or all of them. -/
def probe (s : System ι) (t : ι) (o : Op) (r : Option String) : Option (System ι) :=
  match s.names o.name, r with
  | _, none =>
    match o with
    | .create _ _ _ _ => some (s.move t (.finding o))
    | _ => some (s.move t (.leaving o))
  | none, some driver => some (s.move t (.storing o driver))
  | some driver, some driver' => if driver = driver' then some (s.move t (.storing o driver)) else none

def answer (s : System ι) (t : ι) (r : Option String) : Option (System ι) :=
  match s.point t with
  | .probing o => if s.stuck then none else s.probe t o r
  | .finding o =>
    match r, o with
    | none, _ => some (s.move t (.leaving o))
    | some _, .remove _ _ => some (s.move t (.removing o))
    | some _, _ => some (s.move t (.asking o))
  | .asking o =>
    match r, o with
    | some _, _ => some (s.move t (.storing o o.driver))
    | none, .create _ _ _ _ => some (s.move t (.creating o))
    | none, _ => some (s.move t (.leaving o))
  | .creating o => some (s.move t (if r.isSome then .labelling o else .leaving o))
  | .saving o =>
    match s.db with
    | none => some (s.move t (.storing o o.driver))
    | some db =>
      if r.isSome then
        some { s.move t (.storing o o.driver) with db := some (Function.update db o.name (some o.labels)) }
      else some (s.move t (.leaving o))
  | .removing o => some (s.move t (if r.isSome then .purging o else .leaving o))
  | _ => none

def exec (s : System ι) : Event ι → Option (System ι)
  | .call t o => if s.point t = .idle then some (s.move t (.locking o)) else none
  | .lock t =>
    match s.point t with
    | .locking o =>
      if s.lock o.name = none then some { s.move t (.entered o) with lock := Function.update s.lock o.name (some t) }
      else none
    | _ => none
  | .step t => s.step t
  | .answer t r => s.answer t r

end

/-- While a driver removes a volume there are no references to it, and the references are
those that have been added and not been taken away. -/
structure Ok (s : System ι) : Prop where
  removing : ∀ t o, s.point t = .removing o → s.refs o.name = []
  added : ∀ name, s.refs name = s.added name

/-! ## What the holder of a lock does -/

/-- The lock of a name is held by the operation on it, so that nothing is added to a
volume that is about to be removed. -/
structure Inv (s : System ι) : Prop where
  holds : ∀ t o, (s.point t).op = some o → s.lock o.name = some t
  clear : ∀ t o, (s.point t).clear = some o → s.refs o.name = []
  added : ∀ name, s.refs name = s.added name

theorem Inv.ok {s : System ι} (h : s.Inv) : s.Ok where
  removing t o ht := h.clear t o (by rw [ht]; rfl)
  added := h.added

/-- Two operations that are both under way are on different names. -/
theorem Inv.name_ne {s : System ι} (hs : s.Inv) {t u : ι} {o o' : Op} (ho : (s.point t).op = some o)
    (ho' : (s.point u).op = some o') (hne : u ≠ t) : o'.name ≠ o.name := by
  intro hname
  have hlock := hs.holds u o' ho'
  rw [hname, hs.holds t o ho] at hlock
  exact hne (Option.some.inj hlock).symm

theorem inv_new (db : Option (String → Option Labels)) : (new db : System ι).Inv where
  holds := by simp [new, Point.op]
  clear := by simp [new, Point.clear]
  added := by simp [new]

section

variable [DecidableEq ι]

/-- `t`, which holds the lock of `o`'s name, comes to `p`. Only the references to this
volume may change. -/
structure Moves (s : System ι) (t : ι) (o : Op) (p : Point) (s' : System ι) : Prop where
  point : s'.point = Function.update s.point t p
  lock : s'.lock = s.lock
  op : p.op = some o
  others : ∀ name, name ≠ o.name → s'.refs name = s.refs name
  clear : p.clear = some o → s'.refs o.name = []
  added : (∀ name, s.refs name = s.added name) → ∀ name, s'.refs name = s'.added name

variable {s s' : System ι} {t : ι} {o : Op} {p : Point}

/-- A step that changes no references and does not begin a removal. -/
theorem Moves.of_clear (hpoint : s'.point = Function.update s.point t p) (hlock : s'.lock = s.lock)
    (hop : p.op = some o) (hclear : p.clear = some o → s.refs o.name = []) (hrefs : s'.refs = s.refs)
    (hadded : s'.added = s.added) : s.Moves t o p s' where
  point := hpoint
  lock := hlock
  op := hop
  others name _ := by rw [hrefs]
  clear h := by rw [hrefs]; exact hclear h
  added h name := by rw [hrefs, hadded]; exact h name

theorem move_moves (hop : p.op = some o) (hclear : p.clear = some o → s.refs o.name = []) :
    s.Moves t o p (s.move t p) := .of_clear rfl rfl hop hclear rfl rfl

theorem move_some (hop : p.op = some o) (hclear : p.clear = none) : ∃ q, s.Moves t o q (s.move t p) :=
  ⟨p, move_moves hop fun h => nomatch hclear.symm.trans h⟩

theorem Moves.inv (h : s.Moves t o p s') (hs : s.Inv) (ho : (s.point t).op = some o) : s'.Inv where
  holds u o' hu := by
    rw [h.lock]
    rw [h.point] at hu
    by_cases hut : u = t
    · subst hut
      rw [Function.update_self, h.op] at hu
      cases hu
      exact hs.holds u o ho
    · rw [Function.update_of_ne hut] at hu
      exact hs.holds u o' hu
  clear u o' hu := by
    rw [h.point] at hu
    by_cases hut : u = t
    · subst hut
      rw [Function.update_self] at hu
      have ho' := Point.op_of_clear hu
      rw [h.op] at ho'
      cases ho'
      exact h.clear hu
    · rw [Function.update_of_ne hut] at hu
      -- another thread holds the lock of another name
      rw [h.others _ (hs.name_ne ho (Point.op_of_clear hu) hut)]
      exact hs.clear u o' hu
  added := h.added hs.added

theorem setNamed_moves (s : System ι) (t : ι) (o : Op) (driver : String) :
    s.Moves t o (.leaving o) ((s.setNamed o driver).move t (.leaving o)) := by
  unfold setNamed
  split
  · refine ⟨rfl, rfl, rfl, fun name hne => ?_, (fun h => nomatch h), fun hadded name => ?_⟩
    · exact Function.update_of_ne hne _ _
    · show Function.update s.refs _ _ name = Function.update s.added _ _ name
      by_cases hname : name = o.name
      · rw [hname, Function.update_self, Function.update_self, hadded]
      · rw [Function.update_of_ne hname, Function.update_of_ne hname, hadded]
  · exact .of_clear rfl rfl rfl (fun h => nomatch h) rfl rfl

/-- Nothing is lost with the list of references, as it is empty. -/
theorem purge_moves (hrefs : s.refs o.name = []) :
    s.Moves t o (.leaving o) ((s.purge o.name).move t (.leaving o)) := by
  refine .of_clear rfl rfl rfl (fun h => nomatch h) ?_ rfl
  show Function.update s.refs o.name [] = s.refs
  rw [← hrefs, Function.update_eq_self]

theorem dereference_moves (s : System ι) (t : ι) (name ref : String) :
    s.Moves t (.dereference name ref) (.leaving (.dereference name ref))
      ((s.dereference name ref).move t (.leaving (.dereference name ref))) := by
  refine ⟨rfl, rfl, rfl, fun name' hne => ?_, (fun h => nomatch h), fun hadded name' => ?_⟩
  · exact Function.update_of_ne hne _ _
  · show Function.update s.refs name _ name' = Function.update s.added name _ name'
    by_cases hname : name' = name
    · rw [hname, Function.update_self, Function.update_self, hadded]
    · rw [Function.update_of_ne hname, Function.update_of_ne hname, hadded]

/-- A removal goes on only if there are no references. -/
theorem enter_moves (s : System ι) (t : ι) (o : Op) : ∃ p, s.Moves t o p (s.enter t o) := by
  cases o with
  | create name driverName ref labels =>
    simp only [enter]
    split
    · split
      · exact move_some rfl rfl
      · exact move_some rfl rfl
    · split
      · exact move_some rfl rfl
      · exact move_some rfl rfl
  | get name => exact move_some rfl rfl
  | getWithRef name driverName ref => exact move_some rfl rfl
  | remove name driverName =>
    simp only [enter]
    split
    · exact move_some rfl rfl
    · rename_i hrefs
      exact ⟨_, move_moves rfl fun _ => not_not.mp hrefs⟩
  | dereference name ref => exact ⟨_, dereference_moves s t name ref⟩

theorem probe_moves {r : Option String} (he : s.probe t o r = some s') : ∃ p, s.Moves t o p s' := by
  unfold probe at he
  split at he
  · split at he
    · cases he
      exact move_some rfl rfl
    · cases he
      exact move_some rfl rfl
  · cases he
    exact move_some rfl rfl
  · split at he
    · cases he
      exact move_some rfl rfl
    · cases he

/-- The answer of a driver, or of the database. -/
theorem answer_moves {r : Option String} (hs : s.Inv) (he : s.answer t r = some s') :
    ∃ o, (s.point t).op = some o ∧ ∃ p, s.Moves t o p s' := by
  unfold answer at he
  split at he
  · rename_i o hp
    refine ⟨o, by rw [hp]; rfl, ?_⟩
    split at he
    · cases he
    · exact probe_moves he
  · rename_i o hp
    refine ⟨o, by rw [hp]; rfl, ?_⟩
    split at he
    · cases he
      exact move_some rfl rfl
    · cases he
      exact ⟨_, move_moves rfl fun _ => hs.clear t _ (by rw [hp]; rfl)⟩
    · cases he
      exact move_some rfl rfl
  · rename_i o hp
    refine ⟨o, by rw [hp]; rfl, ?_⟩
    split at he
    · cases he
      exact move_some rfl rfl
    · cases he
      exact move_some rfl rfl
    · cases he
      exact move_some rfl rfl
  · rename_i o hp
    refine ⟨o, by rw [hp]; rfl, ?_⟩
    cases he
    split
    · exact move_some rfl rfl
    · exact move_some rfl rfl
  · rename_i o hp
    refine ⟨o, by rw [hp]; rfl, ?_⟩
    split at he
    · cases he
      exact move_some rfl rfl
    · split at he
      · cases he
        exact ⟨_, .of_clear rfl rfl rfl (fun h => nomatch h) rfl rfl⟩
      · cases he
        exact move_some rfl rfl
  · rename_i o hp
    refine ⟨o, by rw [hp]; rfl, ?_⟩
    cases he
    split
    · exact ⟨_, move_moves rfl fun _ => hs.clear t o (by rw [hp]; rfl)⟩
    · exact move_some rfl rfl
  · cases he

/-! ## Every run -/

/-- A step at the beginning or the end of an operation: it is enough to know who has which
lock. -/
theorem Inv.relock {lock : String → Option ι} (hs : s.Inv) (hp : p.clear = none)
    (hlock : ∀ u o, (Function.update s.point t p u).op = some o → lock o.name = some u) :
    ({ s.move t p with lock := lock } : System ι).Inv where
  holds := hlock
  clear u o hu := by
    by_cases hut : u = t
    · subst hut
      simp [move, hp] at hu
    · exact hs.clear u o (by simpa [move, hut] using hu)
  added := hs.added

theorem Inv.call (hs : s.Inv) (o : Op) : (s.move t (.locking o)).Inv := by
  refine hs.relock rfl fun u o' hu => ?_
  by_cases hut : u = t
  · subst hut
    simp [Point.op] at hu
  · exact hs.holds u o' (by simpa [hut] using hu)

/-- The lock is free, so nobody else is in the middle of an operation on this name. -/
theorem Inv.lock (hs : s.Inv) (hfree : s.lock o.name = none) :
    ({ s.move t (.entered o) with lock := Function.update s.lock o.name (some t) } : System ι).Inv := by
  refine hs.relock rfl fun u o' hu => ?_
  by_cases hut : u = t
  · subst hut
    have ho : o = o' := by simpa [Point.op] using hu
    rw [← ho]
    exact Function.update_self _ _ _
  · have hlock := hs.holds u o' (by simpa [hut] using hu)
    have hne : o'.name ≠ o.name := by
      intro hname
      rw [hname, hfree] at hlock
      cases hlock
    exact (Function.update_of_ne hne _ _).trans hlock

/-- The operation gives back the lock, which nobody else has. -/
theorem Inv.leave (hs : s.Inv) (hp : s.point t = .leaving o) :
    ({ s.move t .idle with lock := Function.update s.lock o.name none } : System ι).Inv := by
  refine hs.relock rfl fun u o' hu => ?_
  by_cases hut : u = t
  · subst hut
    simp [Point.op] at hu
  · have ho' : (s.point u).op = some o' := by simpa [hut] using hu
    have hne := hs.name_ne (by rw [hp]; rfl) ho' hut
    exact (Function.update_of_ne hne _ _).trans (hs.holds u o' ho')

theorem Inv.step (hs : s.Inv) (he : s.step t = some s') : s'.Inv := by
  unfold System.step at he
  split at he
  · rename_i o hp
    split at he
    · cases he
    · cases he
      obtain ⟨p, h⟩ := enter_moves s t o
      exact h.inv hs (by rw [hp]; rfl)
  · rename_i o hp
    split at he
    · cases he
    · cases he
      have h : s.Moves t o (.saving o) { s.move t (.saving o) with
          labels := Function.update s.labels o.name (some o.labels) } :=
        .of_clear rfl rfl rfl (fun h => nomatch h) rfl rfl
      exact h.inv hs (by rw [hp]; rfl)
  · rename_i o driver hp
    split at he
    · cases he
    · cases he
      exact (setNamed_moves s t o driver).inv hs (by rw [hp]; rfl)
  · rename_i o hp
    split at he
    · cases he
    · cases he
      have hrefs := hs.clear t o (by rw [hp]; rfl)
      exact (purge_moves hrefs).inv hs (by rw [hp]; rfl)
  · rename_i o hp
    cases he
    exact hs.leave hp
  · cases he

theorem Inv.exec {e : Event ι} (hs : s.Inv) (he : s.exec e = some s') : s'.Inv := by
  cases e with
  | call t o =>
    simp only [System.exec, Option.ite_none_right_eq_some] at he
    cases he.2
    exact hs.call o
  | lock t =>
    simp only [System.exec] at he
    split at he
    · rw [Option.ite_none_right_eq_some] at he
      cases he.2
      exact hs.lock he.1
    · cases he
  | step t => exact hs.step he
  | answer t r =>
    obtain ⟨o, ho, p, h⟩ := answer_moves hs he
    exact h.inv hs ho

/-- In every interleaving, with and without a database: a volume that a driver is
removing has no references, and no reference is lost but by `Dereference`. -/
theorem store_ok (db : Option (String → Option Labels)) (h : Reaches exec (new db) s) : s.Ok :=
  (h.inv (inv_new db) fun _ _ _ _ hs _ he => hs.exec he).ok

/-- The volume `v` is not removed while there is a reference to it, and it is when the
reference is gone; there is still one to `w`. -/
theorem store_ok_two : ∃ s : System (Fin 2), Reaches exec (new none) s ∧
    (s.point 1 = .removing (.remove "v" "local") ∧ s.refs "v" = [] ∧ s.refs "w" = ["b"]) ∧ s.Ok := by
  obtain ⟨s, h, hs⟩ := ReachesIf.of_view exec (fun _ _ => True) (new none : System (Fin 2))
    [.call 0 (.create "v" "" "a" []), .lock 0, .step 0, .answer 0 none, .answer 0 (some "local"), .answer 0 none,
      .call 1 (.remove "v" "local"), .answer 0 (some "local"), .step 0, .answer 0 none, .step 0, .step 0,
      .lock 1, .step 1, .step 1,
      .call 0 (.getWithRef "w" "local" "b"), .lock 0, .step 0, .answer 0 (some "local"), .answer 0 (some "local"),
      .step 0, .step 0, .call 0 (.dereference "v" "a"), .lock 0, .step 0, .step 0,
      .call 1 (.remove "v" "local"), .lock 1, .step 1, .answer 1 (some "local")]
    (fun s => decide (s.point 1 = .removing (.remove "v" "local") ∧ s.refs "v" = [] ∧ s.refs "w" = ["b"]))
    (b := true) (by decide +kernel)
  exact ⟨s, h, of_decide_eq_true hs, store_ok none h⟩

end

end System

end Moby.Volume
