import Moby.Framework.Nested
import Moby.Reference.Name
import Mathlib.Logic.Relation

/-!
# The reference store

`store`: the references by repository (`repositories`), which a JSON file
mirrors, and by image (`cache`), which is made from them when the store is
built. `AddTag`, `AddDigest` and `Delete` change the maps first and write the
file after that; a write may fail, and leaves the old file then.
-/

namespace Moby.Reference

open Moby.Framework

/-- `image.ID`. -/
abbrev ID := String

/-- `map[string]repository`: the images of the references of each repository. -/
abbrev Repositories := Nested String String ID

/-- The errors of the store. -/
inductive StoreErr where
  | doesNotExist
  | tagWithDigest
  | ambiguousTag
  | overwriteDigest (digest : String)
  | conflict (ref : String) (id : ID)
  | writeFailed
  | notExist
  deriving DecidableEq

/-- `store`, with its file and with the writes of it that succeed. -/
structure Store where
  env : Nat → Bool
  clock : Nat := 0
  file : Option Repositories := none
  repositories : Repositories := ∅
  cache : Nested ID String Named := ∅

namespace Store

/-- `save`. -/
def save (s : Store) : Except StoreErr Unit × Store :=
  if s.env s.clock then (.ok (), { s with clock := s.clock + 1, file := some s.repositories })
  else (.error .writeFailed, { s with clock := s.clock + 1 })

/-- The end of `addReference`: `ref` is bound to `id`, and the file is written. -/
def bindReference (s : Store) (ref : Named) (id : ID) : Except StoreErr Unit × Store :=
  save { s with
    repositories := s.repositories.set ref.name ref.string id
    cache := s.cache.set id ref.string ref }

/-- `addReference`. -/
def addReference (s : Store) (ref : Named) (id : ID) (force : Bool) : Except StoreErr Unit × Store :=
  if ref.name = "sha256" then (.error .ambiguousTag, s)
  else
    let repository := (s.repositories.lookup ref.name).getD ∅
    let s := { s with repositories := s.repositories.insert ref.name repository }
    match repository.lookup ref.string with
    | none => s.bindReference ref id
    | some oldID =>
      match ref.digest? with
      | some d => (.error (.overwriteDigest d), s)
      | none =>
        if !force then (.error (.conflict ref.string oldID), s)
        else bindReference { s with cache := s.cache.unset oldID ref.string } ref id

/-- `AddTag`. -/
def addTag (s : Store) (ref : Named) (id : ID) (force : Bool) : Except StoreErr Unit × Store :=
  if ref.digest?.isSome then (.error .tagWithDigest, s) else s.addReference ref.withDefaultTag id force

/-- `Delete`: whether the reference was there, and the error. -/
def delete (s : Store) (ref : Named) : (Bool × Except StoreErr Unit) × Store :=
  let ref := ref.withDefaultTag
  match s.repositories.lookup ref.name with
  | none => ((false, .error .doesNotExist), s)
  | some repository =>
    match repository.lookup ref.string with
    | none => ((false, .error .doesNotExist), s)
    | some id =>
      let (e, s) := save { s with
        repositories := s.repositories.unset ref.name ref.string
        cache := s.cache.unset id ref.string }
      ((true, e), s)

/-- `Get`. -/
def get (s : Store) (ref : Named) : Except StoreErr ID :=
  let ref := ref.withDefaultTag
  match s.repositories.lookup ref.name with
  | none => .error .doesNotExist
  | some repository =>
    match repository.lookup ref.string with
    | none => .error .doesNotExist
    | some id => .ok id

/-- What `References` can return: the references of an image, in the order of
their strings. -/
def References (s : Store) (id : ID) (l : List Named) : Prop :=
  (l : Multiset Named) = ((s.cache.lookup id).getD ∅).values ∧ l.Pairwise (·.string ≤ ·.string)

/-- What `ReferencesByName` can return: the references of a repository with
their images, in the order of their strings, or nothing if one of them cannot
be read. -/
def ReferencesByName (s : Store) (ref : Named) (l : List (Named × ID)) : Prop :=
  match s.repositories.lookup ref.name with
  | none => l = []
  | some repository =>
    if ∀ e ∈ repository.entries, (parseNamed e.1).toOption.isSome then
      (l : Multiset (Named × ID)) =
        repository.entries.filterMap (fun e => (parseNamed e.1).toOption.map (·, e.2)) ∧
      l.Pairwise (·.1.string ≤ ·.1.string)
    else l = []

/-- What `reload` does with a reference of the file. -/
def cacheReference (cache : Nested ID String Named) : String × ID → Nested ID String Named
  | (refStr, refID) =>
    match parseNamed refStr with
    | .error _ => cache
    | .ok ref => cache.set refID refStr ref

/-- `reload`, where the references of the file are visited in the order of
`entries`. -/
def reload (s : Store) (entries : List (String × ID)) : Except StoreErr Store :=
  match s.file with
  | none => .error .notExist
  | some repositories => .ok { s with repositories, cache := entries.foldl cacheReference s.cache }

end Store

/-- The references of all repositories, in some order. -/
def Repositories.Lists (repositories : Repositories) (entries : List (String × ID)) : Prop :=
  ∀ refStr id, (refStr, id) ∈ entries ↔ ∃ repo, repositories.at? repo refStr = some id

/-- `NewReferenceStore`. -/
def newReferenceStore (env : Nat → Bool) (file : Option Repositories) (entries : List (String × ID)) :
    Except StoreErr Store :=
  match Store.reload { env, file } entries with
  | .ok s => .ok s
  | .error .notExist =>
    match Store.save { env, file } with
    | (.ok (), s) => .ok s
    | (.error e, _) => .error e
  | .error e => .error e

/-- A call of the store. The reference of `AddDigest` is `Canonical`. -/
inductive Request where
  | addTag (ref : Named) (id : ID) (force : Bool)
  | addDigest (ref : Named) (canonical : ref.digest?.isSome = true) (id : ID) (force : Bool)
  | delete (ref : Named)

/-- What a call returns and leaves. -/
def Request.apply (s : Store) : Request → Except StoreErr Unit × Store
  | addTag ref id force => s.addTag ref id force
  | addDigest ref _ id force => s.addReference ref id force
  | delete ref => let (r, s) := s.delete ref; (r.2, s)

/-- The states that calls reach from `s₀`, where `C` holds of every call and
the state before it. -/
def Reaches (C : Store → Request → Prop) (s₀ : Store) : Store → Prop :=
  Relation.ReflTransGen (fun s s' => ∃ q, C s q ∧ (q.apply s).2 = s') s₀

/-! ## What a call does -/

/-- `addReference` gets to bind the reference. -/
def Store.Admits (s : Store) (ref : Named) (force : Bool) : Prop :=
  ref.name ≠ "sha256" ∧ (s.repositories.at? ref.name ref.string ≠ none → ref.digest? = none ∧ force = true)

/-- The call gets to write the file. -/
def Request.Writes (s : Store) : Request → Prop
  | addTag ref _ force => ref.digest? = none ∧ s.Admits ref.withDefaultTag force
  | addDigest ref _ _ force => s.Admits ref force
  | delete ref => s.repositories.at? ref.withDefaultTag.name ref.withDefaultTag.string ≠ none

/-- The call binds `ref` to `id`. -/
def Request.Adds (ref : Named) (id : ID) (force : Bool) : Request → Prop
  | addTag r id' force' => r.digest? = none ∧ ref = r.withDefaultTag ∧ id = id' ∧ force = force'
  | addDigest r _ id' force' => ref = r ∧ id = id' ∧ force = force'
  | delete _ => False

/-- What a call does to the maps before it writes the file. -/
inductive Change (s : Store) (q : Request) : Store → Prop
  | bind {ref : Named} {id : ID} {force : Bool} (hq : q.Adds ref id force) (h : s.repositories.at? ref.name ref.string = none) :
    Change s q { s with
      repositories := s.repositories.set ref.name ref.string id
      cache := s.cache.set id ref.string ref }
  | rebind {ref : Named} {id oldID : ID} (hq : q.Adds ref id true) (hd : ref.digest? = none)
    (h : s.repositories.at? ref.name ref.string = some oldID) :
    Change s q { s with
      repositories := s.repositories.set ref.name ref.string id
      cache := (s.cache.unset oldID ref.string).set id ref.string ref }
  | remove {ref : Named} {id : ID} (h : s.repositories.at? ref.name ref.string = some id) :
    Change s q { s with
      repositories := s.repositories.unset ref.name ref.string
      cache := s.cache.unset id ref.string }

theorem Store.addReference_cases (s : Store) {q : Request} {ref : Named} {id : ID} {force : Bool}
    (hq : q.Adds ref id force) :
    (¬ s.Admits ref force ∧ ∃ e, s.addReference ref id force = (.error e, s)) ∨
    s.Admits ref force ∧ ∃ s₁, Change s q s₁ ∧ s.addReference ref id force = s₁.save := by
  unfold addReference
  by_cases hname : ref.name = "sha256"
  · rw [if_pos hname]
    exact .inl ⟨fun h => h.1 hname, _, rfl⟩
  · rw [if_neg hname]
    simp only [Nested.lookup_getD]
    cases hat : s.repositories.at? ref.name ref.string with
    | none =>
      refine .inr ⟨⟨hname, fun h => absurd hat h⟩, _, .bind hq hat, ?_⟩
      simp only [bindReference, Nested.set_insert_getD]
    | some oldID =>
      have hmem : ref.name ∈ s.repositories := by
        by_contra hn
        rw [Nested.at?_of_lookup_none (Finmap.lookup_eq_none.mpr hn)] at hat
        cases hat
      simp only [Nested.insert_getD hmem]
      cases hd : ref.digest? with
      | some d =>
        refine .inl ⟨fun h => ?_, _, rfl⟩
        cases hd.symm.trans (h.2 (by simp [hat])).1
      | none =>
        cases force with
        | false =>
          refine .inl ⟨fun h => ?_, _, rfl⟩
          cases (h.2 (by simp [hat])).2
        | true => exact .inr ⟨⟨hname, fun _ => ⟨hd, rfl⟩⟩, _, .rebind hq hd hat, rfl⟩

/-- A call fails and changes nothing, or it changes the maps and writes the
file. -/
theorem Request.apply_cases (s : Store) (q : Request) :
    (¬ q.Writes s ∧ ∃ e, q.apply s = (.error e, s)) ∨
    q.Writes s ∧ ∃ s₁, Change s q s₁ ∧ q.apply s = s₁.save := by
  cases q with
  | addTag ref id force =>
    simp only [apply, Store.addTag]
    cases hd : ref.digest? with
    | some d =>
      refine .inl ⟨fun h => ?_, .tagWithDigest, rfl⟩
      cases hd.symm.trans h.1
    | none =>
      rcases s.addReference_cases (q := .addTag ref id force) ⟨hd, rfl, rfl, rfl⟩ with ⟨hn, e, he⟩ | ⟨hy, s₁, hc, he⟩
      · exact .inl ⟨fun h => hn h.2, e, he⟩
      · exact .inr ⟨⟨hd, hy⟩, s₁, hc, he⟩
  | addDigest ref hd id force => exact s.addReference_cases (q := .addDigest ref hd id force) ⟨rfl, rfl, rfl⟩
  | delete ref =>
    unfold apply Store.delete
    simp only
    cases hl : s.repositories.lookup ref.withDefaultTag.name with
    | none => exact .inl ⟨fun h => h (Nested.at?_of_lookup_none hl _), _, rfl⟩
    | some repository =>
      have hat := Nested.at?_of_lookup hl ref.withDefaultTag.string
      cases hr : repository.lookup ref.withDefaultTag.string with
      | none => exact .inl ⟨fun h => h (hat.trans hr), .doesNotExist, by simp only [hr]⟩
      | some id =>
        refine .inr ⟨fun h => ?_, _, .remove (hat.trans hr), by simp only [hr]⟩
        cases (hat.trans hr).symm.trans h

theorem Change.same {s s₁ : Store} {q : Request} (h : Change s q s₁) : s₁.env = s.env ∧ s₁.clock = s.clock := by
  cases h <;> exact ⟨rfl, rfl⟩

theorem Store.save_cases (s : Store) :
    s.env s.clock = true ∧ s.save = (.ok (), { s with clock := s.clock + 1, file := some s.repositories }) ∨
    s.env s.clock = false ∧ s.save = (.error .writeFailed, { s with clock := s.clock + 1 }) := by
  unfold save
  cases h : s.env s.clock with
  | true => exact .inl ⟨rfl, rfl⟩
  | false => exact .inr ⟨rfl, rfl⟩

theorem Store.save_maps (s : Store) : s.save.2.repositories = s.repositories ∧ s.save.2.cache = s.cache := by
  rcases s.save_cases with ⟨-, h⟩ | ⟨-, h⟩ <;> rw [h] <;> exact ⟨rfl, rfl⟩

/-- What holds at the start, and is kept by every call, holds in every state
reached. -/
theorem Reaches.inv {C : Store → Request → Prop} {I : Store → Prop} {s₀ s : Store} (h₀ : I s₀)
    (hcall : ∀ s q, C s q → I s → I (q.apply s).2) (hs : Reaches C s₀ s) : I s := by
  induction hs with
  | refl => exact h₀
  | tail _ hr ih =>
    obtain ⟨q, hC, rfl⟩ := hr
    exact hcall _ q hC ih

/-- `Reaches.inv`, for what speaks of the maps only. -/
theorem Reaches.maps {C : Store → Request → Prop} {I : Repositories → Nested ID String Named → Prop} {s₀ s : Store}
    (h₀ : I s₀.repositories s₀.cache)
    (hchange : ∀ s q s₁, C s q → Change s q s₁ → I s.repositories s.cache → I s₁.repositories s₁.cache)
    (hs : Reaches C s₀ s) : I s.repositories s.cache := by
  refine Reaches.inv (I := fun s => I s.repositories s.cache) h₀ (fun s q hC hI => ?_) hs
  rcases q.apply_cases s with ⟨-, e, he⟩ | ⟨-, s₁, hc, he⟩
  · rw [he]; exact hI
  · rw [he, s₁.save_maps.1, s₁.save_maps.2]
    exact hchange s q s₁ hC hc hI

/-! ## What a store starts with -/

/-- What `reload` caches. -/
theorem at?_foldl_cacheReference (entries : List (String × ID)) (cache : Nested ID String Named) (id : ID) (str : String) :
    (entries.foldl Store.cacheReference cache).at? id str =
      if (str, id) ∈ entries ∧ (parseNamed str).toOption.isSome then (parseNamed str).toOption
      else cache.at? id str := by
  induction entries generalizing cache with
  | nil => simp
  | cons e entries ih =>
    obtain ⟨str', id'⟩ := e
    rw [List.foldl_cons, ih, Store.cacheReference]
    cases hp : parseNamed str' with
    | error err =>
      simp only [List.mem_cons, Prod.mk.injEq]
      by_cases he : str = str' ∧ id = id'
      · simp [he.1, hp, Except.toOption]
      · simp [he]
    | ok ref =>
      simp only [List.mem_cons, Prod.mk.injEq, Nested.at?_set]
      by_cases he : str = str' ∧ id = id'
      · simp [he.1, he.2, hp, Except.toOption]
      · have he' : ¬ (id = id' ∧ str = str') := fun h => he h.symm
        simp [he, he']

theorem filled_foldl_cacheReference {entries : List (String × ID)} {cache : Nested ID String Named} (h : cache.Filled) :
    Nested.Filled (entries.foldl Store.cacheReference cache) := by
  induction entries generalizing cache with
  | nil => exact h
  | cons e entries ih =>
    have hc : Nested.Filled (Store.cacheReference cache e) := by
      cases hp : parseNamed e.1 with
      | error err => simp only [Store.cacheReference, hp]; exact h
      | ok ref => simp only [Store.cacheReference, hp]; exact h.set e.2 e.1 ref
    rw [List.foldl_cons]
    exact ih hc

/-- A store starts with nothing, or with what the file has. -/
theorem newReferenceStore_ok {env : Nat → Bool} {file : Option Repositories} {entries : List (String × ID)} {s : Store}
    (h : newReferenceStore env file entries = .ok s) : s.file = some s.repositories ∧
    (file = none ∧ s.repositories = ∅ ∧ s.cache = ∅ ∨
      file = some s.repositories ∧ s.cache = entries.foldl Store.cacheReference ∅) := by
  unfold newReferenceStore Store.reload at h
  cases file with
  | some m => cases h; exact ⟨rfl, .inr ⟨rfl, rfl⟩⟩
  | none =>
    rcases Store.save_cases { env, file := none } with ⟨-, he⟩ | ⟨-, he⟩ <;> simp only [he] at h <;> cases h
    exact ⟨rfl, .inl ⟨rfl, rfl, rfl⟩⟩

end Moby.Reference
