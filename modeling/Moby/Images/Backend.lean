import Moby.Digest
import Moby.Framework.Map

/-!
# The image backend

The file system store of images (`fs`): a content file for every image, named
by the digest of what it holds, and a directory of metadata files. A write or
a removal of a file can fail (`Backend.env`), and has no effect then:
`AtomicWriteFile` renames a temporary file. A file that is there can be read.
-/

namespace Moby.Images

open Moby.Framework Moby.Digest

/-- The content-addressable ID of an image, a digest. -/
abbrev ID := String

/-- The writes and removals that can fail. -/
inductive Op where
  | writeContent
  | removeContent
  | mkdirMetadata
  | writeMetadata
  | removeMetadata
  | removeKey (id : ID)
  deriving DecidableEq

/-- The errors of the backend. -/
inductive BackendErr where
  /-- The panic of `Digest.Algorithm`, for an ID that is no digest. -/
  | noSeparator
  | notExist
  | failedToVerify (id : ID)
  | emptyData
  | failed (op : Op)
  deriving DecidableEq

/-- The files of the backend, and whether a write at a time succeeds. -/
structure Backend where
  env : Nat → Op → Bool
  clock : Nat := 0
  content : Map ID (List UInt8) := ∅
  metadata : ID → Map String String := fun _ => ∅

namespace Backend

def tick (b : Backend) : Backend := { b with clock := b.clock + 1 }

/-- A write or removal, with an effect if it succeeds. -/
def attempt (b : Backend) (op : Op) (effect : Backend → Backend) : Except BackendErr Unit × Backend :=
  if b.env b.clock op then (.ok (), effect b.tick) else (.error (.failed op), b.tick)

/-- `Get`: the content, whose digest is the ID. -/
def get (H : Hash) (b : Backend) (id : ID) : Except BackendErr (List UInt8) :=
  if ':' ∉ id.toList then .error .noSeparator
  else
    match b.content.lookup id with
    | none => .error .notExist
    | some content => if H.fromBytes content ≠ id then .error (.failedToVerify id) else .ok content

/-- `Set`. -/
def set (H : Hash) (b : Backend) (data : List UInt8) : Except BackendErr ID × Backend :=
  if data.length = 0 then (.error .emptyData, b)
  else
    let id := H.fromBytes data
    match b.attempt .writeContent fun b => { b with content := b.content.insert id data } with
    | (.error e, b) => (.error e, b)
    | (.ok (), b) => (.ok id, b)

/-- `Delete`. -/
def delete (b : Backend) (id : ID) : Except BackendErr Unit × Backend :=
  match b.attempt .removeMetadata fun b => { b with metadata := Function.update b.metadata id ∅ } with
  | (.error e, b) => (.error e, b)
  | (.ok (), b) =>
    if id ∉ b.content then (.error .notExist, b)
    else b.attempt .removeContent fun b => { b with content := b.content.erase id }

/-- `SetMetadata`. -/
def setMetadata (H : Hash) (b : Backend) (id : ID) (key data : String) : Except BackendErr Unit × Backend :=
  match b.get H id with
  | .error e => (.error e, b)
  | .ok _ =>
    match b.attempt .mkdirMetadata fun b => b with
    | (.error e, b) => (.error e, b)
    | (.ok (), b) => b.attempt .writeMetadata fun b =>
      { b with metadata := Function.update b.metadata id ((b.metadata id).insert key data) }

/-- `GetMetadata`. -/
def getMetadata (H : Hash) (b : Backend) (id : ID) (key : String) : Except BackendErr String :=
  match b.get H id with
  | .error e => .error e
  | .ok _ =>
    match (b.metadata id).lookup key with
    | none => .error .notExist
    | some data => .ok data

/-- `DeleteMetadata`, called for each of the images `ids`, in any order: each
removal succeeds or fails for itself. -/
def deleteEach (b : Backend) (ids : Finset ID) (key : String) : Backend :=
  { b.tick with metadata := fun id =>
      if id ∈ ids ∧ b.env b.clock (.removeKey id) then (b.metadata id).erase key else b.metadata id }

/-- A listing of the directory of content files, as `Walk` uses it: the names
that are valid digests of the canonical algorithm. -/
def Lists (b : Backend) (ids : List ID) : Prop :=
  ids.Nodup ∧ ∀ id, id ∈ ids ↔ id ∈ b.content ∧ algorithm id = "sha256" ∧ validate id = .ok ()

/-! ## What the operations do -/

section

variable {H : Hash} {b : Backend} {id : ID}

theorem get_ok {content : List UInt8} :
    b.get H id = .ok content ↔ b.content.lookup id = some content ∧ H.fromBytes content = id := by
  unfold get
  by_cases hid : ':' ∉ id.toList
  · rw [if_pos hid]
    exact ⟨nofun, fun ⟨_, h⟩ => absurd (h ▸ colon_mem_fromBytes H content) hid⟩
  rw [if_neg hid]
  cases b.content.lookup id with
  | none => exact ⟨nofun, nofun⟩
  | some c =>
    by_cases h : H.fromBytes c = id
    · simp only [h, ne_eq, not_true_eq_false, if_false]
      exact ⟨fun e => by cases e; exact ⟨rfl, h⟩, fun ⟨e, _⟩ => by cases e; rfl⟩
    · simp only [h, ne_eq, not_false_eq_true, if_true]
      exact ⟨nofun, fun ⟨e, h'⟩ => by cases e; exact absurd h' h⟩

/-- The backends differ in the clock only. -/
structure SameFiles (b b' : Backend) : Prop where
  env : b'.env = b.env
  content : b'.content = b.content
  metadata : b'.metadata = b.metadata

/-- `Set` fails without an effect, or it writes the content file. -/
theorem set_cases (data : List UInt8) :
    (data.length = 0 ∨ b.env b.clock .writeContent = false) ∧
      (∃ e b', b.set H data = (.error e, b') ∧ SameFiles b b') ∨
    data.length ≠ 0 ∧ b.env b.clock .writeContent = true ∧ b.set H data = (.ok (H.fromBytes data),
      { b.tick with content := b.content.insert (H.fromBytes data) data }) := by
  by_cases hd : data.length = 0
  · exact .inl ⟨.inl hd, _, _, if_pos hd, rfl, rfl, rfl⟩
  · cases he : b.env b.clock .writeContent with
    | false => exact .inl ⟨.inr rfl, .failed .writeContent, b.tick, by simp [set, attempt, hd, he], rfl, rfl, rfl⟩
    | true => exact .inr ⟨hd, rfl, by simp only [set, attempt, hd, he, if_false, if_true]; rfl⟩

theorem attempt_content (b : Backend) (op : Op) {effect : Backend → Backend} (h : ∀ b, (effect b).content = b.content) :
    (b.attempt op effect).2.content = b.content := by
  unfold attempt
  split
  · exact h b.tick
  · rfl

theorem setMetadata_content (b : Backend) (H : Hash) (id : ID) (key data : String) :
    (b.setMetadata H id key data).2.content = b.content := by
  unfold setMetadata
  cases b.get H id with
  | error e => rfl
  | ok c =>
    have hdir := b.attempt_content .mkdirMetadata (fun b => rfl : ∀ b : Backend, b.content = b.content)
    rcases e : b.attempt .mkdirMetadata fun b => b with ⟨_ | _, b₁⟩ <;> simp only [e] at hdir ⊢
    · exact hdir
    · rw [← hdir]
      exact b₁.attempt_content .writeMetadata fun _ => rfl

/-- `SetMetadata` that fails writes nothing. -/
theorem setMetadata_error {b' : Backend} {key data : String} {e : BackendErr}
    (h : b.setMetadata H id key data = (.error e, b')) : b'.metadata = b.metadata := by
  unfold setMetadata at h
  cases hget : b.get H id with
  | error e' =>
    rw [hget] at h
    cases h
    rfl
  | ok content =>
    simp only [hget, attempt] at h
    by_cases hdir : b.env b.clock .mkdirMetadata = true
    · simp only [hdir, if_true] at h
      split at h
      · cases h
      · cases h
        rfl
    · simp only [hdir] at h
      cases h
      rfl

end

end Backend

end Moby.Images
