import Mathlib.Data.Nat.Notation
import Mathlib.Logic.Function.Basic

/-!
# A container on disk (container/container.go)

`ToDisk` writes the configuration of a container and its host configuration, each to a temporary
file that takes the place of the file when its writer is closed. The writers are closed by
deferred calls, whose errors are dropped, and which replace the file also where nothing could be
encoded. What `ToDisk` returns says what happened to the files if the step that fails is one before
the first file has been written (`toDisk_iff`).
-/

namespace Moby.Container.OnDisk

abbrev Bytes := List UInt8

/-- `config.v2.json` and `hostconfig.json`. -/
inductive File
  | config
  | hostConfig
  deriving DecidableEq

/-- A file system call, or an encoding, that may fail. -/
inductive Op
  /-- `ConfigPath` or `HostConfigPath`. -/
  | path
  /-- `ioutil.TempFile`. -/
  | create
  /-- `filepath.Abs`. -/
  | abs
  | encode
  /-- `Write`, after some bytes. -/
  | write (written : ℕ)
  | sync
  | close
  | chmod
  | rename
  deriving DecidableEq

/-- A call for one of the files. -/
structure Step where
  file : File
  op : Op
  deriving DecidableEq

/-- The two files, and the temporary file that is to take the place of each. -/
structure Disk where
  file : File → Option Bytes
  temp : File → Option Bytes

/-! ## The writer -/

/-- `atomicFileWriter`. -/
structure AtomicFileWriter where
  f : File
  writeErr : Bool

section

variable (fail : Option Step)

/-- `NewAtomicFileWriter`. The step `fail`, if there is one, fails. -/
def newAtomicFileWriter (f : File) (d : Disk) : Disk × Except Step AtomicFileWriter :=
  if fail = some ⟨f, .create⟩ then (d, .error ⟨f, .create⟩)
  else
    let d := { d with temp := Function.update d.temp f (some []) }
    if fail = some ⟨f, .abs⟩ then (d, .error ⟨f, .abs⟩) else (d, .ok ⟨f, false⟩)

/-- `Write`. -/
def write (w : AtomicFileWriter) (dt : Bytes) (d : Disk) : AtomicFileWriter × Disk × Option Step :=
  let put (bs : Bytes) := { d with temp := Function.update d.temp w.f ((d.temp w.f).map (· ++ bs)) }
  match fail with
  | some ⟨f, .write written⟩ =>
    if f = w.f then ({ w with writeErr := true }, put (dt.take written), some ⟨f, .write written⟩) else (w, put dt, none)
  | _ => (w, put dt, none)

/-- `Close`, with its own deferred removal of the temporary file. -/
def close (w : AtomicFileWriter) (d : Disk) : Disk × Option Step :=
  let (d, retErr) :=
    if fail = some ⟨w.f, .sync⟩ then (d, some ⟨w.f, .sync⟩)
    else if fail = some ⟨w.f, .close⟩ then (d, some ⟨w.f, .close⟩)
    else if fail = some ⟨w.f, .chmod⟩ then (d, some ⟨w.f, .chmod⟩)
    else if w.writeErr then (d, none)
    else if fail = some ⟨w.f, .rename⟩ then (d, some ⟨w.f, .rename⟩)
    else (⟨Function.update d.file w.f (d.temp w.f), Function.update d.temp w.f none⟩, none)
  (if retErr.isSome ∨ w.writeErr then { d with temp := Function.update d.temp w.f none } else d, retErr)

/-- A value is encoded to a file, and `next` follows before the writer is closed, whose error is not
looked at. -/
def save (f : File) (dt : Bytes) (next : Disk → Disk × Option Step) (d : Disk) : Disk × Option Step :=
  if fail = some ⟨f, .path⟩ then (d, some ⟨f, .path⟩)
  else
    match newAtomicFileWriter fail f d with
    | (d, .error e) => (d, some e)
    | (d, .ok w) =>
      let (w, d, err) :=
        if fail = some ⟨f, .encode⟩ then (w, d, some ⟨f, .encode⟩)
        else
          match write fail w dt d with
          | (w, d, some e) => (w, d, some e)
          | (w, d, none) => (w, next d)
      ((close fail w d).1, err)

end

/-! ## The container -/

/-- `encoding/json` for the values of a type. -/
structure Codec (α : Type) where
  encode : α → Bytes
  decode : Bytes → Option α
  decode_encode (a : α) : decode (encode a) = some a

/-- The part of a container that is on disk. -/
structure Saved (C H : Type) where
  config : C
  /-- The pointer may be nil. -/
  hostConfig : Option H

variable {C H : Type} (config : Codec C) (hostConfig : Codec (Option H))

/-- `WriteHostConfig`. -/
def writeHostConfig (fail : Option Step) (c : Saved C H) (d : Disk) : Disk × Option Step :=
  save fail .hostConfig (hostConfig.encode c.hostConfig) (fun d => (d, none)) d

/-- `ToDisk`. -/
def toDisk (fail : Option Step) (c : Saved C H) (d : Disk) : Disk × Option Step :=
  save fail .config (config.encode c.config) (writeHostConfig hostConfig fail c) d

/-- What `FromDisk` ends with, other than a container. -/
inductive LoadError
  | notExist
  | malformed
  /-- `InitDNSHostConfig` of a nil pointer. -/
  | panic
  deriving DecidableEq

/-- `readHostConfig`. -/
def readHostConfig [Inhabited H] (d : Disk) : Except LoadError (Option H) :=
  match d.file .hostConfig with
  | none => .ok (some default)
  | some dt =>
    match hostConfig.decode dt with
    | none => .error .malformed
    | some none => .error .panic
    | some (some h) => .ok (some h)

/-- `FromDisk`, of a new container. -/
def fromDisk [Inhabited H] (d : Disk) : Except LoadError (Saved C H) :=
  match d.file .config with
  | none => .error .notExist
  | some dt =>
    match config.decode dt with
    | none => .error .malformed
    | some c => (readHostConfig hostConfig d).map fun h => ⟨c, h⟩

/-! ## What is left on disk -/

/-- The two files and the error after `ToDisk`. -/
def outcome (fail : Option Step) (c : Saved C H) (d : Disk) : Option Bytes × Option Bytes × Option Step :=
  let dt := config.encode c.config
  let hdt := hostConfig.encode c.hostConfig
  match fail with
  | none => (some dt, some hdt, none)
  | some ⟨.config, op⟩ =>
    match op with
    | .path | .create | .abs | .write _ => (d.file .config, d.file .hostConfig, fail)
    -- an empty file takes the place of the old one
    | .encode => (some [], d.file .hostConfig, fail)
    | .sync | .close | .chmod | .rename => (d.file .config, some hdt, none)
  | some ⟨.hostConfig, op⟩ =>
    match op with
    | .path | .create | .abs | .write _ => (some dt, d.file .hostConfig, fail)
    | .encode => (some dt, some [], fail)
    | .sync | .close | .chmod | .rename => (some dt, d.file .hostConfig, none)

theorem toDisk_outcome (fail : Option Step) (c : Saved C H) (d : Disk) :
    let r := toDisk config hostConfig fail c d
    (r.1.file .config, r.1.file .hostConfig, r.2) = outcome config hostConfig fail c d := by
  rcases fail with _ | ⟨f, op⟩
  · rfl
  · cases f <;> cases op <;> rfl

/-- A file of configuration says `c`. -/
def ConfigReads (dt : Option Bytes) (c : C) : Prop := dt.bind config.decode = some c

/-- A file of host configuration says `h`, where one that is missing says the default. -/
def HostConfigReads [Inhabited H] (dt : Option Bytes) (h : Option H) : Prop :=
  match dt with
  | none => h = some default
  | some dt => h ≠ none ∧ hostConfig.decode dt = some h

theorem readHostConfig_eq_ok [Inhabited H] {d : Disk} {h : Option H} : readHostConfig hostConfig d = .ok h ↔
    HostConfigReads hostConfig (d.file .hostConfig) h := by
  unfold readHostConfig HostConfigReads
  cases d.file .hostConfig with
  | none => simp [eq_comm]
  | some dt =>
    rcases hdt : hostConfig.decode dt with _ | _ | x
    · simp [hdt]
    · simp only [hdt, reduceCtorEq, Option.some.injEq, false_iff, not_and]
      exact fun hne hnone => hne hnone.symm
    · simp only [hdt, Except.ok.injEq, Option.some.injEq]
      constructor
      · rintro rfl
        simp
      · exact fun h => h.2

theorem fromDisk_eq_ok [Inhabited H] {d : Disk} {c : Saved C H} : fromDisk config hostConfig d = .ok c ↔
    ConfigReads config (d.file .config) c.config ∧ HostConfigReads hostConfig (d.file .hostConfig) c.hostConfig := by
  obtain ⟨cfg, h⟩ := c
  rw [← readHostConfig_eq_ok]
  unfold fromDisk ConfigReads
  cases d.file .config with
  | none => simp
  | some dt =>
    cases hdt : config.decode dt with
    | none => simp [hdt]
    | some cfg' => cases readHostConfig hostConfig d <;> simp [hdt, Except.map]

/-- The result of `ToDisk` says what happened: it is nil only if the container can be read back, and an error
only if the files are as they were. -/
def Reported [Inhabited H] (c : Saved C H) (d : Disk) (r : Disk × Option Step) : Prop :=
  (r.2 = none → fromDisk config hostConfig r.1 = .ok c) ∧ (r.2 ≠ none → ∀ f, r.1.file f = d.file f)

/-- When it does: the step that fails is one before the file of the configuration has been written, or
the files hold already what they are about to lose or to get. -/
def Early [Inhabited H] (fail : Option Step) (c : Saved C H) (d : Disk) : Prop :=
  match fail with
  | none => c.hostConfig ≠ none
  | some ⟨.config, op⟩ =>
    match op with
    | .path | .create | .abs | .write _ => True
    | .encode => d.file .config = some []
    | .sync | .close | .chmod | .rename => ConfigReads config (d.file .config) c.config ∧ c.hostConfig ≠ none
  | some ⟨.hostConfig, op⟩ =>
    match op with
    | .path | .create | .abs | .write _ => d.file .config = some (config.encode c.config)
    | .encode => d.file .config = some (config.encode c.config) ∧ d.file .hostConfig = some []
    | .sync | .close | .chmod | .rename => HostConfigReads hostConfig (d.file .hostConfig) c.hostConfig

/-- For every container, every state of the disk and at most one step that fails. -/
theorem toDisk_iff [Inhabited H] (fail : Option Step) (c : Saved C H) (d : Disk) :
    Reported config hostConfig c d (toDisk config hostConfig fail c d) ↔ Early config hostConfig fail c d := by
  have hout := toDisk_outcome config hostConfig fail c d
  have hc : ConfigReads config (some (config.encode c.config)) c.config := config.decode_encode _
  have hh : HostConfigReads hostConfig (some (hostConfig.encode c.hostConfig)) c.hostConfig ↔ c.hostConfig ≠ none :=
    and_iff_left (hostConfig.decode_encode _)
  have hfiles : ∀ d' : Disk, (∀ f, d'.file f = d.file f) ↔
      d'.file .config = d.file .config ∧ d'.file .hostConfig = d.file .hostConfig := fun d' =>
    ⟨fun h => ⟨h _, h _⟩, fun h f => by cases f; exacts [h.1, h.2]⟩
  simp only [Prod.ext_iff] at hout
  obtain ⟨hconfig, hhost, herr⟩ := hout
  unfold Reported
  rw [fromDisk_eq_ok, hfiles, hconfig, hhost, herr]
  rcases fail with _ | ⟨f, op⟩
  · simp [outcome, Early, hc, hh]
  · cases f <;> cases op <;> simp [outcome, Early, hc, hh, eq_comm]

/-- `true` and `false` in one byte. -/
def Codec.bool : Codec Bool where
  encode b := if b then [116] else [102]
  decode dt := if dt = [116] then some true else if dt = [102] then some false else none
  decode_encode := by decide

/-- The same, and a byte for a nil pointer. -/
def Codec.optionBool : Codec (Option Bool) where
  encode b := match b with
    | none => [110]
    | some b => Codec.bool.encode b
  decode dt := if dt = [110] then some none else (Codec.bool.decode dt).map some
  decode_encode b := by rcases b with _ | _ | _ <;> rfl

/-- A disk with the two files and no temporary ones. -/
def Disk.of (config hostConfig : Bytes) : Disk where
  file f := match f with
    | .config => some config
    | .hostConfig => some hostConfig
  temp _ := none

/-- With `false` on disk and `true` in memory: the configuration cannot be encoded, and its file is empty; the
temporary file of the host configuration cannot be made, and there is an error although the
configuration has been replaced; the configuration cannot be renamed, and there is no error. -/
theorem toDisk_misreports :
    let run (op : Step) := toDisk Codec.bool Codec.optionBool (some op) ⟨true, some true⟩ (.of [102] [102])
    ((run ⟨.config, .encode⟩).2 ≠ none ∧ (run ⟨.config, .encode⟩).1.file .config = some []) ∧
    ((run ⟨.hostConfig, .create⟩).2 ≠ none ∧ (run ⟨.hostConfig, .create⟩).1.file .config = some [116]) ∧
    ((run ⟨.config, .rename⟩).2 = none ∧
      fromDisk Codec.bool Codec.optionBool (run ⟨.config, .rename⟩).1 = .ok ⟨false, some true⟩) := by
  refine ⟨⟨by decide, rfl⟩, ⟨by decide, rfl⟩, rfl, rfl⟩

end Moby.Container.OnDisk
