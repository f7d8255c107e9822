import Mathlib.Data.List.Sort
import Moby.Dockerfile.Parser

/-!
# The cache key of `RUN` (builder/dockerfile/dispatchers.go)

`run` looks for an image in the cache under a command in front of which the build-time variables are
put: a word `|n` with their number, and the variables in their order. A command in exec form may
begin with such words itself, and then has the key of another step that has them as variables. Of
two steps with the same key both have build-time variables or neither exactly if they run the same
command with the same variables (`saveCmd_same_iff`).
-/

namespace Moby.Dockerfile

open Moby.Framework

/-- The forms of a command: a JSON array, or a line for the shell. -/
inductive Form
  | json
  | shell
  deriving DecidableEq

/-- The words that `handleJSONArgs` returns. -/
def jsonWords (form : Form) (ws : List GoString) : List GoString :=
  if ws = [] then []
  else
    match form with
    | .json => ws
    | .shell => [[0x20].intercalate ws]

/-- The words of the default shell. -/
def defaultWords : List GoString := [bytesOf "/bin/sh", bytesOf "-c"]

/-- The name of a variable in the environment. -/
def envName (w : GoString) : GoString := w.takeWhile (· ≠ 0x3D)

/-- `BuiltinAllowedBuildArgs`. -/
def builtinAllowedBuildArgs : List GoString :=
  ["HTTP_PROXY", "http_proxy", "HTTPS_PROXY", "https_proxy", "FTP_PROXY", "ftp_proxy", "NO_PROXY", "no_proxy"].map
    bytesOf

/-- A `RUN`, with what it reads of the builder: the words of `getShell`, the environment of the
configuration, the build-time variables in the order in which the map is gone through, and the names
that `ARG` has allowed. -/
structure RunStep where
  form : Form
  args : List GoString
  shell : List GoString
  env : List GoString
  buildArgs : List (GoString × GoString)
  allowedBuildArgs : List GoString

namespace RunStep

/-- The words that are run. -/
def cmd (s : RunStep) : List GoString :=
  match s.form with
  | .json => jsonWords .json s.args
  | .shell => s.shell ++ jsonWords .shell s.args

/-- `isBuildArgAllowed`. -/
def isBuildArgAllowed (s : RunStep) (arg : GoString) : Bool :=
  arg ∈ builtinAllowedBuildArgs || arg ∈ s.allowedBuildArgs

/-- The variables that the step adds to the environment, sorted. -/
def cmdBuildEnv (s : RunStep) : List GoString :=
  ((s.buildArgs.filter fun e => s.isBuildArgAllowed e.1 && !(s.env.map envName).contains e.1).map
    fun e => e.1 ++ 0x3D :: e.2).insertionSort (· ≤ ·)

/-- The word for a number of variables. -/
def marker (n : ℕ) : GoString := 0x7C :: bytesOf (toString n)

/-- The command under which the image is looked for and committed. -/
def saveCmd (s : RunStep) : List GoString :=
  if s.cmdBuildEnv.length > 0 then marker s.cmdBuildEnv.length :: s.cmdBuildEnv ++ s.cmd else s.cmd

/-- The steps run the same command with the same set of variables. -/
def Same (s t : RunStep) : Prop := s.cmd = t.cmd ∧ ∀ e, e ∈ s.cmdBuildEnv ↔ e ∈ t.cmdBuildEnv

/-! ## The key -/

theorem marker_injective : Function.Injective marker := by
  intro n m h
  have hs : toString n = toString m := bytesOf_injective (List.cons.inj h).2
  have hd : Nat.toDigits 10 n = Nat.toDigits 10 m := by
    rw [← Nat.toList_repr, ← Nat.toList_repr]
    exact congrArg String.toList hs
  have hp := parseDigits_toDigits n
  rw [hd, parseDigits_toDigits] at hp
  exact (Option.some.inj hp).symm

variable {s t : RunStep}

theorem saveCmd_of_nil (h : s.cmdBuildEnv = []) : s.saveCmd = s.cmd := by
  rw [saveCmd, h]
  rfl

theorem saveCmd_of_ne_nil (h : s.cmdBuildEnv ≠ []) :
    s.saveCmd = marker s.cmdBuildEnv.length :: s.cmdBuildEnv ++ s.cmd := by
  rw [saveCmd, if_pos (List.length_pos_iff.mpr h)]

/-- The number of variables says where the command begins. -/
theorem eq_of_saveCmd (hs : s.cmdBuildEnv ≠ []) (ht : t.cmdBuildEnv ≠ []) (h : s.saveCmd = t.saveCmd) :
    s.cmdBuildEnv = t.cmdBuildEnv ∧ s.cmd = t.cmd := by
  rw [saveCmd_of_ne_nil hs, saveCmd_of_ne_nil ht] at h
  obtain ⟨hn, happ⟩ := List.cons.inj h
  exact List.append_inj happ (marker_injective hn)

theorem same_of_saveCmd (hnil : s.cmdBuildEnv = [] ↔ t.cmdBuildEnv = []) (h : s.saveCmd = t.saveCmd) : s.Same t := by
  by_cases hs : s.cmdBuildEnv = []
  · have ht := hnil.mp hs
    rw [saveCmd_of_nil hs, saveCmd_of_nil ht] at h
    refine ⟨h, fun e => ?_⟩
    rw [hs, ht]
  · obtain ⟨henv, hcmd⟩ := eq_of_saveCmd hs (fun ht => hs (hnil.mpr ht)) h
    refine ⟨hcmd, fun e => ?_⟩
    rw [henv]

theorem nil_iff_of_same (h : s.Same t) : s.cmdBuildEnv = [] ↔ t.cmdBuildEnv = [] := by
  simp only [List.eq_nil_iff_forall_not_mem, h.2]

/-- A step whose own command does not begin with a word for a number of variables. -/
def Unmarked (s : RunStep) : Prop := ∀ n, s.cmd.head? ≠ some (marker n)

/-- Two steps with the same key run the same, exactly if both have build-time variables or neither
has; and so they do if neither command begins with a word for a number of variables. -/
theorem saveCmd_same_iff (s t : RunStep) (h : s.saveCmd = t.saveCmd) :
    (s.Same t ↔ (s.cmdBuildEnv = [] ↔ t.cmdBuildEnv = [])) ∧ (s.Unmarked → t.Unmarked → s.Same t) := by
  refine ⟨⟨nil_iff_of_same, fun hnil => same_of_saveCmd hnil h⟩, fun hs ht => same_of_saveCmd ⟨?_, ?_⟩ h⟩
  · intro hnil
    by_contra hne
    rw [saveCmd_of_nil hnil, saveCmd_of_ne_nil hne] at h
    exact hs _ (congrArg List.head? h)
  · intro hnil
    by_contra hne
    rw [saveCmd_of_nil hnil, saveCmd_of_ne_nil hne] at h
    exact ht _ (congrArg List.head? h.symm)

/-- `RUN x` with a build-time variable `foo`. -/
def withFoo : RunStep :=
  { form := .shell, args := [bytesOf "x"], shell := defaultWords, env := [],
    buildArgs := [(bytesOf "foo", bytesOf "bar")], allowedBuildArgs := [bytesOf "foo"] }

/-- `RUN ["|1", "foo=bar", "/bin/sh", "-c", "x"]`. -/
def withMarker : RunStep :=
  { form := .json, args := ["|1", "foo=bar", "/bin/sh", "-c", "x"].map bytesOf, shell := defaultWords, env := [],
    buildArgs := [], allowedBuildArgs := [] }

/-- The same `RUN` in exec form, with a variable more that is not allowed. -/
def withFooExec : RunStep :=
  { form := .json, args := ["/bin/sh", "-c", "x"].map bytesOf, shell := defaultWords, env := [],
    buildArgs := [(bytesOf "baz", bytesOf "1"), (bytesOf "foo", bytesOf "bar")], allowedBuildArgs := [bytesOf "foo"] }

theorem saveCmd_same_withFoo : withFoo ≠ withFooExec ∧ withFoo.saveCmd = withFooExec.saveCmd ∧ withFoo.Same withFooExec := by
  have hkey : withFoo.saveCmd = withFooExec.saveCmd := by decide
  exact ⟨fun h => absurd (congrArg form h) (by decide), hkey, (saveCmd_same_iff _ _ hkey).1.mpr (by decide)⟩

/-- The two steps have the same key, and run another command each. -/
theorem saveCmd_collision :
    withFoo.saveCmd = withMarker.saveCmd ∧ withFoo.cmd ≠ withMarker.cmd ∧ ¬ withFoo.Same withMarker := by
  have hcmd : withFoo.cmd ≠ withMarker.cmd := by decide
  exact ⟨by decide, hcmd, fun h => hcmd h.1⟩

end RunStep

end Moby.Dockerfile
