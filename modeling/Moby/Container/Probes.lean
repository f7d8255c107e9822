import Mathlib.Data.List.DropRight
import Mathlib.Logic.Function.Basic
import Moby.Framework.Machine

/-!
# The record of the probes of a container (daemon/health.go)

`handleProbeResult` records the result of a probe: in the log, which keeps the last results, in the streak
of failures, and in the status. `initHealthMonitor` sets the streak and the status back and keeps the log.
What the record says of the results is `record_of_results`.
-/

namespace Moby.Healthcheck

inductive Status
  | starting
  | healthy
  | unhealthy
  deriving DecidableEq

def defaultProbeRetries : ℤ := 3

def maxLogEntries : ℕ := 5

/-- `types.HealthcheckResult`. -/
structure Result where
  start : ℤ
  finish : ℤ
  exitCode : ℤ
  output : String
  deriving DecidableEq

def Result.failed (r : Result) : Bool := r.exitCode ≠ 0

/-- `types.Health`. -/
structure Record where
  status : Status
  failingStreak : ℤ
  log : List Result
  deriving DecidableEq

/-- `Config.Healthcheck` of a container. -/
structure Config where
  test : List String
  retries : ℤ
  deriving DecidableEq

/-- The probe, with the shell or without it. -/
inductive CmdProbe
  | cmd
  | shell
  deriving DecidableEq

def getProbe : Option Config → Option CmdProbe
  | none => none
  | some config =>
    match config.test with
    | [] => none
    | kind :: _ => if kind = "CMD" then some .cmd else if kind = "CMD-SHELL" then some .shell else none

/-- The retries that `handleProbeResult` uses. -/
def Config.effectiveRetries (config : Config) : ℤ := if config.retries ≤ 0 then defaultProbeRetries else config.retries

/-- The log with one more result. -/
def appendLog (log : List Result) (r : Result) : List Result :=
  if maxLogEntries ≤ log.length then log.drop (log.length + 1 - maxLogEntries) ++ [r] else log ++ [r]

def Record.handleProbeResult (h : Record) (config : Config) (r : Result) : Record :=
  if r.failed then
    { status := if config.effectiveRetries ≤ h.failingStreak + 1 then .unhealthy else h.status
      failingStreak := h.failingStreak + 1
      log := appendLog h.log r }
  else { status := .healthy, failingStreak := 0, log := appendLog h.log r }

def Status.text : Status → String
  | .starting => "starting"
  | .healthy => "healthy"
  | .unhealthy => "unhealthy"

structure Container where
  healthcheck : Option Config
  health : Option Record
  /-- The events that are logged. -/
  events : List String
  deriving DecidableEq

namespace Container

/-- It is called by a monitor only, and there is one only if there is a probe. -/
def handleProbeResult (c : Container) (r : Result) : Option Container :=
  match getProbe c.healthcheck, c.healthcheck, c.health with
  | some _, some config, some h =>
    let h' := h.handleProbeResult config r
    some { c with
      health := some h'
      events := if h.status ≠ h'.status then c.events ++ ["health_status: " ++ h'.status.text] else c.events }
  | _, _, _ => none

/-- `initHealthMonitor`, but for the monitor that it stops and the one that it starts. -/
def initHealthMonitor (c : Container) : Container :=
  match getProbe c.healthcheck with
  | none => c
  | some _ =>
    match c.health with
    | some h => { c with health := some { h with status := .starting, failingStreak := 0 } }
    | none => { c with health := some { status := .starting, failingStreak := 0, log := [] } }

end Container

inductive Call
  | init
  | handle (r : Result)
  deriving DecidableEq

def Container.exec (c : Container) : Call → Option Container
  | .init => some c.initHealthMonitor
  | .handle r => c.handleProbeResult r

def Container.run (c : Container) (calls : List Call) : Option Container := calls.foldlM Container.exec c

/-- The results that are recorded by calls. -/
def results (calls : List Call) : List Result :=
  calls.filterMap fun
    | .init => none
    | .handle r => some r

/-! ## What the results say -/

/-- The failures after the last success. -/
def streak (rs : List Result) : ℤ := (rs.rtakeWhile Result.failed).length

def statusOf (retries : ℤ) (rs : List Result) : Status :=
  if retries ≤ streak rs then .unhealthy else if ∃ r ∈ rs, r.failed = false then .healthy else .starting

theorem effectiveRetries_pos (config : Config) : 0 < config.effectiveRetries := by
  rw [Config.effectiveRetries]
  split_ifs with h
  · decide
  · omega

theorem streak_failed (rs : List Result) {r : Result} (h : r.failed = true) : streak (rs ++ [r]) = streak rs + 1 := by
  simp [streak, List.rtakeWhile_concat_pos _ _ _ h]

theorem streak_success (rs : List Result) {r : Result} (h : r.failed = false) : streak (rs ++ [r]) = 0 := by
  simp [streak, h]

theorem statusOf_failed (retries : ℤ) (rs : List Result) {r : Result} (h : r.failed = true) :
    statusOf retries (rs ++ [r]) = if retries ≤ streak rs + 1 then .unhealthy else statusOf retries rs := by
  have hsuccess : (∃ r' ∈ rs ++ [r], r'.failed = false) ↔ ∃ r' ∈ rs, r'.failed = false := by simp [or_and_right, exists_or, h]
  simp only [statusOf, streak_failed rs h, hsuccess]
  split_ifs <;> first | rfl | omega

theorem statusOf_success {retries : ℤ} (hpos : 0 < retries) (rs : List Result) {r : Result} (h : r.failed = false) :
    statusOf retries (rs ++ [r]) = .healthy := by
  rw [statusOf, streak_success rs h, if_neg (by omega), if_pos ⟨r, by simp, h⟩]

/-- A log of the last results is one of the last results again. -/
theorem appendLog_rtake (all : List Result) (r : Result) :
    appendLog (all.rtake maxLogEntries) r = (all ++ [r]).rtake maxLogEntries := by
  have hmax : maxLogEntries = 4 + 1 := rfl
  rw [hmax, List.rtake_concat_succ, appendLog, hmax, List.rtake, List.rtake, List.length_drop, List.drop_drop]
  split_ifs with hlen
  · rw [show all.length - (4 + 1) + (all.length - (all.length - (4 + 1)) + 1 - (4 + 1)) = all.length - 4 by omega]
  · rw [show all.length - (4 + 1) = all.length - 4 by omega]

/-! ## What the record says -/

/-- The record after the results `rs` since the last `initHealthMonitor`, and `all` results in all. -/
structure Record.Summary (h : Record) (retries : ℤ) (all rs : List Result) : Prop where
  failingStreak : h.failingStreak = streak rs
  status : h.status = statusOf retries rs
  log : h.log = all.rtake maxLogEntries

theorem Record.Summary.handle {h : Record} {config : Config} {all rs : List Result}
    (hs : h.Summary config.effectiveRetries all rs) (r : Result) :
    (h.handleProbeResult config r).Summary config.effectiveRetries (all ++ [r]) (rs ++ [r]) := by
  have hlog : appendLog h.log r = (all ++ [r]).rtake maxLogEntries := by rw [hs.log, appendLog_rtake]
  rw [Record.handleProbeResult]
  by_cases hfailed : r.failed = true
  · rw [if_pos hfailed, hs.failingStreak, hs.status]
    exact ⟨(streak_failed rs hfailed).symm, (statusOf_failed _ rs hfailed).symm, hlog⟩
  · have hsuccess := Bool.eq_false_iff.mpr hfailed
    rw [if_neg hfailed]
    exact ⟨(streak_success rs hsuccess).symm, (statusOf_success (effectiveRetries_pos config) rs hsuccess).symm, hlog⟩

theorem Record.handleProbeResult_log (h : Record) (config : Config) (r : Result) :
    (h.handleProbeResult config r).log = appendLog h.log r := by
  rw [Record.handleProbeResult]
  split_ifs <;> rfl

namespace Container

variable {c c' : Container}

/-- A container that has been made, or read from its file. -/
structure Loaded (c : Container) : Prop where
  log : ∀ h, c.health = some h → h.log.length ≤ maxLogEntries
  probe : getProbe c.healthcheck = none → c.health = none

/-- The log of the record, if there is one. -/
def stored (c : Container) : List Result := c.health.elim [] Record.log

/-- What a call does. -/
theorem exec_cases {call : Call} (he : c.exec call = some c') :
    c'.healthcheck = c.healthcheck ∧
    ((call = .init ∧ getProbe c.healthcheck = none ∧ c'.health = c.health) ∨
      (call = .init ∧ getProbe c.healthcheck ≠ none ∧
        c'.health = some { status := .starting, failingStreak := 0, log := c.stored }) ∨
      ∃ r config h, call = .handle r ∧ c.healthcheck = some config ∧ c.health = some h ∧
        c'.health = some (h.handleProbeResult config r)) := by
  cases call with
  | init =>
    cases he
    rw [initHealthMonitor]
    cases hprobe : getProbe c.healthcheck with
    | none => exact ⟨rfl, .inl ⟨rfl, rfl, rfl⟩⟩
    | some probe =>
      cases hh : c.health with
      | none => exact ⟨rfl, .inr (.inl ⟨rfl, by simp, by simp [stored, hh]⟩)⟩
      | some h => exact ⟨rfl, .inr (.inl ⟨rfl, by simp, by simp [stored, hh]⟩)⟩
  | handle r =>
    simp only [exec, handleProbeResult] at he
    split at he
    · rename_i probe config h _ hconfig hh
      cases he
      exact ⟨rfl, .inr (.inr ⟨r, config, h, rfl, hconfig, hh, rfl⟩)⟩
    · cases he

/-- The log after calls: the last of the results that were stored or have been recorded. -/
theorem log_run (hc : c.Loaded) {calls : List Call} (hrun : c.run calls = some c') :
    c'.healthcheck = c.healthcheck ∧ (getProbe c.healthcheck = none → c'.health = none) ∧
      c'.stored = (c.stored ++ results calls).rtake maxLogEntries := by
  induction calls using List.reverseRecOn generalizing c' with
  | nil =>
    cases hrun
    refine ⟨rfl, hc.probe, ?_⟩
    have hlen : c.stored.length ≤ maxLogEntries := by
      cases hh : c.health with
      | none => simp [stored, hh]
      | some h => simpa [stored, hh] using hc.log h hh
    simp [results, List.rtake, Nat.sub_eq_zero_of_le hlen]
  | append_singleton calls call ih =>
    rw [run, List.foldlM_append] at hrun
    obtain ⟨c₁, hrun₁, hcall⟩ := Option.bind_eq_some_iff.mp hrun
    obtain ⟨hconfig, hprobe, hlog⟩ := ih hrun₁
    simp only [List.foldlM_cons, List.foldlM_nil, bind_pure] at hcall
    obtain ⟨hsame, ⟨rfl, hnone, hh⟩ | ⟨rfl, hsome, hh⟩ | ⟨r, config, h, rfl, hc₁, hh₁, hh⟩⟩ := exec_cases hcall
    · refine ⟨hsame.trans hconfig, fun hn => hh.trans (hprobe hn), ?_⟩
      rw [show c'.stored = c₁.stored by rw [stored, hh, stored], hlog]
      simp [results]
    · refine ⟨hsame.trans hconfig, fun hn => absurd (hconfig ▸ hn) hsome, ?_⟩
      rw [show c'.stored = c₁.stored by rw [stored, hh]; rfl, hlog]
      simp [results]
    · refine ⟨hsame.trans hconfig, fun hn => ?_, ?_⟩
      · rw [hprobe hn] at hh₁
        cases hh₁
      · have hstored : c'.stored = appendLog c₁.stored r := by
          rw [stored, hh, stored, hh₁]
          exact h.handleProbeResult_log config r
        rw [hstored, hlog, appendLog_rtake]
        simp [results]

/-- The record after the results since an `initHealthMonitor`. -/
theorem summary_run {config : Config} {h₀ : Record} {all : List Result} (hconfig : c.healthcheck = some config)
    (hh₀ : c.health = some h₀) (hs : h₀.Summary config.effectiveRetries all []) {rs : List Result}
    (hrun : c.run (rs.map .handle) = some c') :
    c'.healthcheck = some config ∧ ∃ h, c'.health = some h ∧ h.Summary config.effectiveRetries (all ++ rs) rs := by
  induction rs using List.reverseRecOn generalizing c' with
  | nil =>
    cases hrun
    exact ⟨hconfig, h₀, hh₀, by rwa [List.append_nil]⟩
  | append_singleton rs r ih =>
    rw [List.map_append, run, List.foldlM_append] at hrun
    obtain ⟨c₁, hrun₁, hcall⟩ := Option.bind_eq_some_iff.mp hrun
    obtain ⟨hconfig₁, h, hh, hsum⟩ := ih hrun₁
    simp only [List.map_cons, List.map_nil, List.foldlM_cons, List.foldlM_nil, bind_pure] at hcall
    obtain ⟨hsame, ⟨hcall', -⟩ | ⟨hcall', -⟩ | ⟨r', config', h', hcall', hc₁, hh₁, hh'⟩⟩ := exec_cases hcall
    · cases hcall'
    · cases hcall'
    · cases hcall'
      rw [hconfig₁] at hc₁
      rw [hh] at hh₁
      cases hc₁
      cases hh₁
      exact ⟨hsame.trans hconfig₁, _, hh', by rw [← List.append_assoc]; exact hsum.handle r⟩

/-- After any calls, an `initHealthMonitor` and any results: the streak is the number of failures after the
last success, the status follows from it and from whether there has been a success, and the log has the
last results that have ever been recorded. -/
theorem record_of_results {config : Config} {h : Record} (hc : c.Loaded) (hconfig : c.healthcheck = some config)
    (calls : List Call) (rs : List Result) (hrun : c.run (calls ++ .init :: rs.map .handle) = some c')
    (hh : c'.health = some h) :
    h.failingStreak = streak rs ∧
    (h.status = .unhealthy ↔ config.effectiveRetries ≤ streak rs) ∧
    (h.status = .healthy ↔ ¬ config.effectiveRetries ≤ streak rs ∧ ∃ r ∈ rs, r.exitCode = 0) ∧
    (h.status = .starting ↔ ¬ config.effectiveRetries ≤ streak rs ∧ ¬ ∃ r ∈ rs, r.exitCode = 0) ∧
    h.log = (c.stored ++ results calls ++ rs).rtake maxLogEntries := by
  rw [run, List.foldlM_append] at hrun
  obtain ⟨c₁, hrun₁, hrun₂⟩ := Option.bind_eq_some_iff.mp hrun
  rw [List.foldlM_cons] at hrun₂
  obtain ⟨c₂, hinit, hrun₃⟩ := Option.bind_eq_some_iff.mp hrun₂
  obtain ⟨hconfig₁, hprobe₁, hlog₁⟩ := log_run hc hrun₁
  obtain ⟨hsame, ⟨-, hnone, hh₂⟩ | ⟨-, hsome, hh₂⟩ | ⟨_, _, _, hcall, -⟩⟩ := exec_cases hinit
  · -- Without a probe there is no record, before the results and after them.
    have hloaded : c₂.Loaded := by
      have hnil : c₂.health = none := hh₂.trans (hprobe₁ (hconfig₁ ▸ hnone))
      refine ⟨fun h' hh' => ?_, fun _ => hnil⟩
      rw [hnil] at hh'
      cases hh'
    have hc' := (log_run hloaded hrun₃).2.1 (by rw [hsame]; exact hnone)
    rw [hc'] at hh
    cases hh
  · have hstart : Record.Summary { status := .starting, failingStreak := 0, log := c₁.stored } config.effectiveRetries
        (c.stored ++ results calls) [] := by
      have hpos := effectiveRetries_pos config
      refine ⟨rfl, ?_, hlog₁⟩
      simp [statusOf, streak, hpos]
    obtain ⟨-, h', hh', hs⟩ := summary_run (hsame.trans (hconfig₁.trans hconfig)) hh₂ hstart hrun₃
    rw [hh] at hh'
    cases hh'
    refine ⟨hs.failingStreak, ?_, ?_, ?_, hs.log⟩
    all_goals
      rw [hs.status, statusOf]
      split_ifs with hle hsuccess <;> simp_all [Result.failed]
  · cases hcall

/-- A success, a restart, and then a success and two failures. -/
theorem record_of_results_two : ∃ (c' : Container) (h : Record),
    Loaded ⟨some ⟨["CMD", "true"], 2⟩, none, []⟩ ∧
    run ⟨some ⟨["CMD", "true"], 2⟩, none, []⟩
      ([.init, .handle ⟨0, 1, 0, ""⟩] ++ .init :: [⟨2, 3, 0, ""⟩, ⟨4, 5, 1, ""⟩, ⟨6, 7, 1, ""⟩].map .handle) = some c' ∧
    c'.health = some h ∧ h.failingStreak = 2 ∧ h.status = .unhealthy ∧
    h.log = [⟨0, 1, 0, ""⟩, ⟨2, 3, 0, ""⟩, ⟨4, 5, 1, ""⟩, ⟨6, 7, 1, ""⟩] := by
  have hloaded : Loaded ⟨some ⟨["CMD", "true"], 2⟩, none, []⟩ :=
    { log := fun _ hh => absurd hh (by simp), probe := fun _ => rfl }
  refine ⟨_, _, hloaded, rfl, rfl, ?_⟩
  obtain ⟨hstreak, hunhealthy, -, -, hlog⟩ := record_of_results hloaded rfl [.init, .handle ⟨0, 1, 0, ""⟩]
    [⟨2, 3, 0, ""⟩, ⟨4, 5, 1, ""⟩, ⟨6, 7, 1, ""⟩] rfl rfl
  exact ⟨hstreak, hunhealthy.mpr (by decide), hlog⟩

end Container

end Moby.Healthcheck
