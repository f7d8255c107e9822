import Mathlib.Data.List.Forall2
import Moby.Framework.Text
import Moby.Swarm.Types

/-!
# Specs of services in protocol buffers

`ServiceSpecToGRPC` and what `ServiceFromGRPC` makes of a spec. Enumerations are strings on this side
and numbers on the other, with a table of names in between, in capitals. A name that is not in the
table is an error, except for the protocol of a port: there it is taken for the first one, `TCP`
(`roundTrip_iff`).
-/

namespace Moby.Swarm

open Moby.Framework

/-- What `strings`, `unicode` and `strconv` do, and a name of `namesgenerator`. -/
structure Strings where
  upperRune : Char → Char
  lowerRune : Char → Char
  upperRune_ascii (c : Char) : c.toNat < 128 → upperRune c = c.toUpper
  lowerRune_ascii (c : Char) : c.toNat < 128 → lowerRune c = c.toLower
  /-- `%q`. -/
  quote : String → String
  randomName : String

namespace Strings

variable (st : Strings)

/-- `strings.ToUpper`. -/
def upper (s : String) : String := .ofList (s.toList.map st.upperRune)

/-- `strings.ToLower`. -/
def lower (s : String) : String := .ofList (s.toList.map st.lowerRune)

/-- Two strings are the same but for upper and lower case. -/
def EqualFold (s t : String) : Prop := st.upper s = st.upper t

end Strings

/-! ## The other side -/

namespace Grpc

inductive MountType
  | bind
  | volume
  | tmpfs
  deriving DecidableEq

inductive MountPropagation
  | rprivate
  | private'
  | rshared
  | shared
  | rslave
  | slave
  deriving DecidableEq

inductive RestartCondition
  | none
  | onFailure
  | any
  deriving DecidableEq

inductive FailureAction
  | pause
  | continue'
  deriving DecidableEq

inductive ResolutionMode
  | vip
  | dnsrr
  deriving DecidableEq

inductive Protocol
  | tcp
  | udp
  deriving DecidableEq

/-- `Mount_MountType_name`. -/
def MountType.name : MountType → String
  | .bind => "BIND"
  | .volume => "VOLUME"
  | .tmpfs => "TMPFS"

/-- `Mount_MountType_value`. -/
def MountType.value (s : String) : Option MountType := [.bind, .volume, .tmpfs].find? (MountType.name · = s)

/-- `Mount_BindOptions_MountPropagation_name`. -/
def MountPropagation.name : MountPropagation → String
  | .rprivate => "RPRIVATE"
  | .private' => "PRIVATE"
  | .rshared => "RSHARED"
  | .shared => "SHARED"
  | .rslave => "RSLAVE"
  | .slave => "SLAVE"

/-- `Mount_BindOptions_MountPropagation_value`. -/
def MountPropagation.value (s : String) : Option MountPropagation :=
  [.rprivate, .private', .rshared, .shared, .rslave, .slave].find? (MountPropagation.name · = s)

/-- `EndpointSpec_ResolutionMode_name`. -/
def ResolutionMode.name : ResolutionMode → String
  | .vip => "VIP"
  | .dnsrr => "DNSRR"

/-- `EndpointSpec_ResolutionMode_value`. -/
def ResolutionMode.value (s : String) : Option ResolutionMode := [.vip, .dnsrr].find? (ResolutionMode.name · = s)

/-- `PortConfig_Protocol_name`. -/
def Protocol.name : Protocol → String
  | .tcp => "TCP"
  | .udp => "UDP"

/-- `PortConfig_Protocol_value`. -/
def Protocol.value (s : String) : Option Protocol := [.tcp, .udp].find? (Protocol.name · = s)

/-- `duration.Duration`. -/
structure Duration where
  seconds : Int64
  nanos : Int32

structure Mount where
  type : MountType
  source : String
  target : String
  readOnly : Bool
  bindOptions : Option MountPropagation
  volumeOptions : Option VolumeOptions

structure ContainerSpec where
  image : String
  labels : Map String String
  command : List String
  args : List String
  env : List String
  dir : String
  user : String
  mounts : List Mount
  stopGracePeriod : Option Duration

structure RestartPolicy where
  condition : RestartCondition
  delay : Option Duration
  maxAttempts : UInt64
  window : Option Duration

structure UpdateConfig where
  parallelism : UInt64
  delay : Duration
  failureAction : FailureAction

structure PortConfig where
  name : String
  protocol : Protocol
  targetPort : UInt32
  publishedPort : UInt32

structure EndpointSpec where
  mode : ResolutionMode
  ports : List PortConfig

inductive ServiceMode
  | replicated (replicas : UInt64)
  | global

/-- `swarmapi.ServiceSpec`, with its task, whose runtime is a container. The parts that have the same
fields on both sides are of the same types. -/
structure ServiceSpec where
  name : String
  labels : Map String String
  container : ContainerSpec
  resources : Option ResourceRequirements
  restart : Option RestartPolicy
  placement : Option Placement
  logDriver : Option Driver
  mode : Option ServiceMode
  update : Option UpdateConfig
  networks : List NetworkAttachmentConfig
  endpoint : Option EndpointSpec

end Grpc

/-! ## Durations -/

/-- `ptypes.DurationProto`. -/
def durationProto (d : Duration) : Grpc.Duration :=
  let secs := d / 1000000000
  ⟨secs, (d - secs * 1000000000).toInt32⟩

/-- `validateDuration`. -/
def validateDuration (d : Grpc.Duration) : Bool :=
  -315576000000 ≤ d.seconds ∧ d.seconds ≤ 315576000000 ∧ -1000000000 < d.nanos ∧ d.nanos < 1000000000 ∧
  ¬ (d.seconds < 0 ∧ d.nanos > 0) ∧ ¬ (d.seconds > 0 ∧ d.nanos < 0)

/-- `ptypes.Duration`, whose error is not looked at. -/
def duration (p : Grpc.Duration) : Duration :=
  if ¬ validateDuration p then 0
  else
    let d := p.seconds * 1000000000
    if d / 1000000000 ≠ p.seconds then 0
    else if p.nanos ≠ 0 then
      let d := d + p.nanos.toInt64
      if decide (d < 0) ≠ decide (p.nanos < 0) then 0 else d
    else d

theorem bmod_of_lt {n : ℤ} (h₁ : -9223372036854775808 ≤ n) (h₂ : n < 9223372036854775808) : n.bmod (2 ^ 64) = n :=
  Int.bmod_eq_of_le (by omega) (by omega)

/-- Seconds and nanoseconds make up the duration again. -/
theorem duration_durationProto (d : Duration) : duration (durationProto d) = d := by
  have hlo := d.le_toInt
  have hhi := d.toInt_lt
  have hbillion : (1000000000 : Int64).toInt = 1000000000 := rfl
  -- Go rounds towards zero
  have hq : 0 ≤ d.toInt ∧ d.toInt.tdiv 1000000000 = d.toInt / 1000000000 ∨
      d.toInt < 0 ∧ d.toInt.tdiv 1000000000 = -(-d.toInt / 1000000000) := by
    by_cases h : 0 ≤ d.toInt
    · exact .inl ⟨h, Int.tdiv_eq_ediv_of_nonneg h⟩
    · refine .inr ⟨by omega, ?_⟩
      rw [← Int.tdiv_eq_ediv_of_nonneg (by omega), Int.neg_tdiv, Int.neg_neg]
  have hsecs : (d / 1000000000).toInt = d.toInt.tdiv 1000000000 := by
    rw [Int64.toInt_div_of_ne_right _ _ (by decide), hbillion]
  have hmul : (d / 1000000000 * 1000000000).toInt = d.toInt.tdiv 1000000000 * 1000000000 := by
    rw [Int64.toInt_mul, hsecs, hbillion, bmod_of_lt (by omega) (by omega)]
  have hsub : (d - d / 1000000000 * 1000000000).toInt = d.toInt - d.toInt.tdiv 1000000000 * 1000000000 := by
    rw [Int64.toInt_sub, hmul, bmod_of_lt (by omega) (by omega)]
  have hnanos : (d - d / 1000000000 * 1000000000).toInt32.toInt = d.toInt - d.toInt.tdiv 1000000000 * 1000000000 := by
    rw [Int64.toInt_toInt32, hsub, Int.bmod_eq_of_le (by omega) (by omega)]
  have hvalid : validateDuration (durationProto d) = true := by
    have h₁ : (315576000000 : Int64).toInt = 315576000000 := rfl
    have h₂ : (-315576000000 : Int64).toInt = -315576000000 := rfl
    have h₃ : (1000000000 : Int32).toInt = 1000000000 := rfl
    have h₄ : (-1000000000 : Int32).toInt = -1000000000 := rfl
    simp only [validateDuration, durationProto, decide_eq_true_eq, Int64.le_iff_toInt_le, Int32.lt_iff_toInt_lt,
      Int64.lt_iff_toInt_lt, gt_iff_lt, hsecs, hnanos, h₁, h₂, h₃, h₄, Int64.toInt_zero, Int32.toInt_zero]
    omega
  have hback : (durationProto d).seconds * 1000000000 / 1000000000 = (durationProto d).seconds := by
    apply Int64.toInt_inj.mp
    rw [Int64.toInt_div_of_ne_right _ _ (by decide), hbillion, durationProto, hmul, hsecs, Int.mul_tdiv_cancel _ (by decide)]
  have hadd : (durationProto d).seconds * 1000000000 + (durationProto d).nanos.toInt64 = d := by
    apply Int64.toInt_inj.mp
    rw [Int64.toInt_add, Int32.toInt_toInt64, durationProto, hmul, hnanos, bmod_of_lt (by omega) (by omega)]
    omega
  unfold duration
  rw [if_neg (by simp [hvalid])]
  simp only
  rw [if_neg (by simp [hback]), hadd]
  split
  · rename_i hne
    -- the sign is that of the nanoseconds
    have hsign : decide (d < 0) = decide ((durationProto d).nanos < 0) := by
      rw [decide_eq_decide, Int64.lt_iff_toInt_lt, Int32.lt_iff_toInt_lt, durationProto, hnanos]
      have hne : (durationProto d).nanos.toInt ≠ 0 := fun h => hne (Int32.toInt_inj.mp h)
      rw [durationProto, hnanos] at hne
      simp only [Int64.toInt_zero, Int32.toInt_zero]
      omega
    rw [if_neg (not_not.mpr hsign)]
  · rename_i hz
    rw [not_not] at hz
    rw [hz] at hadd
    simpa using hadd

/-! ## Towards the swarm -/

section

variable (st : Strings)

/-- `driverToGRPC`. -/
def driverToGRPC (p : Option Driver) : Option Driver := p.map fun p => { name := p.name, options := p.options }

def volumeOptionsToGRPC (v : VolumeOptions) : VolumeOptions where
  noCopy := v.noCopy
  labels := v.labels
  driverConfig := driverToGRPC v.driverConfig

def mountTypeToGRPC (type : String) : Except String Grpc.MountType :=
  match Grpc.MountType.value (st.upper type) with
  | some mountType => .ok mountType
  | none => if type ≠ "" then .error ("invalid MountType: " ++ st.quote type) else .ok .bind

def bindOptionsToGRPC (b : Option BindOptions) : Except String (Option Grpc.MountPropagation) :=
  match b with
  | none => .ok none
  | some b =>
    match Grpc.MountPropagation.value (st.upper b.propagation) with
    | some mountPropagation => .ok (some mountPropagation)
    | none =>
      if b.propagation ≠ "" then .error ("invalid MountPropagation: " ++ st.quote b.propagation) else .ok none

/-- A mount of `containerToGRPC`. -/
def mountToGRPC (m : Mount) : Except String Grpc.Mount := do
  let type ← mountTypeToGRPC st m.type
  let bindOptions ← bindOptionsToGRPC st m.bindOptions
  return {
    type, bindOptions
    source := m.source
    target := m.target
    readOnly := m.readOnly
    volumeOptions := m.volumeOptions.map volumeOptionsToGRPC }

/-- `containerToGRPC`. -/
def containerToGRPC (c : ContainerSpec) : Except String Grpc.ContainerSpec := do
  let mounts ← c.mounts.mapM (mountToGRPC st)
  return {
    mounts
    image := c.image
    labels := c.labels
    command := c.command
    args := c.args
    env := c.env
    dir := c.dir
    user := c.user
    stopGracePeriod := c.stopGracePeriod.map durationProto }

def resourceToGRPC (r : Resources) : Resources := { nanoCPUs := r.nanoCPUs, memoryBytes := r.memoryBytes }

/-- `resourcesToGRPC`. -/
def resourcesToGRPC (res : Option ResourceRequirements) : Option ResourceRequirements := res.map fun res =>
  { limits := res.limits.map resourceToGRPC, reservations := res.reservations.map resourceToGRPC }

def restartConditionToGRPC (condition : String) : Except String Grpc.RestartCondition :=
  if condition = "none" then .ok .none
  else if condition = "on-failure" then .ok .onFailure
  else if condition = "any" then .ok .any
  else if condition ≠ "" then .error ("invalid RestartCondition: " ++ st.quote condition)
  else .ok .any

/-- `restartPolicyToGRPC`. -/
def restartPolicyToGRPC (p : Option RestartPolicy) : Except String (Option Grpc.RestartPolicy) :=
  match p with
  | none => .ok none
  | some p => do
    let condition ← restartConditionToGRPC st p.condition
    return some {
      condition
      delay := p.delay.map durationProto
      window := p.window.map durationProto
      maxAttempts := p.maxAttempts.getD 0 }

def failureActionToGRPC (action : String) : Except String Grpc.FailureAction :=
  if action = "pause" ∨ action = "" then .ok .pause
  else if action = "continue" then .ok .continue'
  else .error ("unrecongized update failure action " ++ action)

def updateConfigToGRPC (u : Option UpdateConfig) : Except String (Option Grpc.UpdateConfig) :=
  match u with
  | none => .ok none
  | some u => do
    let failureAction ← failureActionToGRPC u.failureAction
    return some { failureAction, parallelism := u.parallelism, delay := durationProto u.delay }

/-- A port, whose protocol is the first one where its name is not known. -/
def portToGRPC (p : PortConfig) : Grpc.PortConfig where
  name := p.name
  protocol := (Grpc.Protocol.value (st.upper p.protocol)).getD .tcp
  targetPort := p.targetPort
  publishedPort := p.publishedPort

def endpointSpecToGRPC (e : Option EndpointSpec) : Except String (Option Grpc.EndpointSpec) :=
  match e with
  | none => .ok none
  | some e =>
    if e.mode ≠ "" ∧ e.mode ≠ "vip" ∧ e.mode ≠ "dnsrr" then .error ("invalid resolution mode: " ++ st.quote e.mode)
    else .ok (some {
      mode := (Grpc.ResolutionMode.value (st.upper e.mode)).getD .vip
      ports := e.ports.map (portToGRPC st) })

def modeToGRPC (m : ServiceMode) : Grpc.ServiceMode :=
  if m.global.isSome then .global
  else
    match m.replicated with
    | some ⟨some replicas⟩ => .replicated replicas
    | _ => .replicated 1

/-- `ServiceSpecToGRPC`. -/
def serviceSpecToGRPC (s : ServiceSpec) : Except String Grpc.ServiceSpec := do
  let container ← containerToGRPC st s.taskTemplate.containerSpec
  let restart ← restartPolicyToGRPC st s.taskTemplate.restartPolicy
  let update ← updateConfigToGRPC s.updateConfig
  let endpoint ← endpointSpecToGRPC st s.endpointSpec
  return {
    container, restart, update, endpoint
    name := if s.name = "" then st.randomName else s.name
    labels := s.labels
    resources := resourcesToGRPC s.taskTemplate.resources
    placement := s.taskTemplate.placement.map fun p => { constraints := p.constraints }
    logDriver := driverToGRPC s.taskTemplate.logDriver
    mode := some (modeToGRPC s.mode)
    networks := s.networks.map fun n => { target := n.target, aliases := n.aliases } }

/-! ## And back -/

/-- `driverFromGRPC`. -/
def driverFromGRPC (p : Option Driver) : Option Driver := p.map fun p => { name := p.name, options := p.options }

def mountFromGRPC (m : Grpc.Mount) : Mount where
  target := m.target
  source := m.source
  type := st.lower m.type.name
  readOnly := m.readOnly
  bindOptions := m.bindOptions.map fun p => { propagation := st.lower p.name }
  volumeOptions := m.volumeOptions.map fun v =>
    { noCopy := v.noCopy, labels := v.labels, driverConfig := driverFromGRPC v.driverConfig }

/-- `containerSpecFromGRPC`. -/
def containerSpecFromGRPC (c : Grpc.ContainerSpec) : ContainerSpec where
  image := c.image
  labels := c.labels
  command := c.command
  args := c.args
  env := c.env
  dir := c.dir
  user := c.user
  mounts := c.mounts.map (mountFromGRPC st)
  stopGracePeriod := c.stopGracePeriod.map duration

/-- `resourcesFromGRPC`. -/
def resourcesFromGRPC (res : Option ResourceRequirements) : Option ResourceRequirements := res.map fun res =>
  { limits := res.limits.map fun r => { nanoCPUs := r.nanoCPUs, memoryBytes := r.memoryBytes }
    reservations := res.reservations.map fun r => { nanoCPUs := r.nanoCPUs, memoryBytes := r.memoryBytes } }

def restartConditionFromGRPC : Grpc.RestartCondition → String
  | .none => "none"
  | .onFailure => "on-failure"
  | .any => "any"

/-- `restartPolicyFromGRPC`. -/
def restartPolicyFromGRPC (p : Option Grpc.RestartPolicy) : Option RestartPolicy := p.map fun p =>
  { condition := restartConditionFromGRPC p.condition
    delay := p.delay.map duration
    window := p.window.map duration
    maxAttempts := some p.maxAttempts }

def failureActionFromGRPC : Grpc.FailureAction → String
  | .pause => "pause"
  | .continue' => "continue"

def updateConfigFromGRPC (u : Option Grpc.UpdateConfig) : Option UpdateConfig := u.map fun u =>
  { parallelism := u.parallelism
    delay := duration u.delay
    failureAction := failureActionFromGRPC u.failureAction }

def portFromGRPC (p : Grpc.PortConfig) : PortConfig where
  name := p.name
  protocol := st.lower p.protocol.name
  targetPort := p.targetPort
  publishedPort := p.publishedPort

/-- `endpointSpecFromGRPC`. -/
def endpointSpecFromGRPC (es : Option Grpc.EndpointSpec) : Option EndpointSpec := es.map fun es =>
  { mode := st.lower es.mode.name, ports := es.ports.map (portFromGRPC st) }

def modeFromGRPC : Option Grpc.ServiceMode → ServiceMode
  | none => {}
  | some .global => { global := some () }
  | some (.replicated replicas) => { replicated := some ⟨some replicas⟩ }

/-- The spec of the service that `ServiceFromGRPC` returns. -/
def serviceSpecFromGRPC (s : Grpc.ServiceSpec) : ServiceSpec where
  name := s.name
  labels := s.labels
  taskTemplate := {
    containerSpec := containerSpecFromGRPC st s.container
    resources := resourcesFromGRPC s.resources
    restartPolicy := restartPolicyFromGRPC s.restart
    placement := s.placement.map fun p => { constraints := p.constraints }
    logDriver := driverFromGRPC s.logDriver }
  mode := modeFromGRPC s.mode
  updateConfig := updateConfigFromGRPC s.update
  networks := s.networks.map fun n => { target := n.target, aliases := n.aliases }
  endpointSpec := endpointSpecFromGRPC st s.endpoint

end

/-! ## The same spec -/

section

variable (st : Strings)

/-- The same name of an enumeration, or the default in place of none. -/
def SameName (default s s' : String) : Prop := s = "" ∧ s' = default ∨ st.EqualFold s s'

/-- The same options for a bind mount, where those without a propagation may be dropped. -/
def SameBindOptions : Option BindOptions → Option BindOptions → Prop
  | none, o => o = none
  | some b, none => b.propagation = ""
  | some b, some b' => st.EqualFold b.propagation b'.propagation

structure SameMount (m m' : Mount) : Prop where
  type : SameName st "bind" m.type m'.type
  source : m'.source = m.source
  target : m'.target = m.target
  readOnly : m'.readOnly = m.readOnly
  bindOptions : SameBindOptions st m.bindOptions m'.bindOptions
  volumeOptions : m'.volumeOptions = m.volumeOptions

structure SameContainer (c c' : ContainerSpec) : Prop where
  image : c'.image = c.image
  labels : c'.labels = c.labels
  command : c'.command = c.command
  args : c'.args = c.args
  env : c'.env = c.env
  dir : c'.dir = c.dir
  user : c'.user = c.user
  mounts : List.Forall₂ (SameMount st) c.mounts c'.mounts
  stopGracePeriod : c'.stopGracePeriod = c.stopGracePeriod

structure SameRestartPolicy (p p' : RestartPolicy) : Prop where
  condition : SameName st "any" p.condition p'.condition
  delay : p'.delay = p.delay
  maxAttempts : p'.maxAttempts = some (p.maxAttempts.getD 0)
  window : p'.window = p.window

structure SameUpdateConfig (u u' : UpdateConfig) : Prop where
  parallelism : u'.parallelism = u.parallelism
  delay : u'.delay = u.delay
  failureAction : SameName st "pause" u.failureAction u'.failureAction

structure SamePort (p p' : PortConfig) : Prop where
  name : p'.name = p.name
  protocol : SameName st "tcp" p.protocol p'.protocol
  targetPort : p'.targetPort = p.targetPort
  publishedPort : p'.publishedPort = p.publishedPort

structure SameEndpointSpec (e e' : EndpointSpec) : Prop where
  mode : SameName st "vip" e.mode e'.mode
  ports : List.Forall₂ (SamePort st) e.ports e'.ports

/-- The same mode, where one replica is the default. -/
def SameMode (m m' : ServiceMode) : Prop :=
  m'.global = m.global ∧
  match m.global, m.replicated with
  | some _, r => m'.replicated = r
  | none, some ⟨some replicas⟩ => m'.replicated = some ⟨some replicas⟩
  | none, _ => m'.replicated = some ⟨some 1⟩

/-- The same spec, up to defaults for what is empty and to upper and lower case in the names of enumerations. -/
structure SameSpec (s s' : ServiceSpec) : Prop where
  name : s.name ≠ "" → s'.name = s.name
  labels : s'.labels = s.labels
  container : SameContainer st s.taskTemplate.containerSpec s'.taskTemplate.containerSpec
  resources : s'.taskTemplate.resources = s.taskTemplate.resources
  restartPolicy : Option.Rel (SameRestartPolicy st) s.taskTemplate.restartPolicy s'.taskTemplate.restartPolicy
  placement : s'.taskTemplate.placement = s.taskTemplate.placement
  logDriver : s'.taskTemplate.logDriver = s.taskTemplate.logDriver
  mode : SameMode s.mode s'.mode
  updateConfig : Option.Rel (SameUpdateConfig st) s.updateConfig s'.updateConfig
  networks : s'.networks = s.networks
  endpointSpec : Option.Rel (SameEndpointSpec st) s.endpointSpec s'.endpointSpec

/-- The protocol of a port is one of the two there are, or not given. -/
def KnownProtocol (p : PortConfig) : Prop :=
  p.protocol = "" ∨ st.EqualFold p.protocol "tcp" ∨ st.EqualFold p.protocol "udp"

/-- So it is with all ports of a spec. -/
def KnownProtocols (s : ServiceSpec) : Prop :=
  ∀ e, s.endpointSpec = some e → ∀ p ∈ e.ports, KnownProtocol st p

end

/-! ## Names -/

section

variable {st : Strings}

theorem upper_of_ascii {s : String} (h : ∀ c ∈ s.toList, c.toNat < 128) :
    st.upper s = .ofList (s.toList.map Char.toUpper) := by
  rw [Strings.upper, List.map_congr_left fun c hc => st.upperRune_ascii c (h c hc)]

theorem upper_empty : st.upper "" = "" := rfl

theorem lower_of_ascii {s : String} (h : ∀ c ∈ s.toList, c.toNat < 128) :
    st.lower s = .ofList (s.toList.map Char.toLower) := by
  rw [Strings.lower, List.map_congr_left fun c hc => st.lowerRune_ascii c (h c hc)]

/-- A name in capitals comes back from small letters. -/
theorem upper_lower {s : String} (h : ∀ c ∈ s.toList, c.toNat < 128 ∧ c.toLower.toNat < 128 ∧ c.toLower.toUpper = c) :
    st.upper (st.lower s) = s := by
  rw [lower_of_ascii fun c hc => (h c hc).1, upper_of_ascii fun c hc => ?_]
  · have hid : s.toList.map (Char.toUpper ∘ Char.toLower) = s.toList.map id := List.map_congr_left fun c hc => (h c hc).2.2
    rw [String.toList_ofList, List.map_map, hid, List.map_id, String.ofList_toList]
  · rw [String.toList_ofList, List.mem_map] at hc
    obtain ⟨c', hc', rfl⟩ := hc
    exact (h c' hc').2.1

/-- A name that is found in a table is the same but for its case. -/
theorem equalFold_of_find? {α : Type} {all : List α} {name : α → String} {s : String} {x : α}
    (h : all.find? (name · = st.upper s) = some x) (hname : st.upper (st.lower (name x)) = name x) :
    st.EqualFold s (st.lower (name x)) := by
  have hs : name x = st.upper s := by simpa using List.find?_some h
  rw [Strings.EqualFold, hname, hs]

theorem upper_lower_mountType (t : Grpc.MountType) : st.upper (st.lower t.name) = t.name :=
  upper_lower (forall_mem_of_all (by cases t <;> decide))

theorem upper_lower_mountPropagation (t : Grpc.MountPropagation) : st.upper (st.lower t.name) = t.name :=
  upper_lower (forall_mem_of_all (by cases t <;> decide))

theorem upper_lower_protocol (t : Grpc.Protocol) : st.upper (st.lower t.name) = t.name :=
  upper_lower (forall_mem_of_all (by cases t <;> decide))

/-! ## Errors -/

theorem bind_eq_ok {ε α β : Type} {x : Except ε α} {f : α → Except ε β} {b : β} :
    x >>= f = .ok b ↔ ∃ a, x = .ok a ∧ f a = .ok b := by
  cases x with
  | error e =>
    constructor
    · intro h
      cases h
    · rintro ⟨a, h, -⟩
      cases h
  | ok a =>
    constructor
    · exact fun h => ⟨a, rfl, h⟩
    · rintro ⟨a', ha, h⟩
      cases ha
      exact h

theorem forall₂_of_mapM {ε α β : Type} {f : α → Except ε β} {l : List α} {l' : List β} (h : l.mapM f = .ok l') :
    List.Forall₂ (fun a b => f a = .ok b) l l' := by
  induction l generalizing l' with
  | nil =>
    cases h
    exact .nil
  | cons a l ih =>
    rw [List.mapM_cons] at h
    obtain ⟨b, hb, h⟩ := bind_eq_ok.mp h
    obtain ⟨bs, hbs, h⟩ := bind_eq_ok.mp h
    cases h
    exact .cons hb (ih hbs)

/-! ## The parts -/

theorem sameName_mountType {s : String} {g : Grpc.MountType} (h : mountTypeToGRPC st s = .ok g) :
    SameName st "bind" s (st.lower g.name) := by
  unfold mountTypeToGRPC at h
  split at h
  · rename_i hv
    cases h
    exact .inr (equalFold_of_find? hv (upper_lower_mountType _))
  · split at h
    · cases h
    · rename_i hs
      cases h
      exact .inl ⟨not_not.mp hs, lower_of_ascii (s := "BIND") (forall_mem_of_all (by decide))⟩

theorem sameBindOptions {b : Option BindOptions} {g : Option Grpc.MountPropagation} (h : bindOptionsToGRPC st b = .ok g) :
    SameBindOptions st b (g.map fun p => { propagation := st.lower p.name }) := by
  unfold bindOptionsToGRPC at h
  split at h
  · cases h
    rfl
  · split at h
    · rename_i hv
      cases h
      exact equalFold_of_find? hv (upper_lower_mountPropagation _)
    · split at h
      · cases h
      · rename_i hs
        cases h
        exact not_not.mp hs

theorem driverFromGRPC_driverToGRPC (p : Option Driver) : driverFromGRPC (driverToGRPC p) = p := by
  cases p <;> rfl

theorem sameMount {m : Mount} {g : Grpc.Mount} (h : mountToGRPC st m = .ok g) : SameMount st m (mountFromGRPC st g) := by
  obtain ⟨type, htype, h⟩ := bind_eq_ok.mp h
  obtain ⟨options, hoptions, h⟩ := bind_eq_ok.mp h
  cases h
  refine ⟨sameName_mountType htype, rfl, rfl, rfl, sameBindOptions hoptions, ?_⟩
  rcases hv : m.volumeOptions with _ | ⟨noCopy, labels, _ | driver⟩ <;> simp only [mountFromGRPC] <;> rfl

theorem map_duration (d : Option Duration) : (d.map durationProto).map duration = d := by
  cases d with
  | none => rfl
  | some d => exact congrArg some (duration_durationProto d)

theorem sameContainer {c : ContainerSpec} {g : Grpc.ContainerSpec} (h : containerToGRPC st c = .ok g) :
    SameContainer st c (containerSpecFromGRPC st g) := by
  obtain ⟨mounts, hmounts, h⟩ := bind_eq_ok.mp h
  cases h
  refine ⟨rfl, rfl, rfl, rfl, rfl, rfl, rfl, ?_, map_duration _⟩
  exact List.forall₂_map_right_iff.mpr ((forall₂_of_mapM hmounts).imp fun _ _ => sameMount)

theorem resourcesFromGRPC_resourcesToGRPC (r : Option ResourceRequirements) :
    resourcesFromGRPC (resourcesToGRPC r) = r := by
  rcases r with _ | ⟨_ | limits, _ | reservations⟩ <;> rfl

theorem sameName_restartCondition {s : String} {g : Grpc.RestartCondition} (h : restartConditionToGRPC st s = .ok g) :
    SameName st "any" s (restartConditionFromGRPC g) := by
  unfold restartConditionToGRPC at h
  split at h
  · rename_i hs
    cases h
    exact .inr (by rw [hs]; rfl)
  split at h
  · rename_i hs
    cases h
    exact .inr (by rw [hs]; rfl)
  split at h
  · rename_i hs
    cases h
    exact .inr (by rw [hs]; rfl)
  split at h
  · cases h
  · rename_i hs
    cases h
    exact .inl ⟨not_not.mp hs, rfl⟩

theorem sameRestartPolicy {p : Option RestartPolicy} {g : Option Grpc.RestartPolicy} (h : restartPolicyToGRPC st p = .ok g) :
    Option.Rel (SameRestartPolicy st) p (restartPolicyFromGRPC g) := by
  cases p with
  | none =>
    cases h
    exact .none
  | some p =>
    obtain ⟨condition, hcondition, h⟩ := bind_eq_ok.mp h
    cases h
    exact .some ⟨sameName_restartCondition hcondition, map_duration _, rfl, map_duration _⟩

theorem sameName_failureAction {s : String} {g : Grpc.FailureAction} (h : failureActionToGRPC s = .ok g) :
    SameName st "pause" s (failureActionFromGRPC g) := by
  unfold failureActionToGRPC at h
  split at h
  · rename_i hs
    cases h
    rcases hs with hs | hs
    · exact .inr (by rw [hs]; rfl)
    · exact .inl ⟨hs, rfl⟩
  split at h
  · rename_i hs
    cases h
    exact .inr (by rw [hs]; rfl)
  · cases h

theorem sameUpdateConfig {u : Option UpdateConfig} {g : Option Grpc.UpdateConfig} (h : updateConfigToGRPC u = .ok g) :
    Option.Rel (SameUpdateConfig st) u (updateConfigFromGRPC g) := by
  cases u with
  | none =>
    cases h
    exact .none
  | some u =>
    obtain ⟨action, haction, h⟩ := bind_eq_ok.mp h
    cases h
    exact .some ⟨rfl, duration_durationProto _, sameName_failureAction haction⟩

/-- A protocol that is not known comes back as `tcp`, which is another one. -/
theorem sameName_protocol_iff (s : String) :
    SameName st "tcp" s (st.lower ((Grpc.Protocol.value (st.upper s)).getD .tcp).name) ↔
      s = "" ∨ st.EqualFold s "tcp" ∨ st.EqualFold s "udp" := by
  have htcp : st.upper "tcp" = Grpc.Protocol.tcp.name := upper_of_ascii (forall_mem_of_all (by decide))
  have hudp : st.upper "udp" = Grpc.Protocol.udp.name := upper_of_ascii (forall_mem_of_all (by decide))
  have hempty (hs : s = "") : st.lower ((Grpc.Protocol.value (st.upper s)).getD .tcp).name = "tcp" := by
    rw [hs, show Grpc.Protocol.value (st.upper "") = none by rw [upper_empty]; decide]
    exact lower_of_ascii (s := "TCP") (forall_mem_of_all (by decide))
  unfold SameName Strings.EqualFold
  rw [upper_lower_protocol, htcp, hudp, and_iff_left_of_imp hempty]
  refine or_congr_right ?_
  cases hv : Grpc.Protocol.value (st.upper s) with
  | some t =>
    have ht : t.name = st.upper s := by simpa using List.find?_some hv
    rw [← ht]
    cases t <;> simp
  | none =>
    have hne := List.find?_eq_none.mp hv
    have htcp : st.upper s ≠ Grpc.Protocol.tcp.name := fun h => hne .tcp (by simp) (by simp [h])
    have hudp : st.upper s ≠ Grpc.Protocol.udp.name := fun h => hne .udp (by simp) (by simp [h])
    simp [htcp, hudp]

/-- A port is the same just if its protocol is known. -/
theorem samePort_iff (p : PortConfig) : SamePort st p (portFromGRPC st (portToGRPC st p)) ↔ KnownProtocol st p := by
  refine ⟨fun h => (sameName_protocol_iff p.protocol).mp h.protocol, fun h => ?_⟩
  simp only [portFromGRPC, portToGRPC]
  exact ⟨rfl, (sameName_protocol_iff p.protocol).mpr h, rfl, rfl⟩

theorem sameName_resolutionMode {s : String} (h : ¬ (s ≠ "" ∧ s ≠ "vip" ∧ s ≠ "dnsrr")) :
    SameName st "vip" s (st.lower ((Grpc.ResolutionMode.value (st.upper s)).getD .vip).name) := by
  have hvip : st.upper "vip" = "VIP" := upper_of_ascii (forall_mem_of_all (by decide))
  have hdnsrr : st.upper "dnsrr" = "DNSRR" := upper_of_ascii (forall_mem_of_all (by decide))
  have hname : ∀ t : Grpc.ResolutionMode, st.upper (st.lower t.name) = t.name :=
    fun t => upper_lower (forall_mem_of_all (by cases t <;> decide))
  by_cases h₀ : s = ""
  · rw [h₀, show Grpc.ResolutionMode.value (st.upper "") = none by rw [upper_empty]; decide]
    exact .inl ⟨rfl, lower_of_ascii (s := "VIP") (forall_mem_of_all (by decide))⟩
  refine .inr ?_
  unfold Strings.EqualFold
  rw [hname]
  by_cases h₁ : s = "vip"
  · rw [h₁, hvip]
    decide
  · have h₂ : s = "dnsrr" := by
      by_contra h₂
      exact h ⟨h₀, h₁, h₂⟩
    rw [h₂, hdnsrr]
    decide

theorem sameEndpointSpec_iff {e : Option EndpointSpec} {g : Option Grpc.EndpointSpec} (h : endpointSpecToGRPC st e = .ok g) :
    Option.Rel (SameEndpointSpec st) e (endpointSpecFromGRPC st g) ↔
      ∀ e', e = some e' → ∀ p ∈ e'.ports, KnownProtocol st p := by
  cases e with
  | none =>
    cases h
    exact ⟨(fun _ e' he => by cases he), fun _ => .none⟩
  | some e =>
    rw [endpointSpecToGRPC] at h
    split at h
    · cases h
    · rename_i hmode
      have h := Except.ok.inj h
      subst h
      have hports : List.Forall₂ (SamePort st) e.ports ((e.ports.map (portToGRPC st)).map (portFromGRPC st)) ↔
          ∀ p ∈ e.ports, KnownProtocol st p := by
        rw [List.map_map, List.forall₂_map_right_iff, List.forall₂_same]
        exact forall₂_congr fun p _ => samePort_iff p
      simp only [endpointSpecFromGRPC, Option.map_some, Option.rel_some_some]
      constructor
      · intro h e' he
        obtain rfl := Option.some.inj he
        exact hports.mp h.ports
      · intro hk
        exact ⟨sameName_resolutionMode hmode, hports.mpr (hk e rfl)⟩

theorem sameMode {m : ServiceMode} (h : m.global = none ∨ m.replicated = none) :
    SameMode m (modeFromGRPC (some (modeToGRPC m))) := by
  rcases m with ⟨_ | ⟨_ | n⟩, _ | u⟩
  · exact ⟨rfl, rfl⟩
  · exact ⟨rfl, rfl⟩
  · exact ⟨rfl, rfl⟩
  · simp at h
  · exact ⟨rfl, rfl⟩
  · simp at h

/-- A spec that is accepted comes back the same, just if the protocols of its ports are known. -/
theorem roundTrip_iff {s : ServiceSpec} {g : Grpc.ServiceSpec} (hmode : s.mode.global = none ∨ s.mode.replicated = none)
    (h : serviceSpecToGRPC st s = .ok g) : SameSpec st s (serviceSpecFromGRPC st g) ↔ KnownProtocols st s := by
  obtain ⟨container, hcontainer, h⟩ := bind_eq_ok.mp h
  obtain ⟨restart, hrestart, h⟩ := bind_eq_ok.mp h
  obtain ⟨update, hupdate, h⟩ := bind_eq_ok.mp h
  obtain ⟨endpoint, hendpoint, h⟩ := bind_eq_ok.mp h
  have h := Except.ok.inj h
  subst h
  refine ⟨fun h => (sameEndpointSpec_iff hendpoint).mp h.endpointSpec, fun hk => ?_⟩
  exact {
    name := fun hname => if_neg hname
    labels := rfl
    container := sameContainer hcontainer
    resources := resourcesFromGRPC_resourcesToGRPC _
    restartPolicy := sameRestartPolicy hrestart
    placement := by cases s.taskTemplate.placement <;> rfl
    logDriver := driverFromGRPC_driverToGRPC _
    mode := sameMode hmode
    updateConfig := sameUpdateConfig hupdate
    networks := by simp [serviceSpecFromGRPC]
    endpointSpec := (sameEndpointSpec_iff hendpoint).mpr hk }

end

theorem Strings.toUpper_ascii (c : Char) (_ : c.toNat < 128) : Char.toUpper c = c.toUpper := rfl

theorem Strings.toLower_ascii (c : Char) (_ : c.toNat < 128) : Char.toLower c = c.toLower := rfl

/-- Letters without accents, and quotation marks around a string. -/
def Strings.ascii : Strings where
  upperRune := Char.toUpper
  lowerRune := Char.toLower
  upperRune_ascii := Strings.toUpper_ascii
  lowerRune_ascii := Strings.toLower_ascii
  quote s := "\"" ++ s ++ "\""
  randomName := "angry_bell"

/-- A service with one port. -/
def dnsService (protocol : String) : ServiceSpec where
  name := "dns"
  endpointSpec := some { ports := [⟨"", protocol, 53, 53⟩] }

/-- A protocol in capitals. -/
theorem roundTrip_udp : ∃ g, serviceSpecToGRPC .ascii (dnsService "UDP") = .ok g ∧
    SameSpec .ascii (dnsService "UDP") (serviceSpecFromGRPC .ascii g) := by
  refine ⟨_, rfl, (roundTrip_iff (.inl rfl) rfl).mpr ?_⟩
  rintro e he p hp
  obtain rfl := Option.some.inj he
  obtain rfl := List.mem_singleton.mp hp
  exact .inr (.inr (by unfold Strings.EqualFold; decide))

/-- A protocol that there is not is turned into `tcp`. -/
theorem roundTrip_sctp : ∃ g, serviceSpecToGRPC .ascii (dnsService "sctp") = .ok g ∧
    (serviceSpecFromGRPC .ascii g).endpointSpec.map (·.ports) = some [⟨"", "tcp", 53, 53⟩] ∧
    ¬ SameSpec .ascii (dnsService "sctp") (serviceSpecFromGRPC .ascii g) := by
  refine ⟨_, rfl, by decide +kernel, fun h => ?_⟩
  have hk : KnownProtocol .ascii ⟨"", "sctp", 53, 53⟩ :=
    (sameEndpointSpec_iff rfl).mp h.endpointSpec { ports := [⟨"", "sctp", 53, 53⟩] } rfl _ (List.mem_singleton.mpr rfl)
  unfold KnownProtocol Strings.EqualFold at hk
  revert hk
  decide +kernel

end Moby.Swarm
