import Moby.Swarm.Ports

/-!
# The update of a service

`docker service update` changes the spec of a service by the flags it is given. Most flags change
their own field (`Frame`). Two do more: a limit of the CPUs replaces the limits as a whole, so that
a limit of the memory is lost, and the other way round; and the environment goes through a map, so
that it comes back in any order, with flags for it or without (`updateService_frame_iff`).
-/

namespace Moby.Swarm

open Moby.Framework

/-- The flags of `service update`, each with its value if it was given. -/
structure Flags where
  name : Option String := none
  labelAdd : Option (List String) := none
  labelRemove : Option (List String) := none
  containerLabelAdd : Option (List String) := none
  containerLabelRemove : Option (List String) := none
  image : Option String := none
  args : Option String := none
  envAdd : Option (List String) := none
  envRemove : Option (List String) := none
  workdir : Option String := none
  user : Option String := none
  mountAdd : Option (List Mount) := none
  mountRemove : Option (List String) := none
  limitCPU : Option Int64 := none
  limitMemory : Option Int64 := none
  reserveCPU : Option Int64 := none
  reserveMemory : Option Int64 := none
  stopGracePeriod : Option Duration := none
  restartCondition : Option String := none
  restartDelay : Option Duration := none
  restartMaxAttempts : Option UInt64 := none
  restartWindow : Option Duration := none
  constraintAdd : Option (List String) := none
  constraintRemove : Option (List String) := none
  replicas : Option UInt64 := none
  updateParallelism : Option UInt64 := none
  updateDelay : Option Duration := none
  updateFailureAction : Option String := none
  endpointMode : Option String := none
  publishAdd : Option (List String) := none
  publishRemove : Option (List String) := none
  logDriver : Option String := none
  logOpt : Option (List String) := none

/-- What the loops over maps and the libraries do. -/
structure UpdateRuntime extends Runtime where
  envSet : Range String String
  /-- `shlex.Split`. -/
  shlexSplit : String → List String

/-! ## Labels, lists and the environment -/

/-- `envKey`: what is before the first `=`. -/
def envKey (value : String) : String :=
  match cut '=' value with
  | none => value
  | some (key, _) => key

/-- What is after the first `=`. -/
def envValue (value : String) : String :=
  match cut '=' value with
  | none => ""
  | some (_, v) => v

/-- `ConvertKVStringsToMap`. -/
def convertKVStringsToMap (values : List String) : Map String String :=
  values.foldl (fun m value => m.insert (envKey value) (envValue value)) ∅

/-- `updateLabels` and `updateContainerLabels`. -/
def updateLabels (add remove : Option (List String)) (field : Map String String) : Map String String :=
  let field := match add with
    | none => field
    | some values => convertKVStringsToMap values ∪ field
  (remove.getD []).foldl (fun m label => m.erase label) field

/-- `removeItems`, where `toRemove` has been built from a flag. -/
def removeItems {α : Type} (seq : List α) (toRemove : Option (List String)) (keyFunc : α → String) : List α :=
  seq.filter fun item => keyFunc item ∉ toRemove.getD []

/-- `envSet`. -/
def putEnv (envSet : Map String String) (values : List String) : Map String String :=
  values.foldl (fun m v => m.insert (envKey v) v) envSet

/-- `updateEnvironment`. -/
def updateEnvironment (rt : UpdateRuntime) (add remove : Option (List String)) (field : List String) : List String :=
  let envSet := putEnv (putEnv ∅ field) (add.getD [])
  removeItems ((rt.envSet.list envSet).map Sigma.snd) remove envKey

/-- `updateMounts`. -/
def updateMounts (add : Option (List Mount)) (remove : Option (List String)) (mounts : List Mount) : List Mount :=
  removeItems (mounts ++ add.getD []) remove Mount.target

/-- `updatePlacement`. -/
def updatePlacement (add remove : Option (List String)) (placement : Placement) : Placement where
  constraints := removeItems (placement.constraints ++ add.getD []) remove id

/-! ## Fields -/

/-- A limit or a reservation. -/
def updateResources (cpu memory : Option Int64) (resources : Option Resources) : Option Resources :=
  if cpu.isSome ∨ memory.isSome then some { nanoCPUs := cpu.getD 0, memoryBytes := memory.getD 0 } else resources

section

variable (rt : UpdateRuntime) (flags : Flags)

def updateContainerSpec (cspec : ContainerSpec) : ContainerSpec where
  image := flags.image.getD cspec.image
  labels := updateLabels flags.containerLabelAdd flags.containerLabelRemove cspec.labels
  command := cspec.command
  args := match flags.args with
    | none => cspec.args
    | some value => rt.shlexSplit value
  env := updateEnvironment rt flags.envAdd flags.envRemove cspec.env
  dir := flags.workdir.getD cspec.dir
  user := flags.user.getD cspec.user
  mounts := updateMounts flags.mountAdd flags.mountRemove cspec.mounts
  stopGracePeriod := flags.stopGracePeriod.or cspec.stopGracePeriod

def updateResourceRequirements (resources : Option ResourceRequirements) : Option ResourceRequirements :=
  if flags.limitCPU.isSome ∨ flags.limitMemory.isSome ∨ flags.reserveCPU.isSome ∨ flags.reserveMemory.isSome then
    let r := resources.getD {}
    some {
      limits := updateResources flags.limitCPU flags.limitMemory r.limits
      reservations := updateResources flags.reserveCPU flags.reserveMemory r.reservations }
  else resources

def updateRestartPolicy (policy : Option RestartPolicy) : Option RestartPolicy :=
  if flags.restartCondition.isSome ∨ flags.restartDelay.isSome ∨ flags.restartMaxAttempts.isSome ∨
      flags.restartWindow.isSome then
    let p := policy.getD {}
    some {
      condition := flags.restartCondition.getD p.condition
      delay := flags.restartDelay.or p.delay
      maxAttempts := flags.restartMaxAttempts.or p.maxAttempts
      window := flags.restartWindow.or p.window }
  else policy

def updateTask (task : TaskSpec) : TaskSpec where
  containerSpec := updateContainerSpec rt flags task.containerSpec
  resources := updateResourceRequirements flags task.resources
  restartPolicy := updateRestartPolicy flags task.restartPolicy
  placement :=
    if flags.constraintAdd.isSome ∨ flags.constraintRemove.isSome then
      some (updatePlacement flags.constraintAdd flags.constraintRemove (task.placement.getD {}))
    else task.placement
  logDriver := task.logDriver

/-- `updateReplicas`. -/
def updateReplicas (mode : ServiceMode) : Except String ServiceMode :=
  match flags.replicas with
  | none => .ok mode
  | some n =>
    match mode.replicated with
    | none => .error "replicas can only be used with replicated mode"
    | some _ => .ok { mode with replicated := some ⟨some n⟩ }

def updateUpdateConfig (config : Option UpdateConfig) : Option UpdateConfig :=
  if flags.updateParallelism.isSome ∨ flags.updateDelay.isSome ∨ flags.updateFailureAction.isSome then
    let c := config.getD {}
    some {
      parallelism := flags.updateParallelism.getD c.parallelism
      delay := flags.updateDelay.getD c.delay
      failureAction := flags.updateFailureAction.getD c.failureAction }
  else config

def updateEndpointMode (endpoint : Option EndpointSpec) : Option EndpointSpec :=
  match flags.endpointMode with
  | none => endpoint
  | some value => some { endpoint.getD {} with mode := value }

/-- The endpoint, and the error of `updatePorts`, which leaves the ports as they are. -/
def updateEndpointPorts (endpoint : Option EndpointSpec) : Option EndpointSpec × Option String :=
  if flags.publishAdd.isSome ∨ flags.publishRemove.isSome then
    let e := endpoint.getD {}
    match updatePorts rt.toRuntime flags.publishAdd (flags.publishRemove.getD []) e.ports with
    | .error err => (some e, some err)
    | .ok ports => (some { e with ports }, none)
  else (endpoint, none)

/-- `updateLogDriver`. -/
def updateLogDriver (driver : Option Driver) : Option Driver :=
  match flags.logDriver with
  | none => driver
  | some name =>
    if name = "" then driver else some { name, options := convertKVStringsToMap (flags.logOpt.getD []) }

/-- `updateService`: the spec, which has been changed in place also where there is an error. -/
def updateService (spec : ServiceSpec) : ServiceSpec × Option String :=
  let spec := { spec with
    name := flags.name.getD spec.name
    labels := updateLabels flags.labelAdd flags.labelRemove spec.labels
    taskTemplate := updateTask rt flags spec.taskTemplate }
  match updateReplicas flags spec.mode with
  | .error err => (spec, some err)
  | .ok mode =>
    let (endpointSpec, err) := updateEndpointPorts rt flags (updateEndpointMode flags spec.endpointSpec)
    let spec := { spec with mode, updateConfig := updateUpdateConfig flags spec.updateConfig, endpointSpec }
    match err with
    | some err => (spec, some err)
    | none =>
      let logDriver := updateLogDriver flags spec.taskTemplate.logDriver
      ({ spec with taskTemplate := { spec.taskTemplate with logDriver } }, none)

end

/-! ## What a flag names -/

/-- A field whose flag is not given keeps its value. -/
def Kept {α β : Type} (flag : Option α) (x x' : β) : Prop := flag = none → x' = x

/-- An entry of the environment is named by a flag. -/
def Flags.NamesEnv (flags : Flags) (v : String) : Prop :=
  envKey v ∈ (flags.envAdd.getD []).map envKey ∨ envKey v ∈ flags.envRemove.getD []

/-- A mount is named by a flag, by its target. -/
def Flags.NamesMount (flags : Flags) (m : Mount) : Prop :=
  m.target ∈ (flags.mountAdd.getD []).map Mount.target ∨ m.target ∈ flags.mountRemove.getD []

/-- A constraint is named by a flag. -/
def Flags.NamesConstraint (flags : Flags) (c : String) : Prop :=
  c ∈ flags.constraintAdd.getD [] ∨ c ∈ flags.constraintRemove.getD []

/-- A label is named by one of two flags. -/
def NamesLabel (add remove : Option (List String)) (k : String) : Prop :=
  k ∈ (add.getD []).map envKey ∨ k ∈ remove.getD []

instance (flags : Flags) : DecidablePred flags.NamesEnv := fun _ => inferInstanceAs (Decidable (_ ∨ _))
instance (flags : Flags) : DecidablePred flags.NamesMount := fun _ => inferInstanceAs (Decidable (_ ∨ _))
instance (flags : Flags) : DecidablePred flags.NamesConstraint := fun _ => inferInstanceAs (Decidable (_ ∨ _))

namespace TaskSpec

variable (task : TaskSpec)

def limits : Resources := (task.resources.bind (·.limits)).getD {}

def reservations : Resources := (task.resources.bind (·.reservations)).getD {}

def restart : RestartPolicy := task.restartPolicy.getD {}

def constraints : List String := (task.placement.getD {}).constraints

end TaskSpec

/-- What is not named by a flag is the same in two containers. -/
structure ContainerFrame (flags : Flags) (c c' : ContainerSpec) : Prop where
  image : Kept flags.image c.image c'.image
  labels : ∀ k, ¬ NamesLabel flags.containerLabelAdd flags.containerLabelRemove k → c'.labels.lookup k = c.labels.lookup k
  command : c'.command = c.command
  args : Kept flags.args c.args c'.args
  env : (c'.env.filter (¬ flags.NamesEnv ·)) = c.env.filter (¬ flags.NamesEnv ·)
  dir : Kept flags.workdir c.dir c'.dir
  user : Kept flags.user c.user c'.user
  mounts : (c'.mounts.filter (¬ flags.NamesMount ·)) = c.mounts.filter (¬ flags.NamesMount ·)
  stopGracePeriod : Kept flags.stopGracePeriod c.stopGracePeriod c'.stopGracePeriod

/-- What is not named by a flag is the same in two tasks. -/
structure TaskFrame (flags : Flags) (t t' : TaskSpec) : Prop where
  container : ContainerFrame flags t.containerSpec t'.containerSpec
  limitCPU : Kept flags.limitCPU t.limits.nanoCPUs t'.limits.nanoCPUs
  limitMemory : Kept flags.limitMemory t.limits.memoryBytes t'.limits.memoryBytes
  reserveCPU : Kept flags.reserveCPU t.reservations.nanoCPUs t'.reservations.nanoCPUs
  reserveMemory : Kept flags.reserveMemory t.reservations.memoryBytes t'.reservations.memoryBytes
  restartCondition : Kept flags.restartCondition t.restart.condition t'.restart.condition
  restartDelay : Kept flags.restartDelay t.restart.delay t'.restart.delay
  restartMaxAttempts : Kept flags.restartMaxAttempts t.restart.maxAttempts t'.restart.maxAttempts
  restartWindow : Kept flags.restartWindow t.restart.window t'.restart.window
  constraints : (t'.constraints.filter (¬ flags.NamesConstraint ·)) = t.constraints.filter (¬ flags.NamesConstraint ·)
  logDriver : Kept flags.logDriver t.logDriver t'.logDriver

/-- What is not named by a flag is the same in two specs, and without a flag all is. -/
structure Frame (flags : Flags) (s s' : ServiceSpec) : Prop where
  name : Kept flags.name s.name s'.name
  labels : ∀ k, ¬ NamesLabel flags.labelAdd flags.labelRemove k → s'.labels.lookup k = s.labels.lookup k
  task : TaskFrame flags s.taskTemplate s'.taskTemplate
  replicas : Kept flags.replicas s.mode s'.mode
  global : s'.mode.global = s.mode.global
  updateParallelism : Kept flags.updateParallelism (s.updateConfig.getD {}).parallelism (s'.updateConfig.getD {}).parallelism
  updateDelay : Kept flags.updateDelay (s.updateConfig.getD {}).delay (s'.updateConfig.getD {}).delay
  updateFailureAction : Kept flags.updateFailureAction (s.updateConfig.getD {}).failureAction
    (s'.updateConfig.getD {}).failureAction
  networks : s'.networks = s.networks
  endpointMode : Kept flags.endpointMode (s.endpointSpec.getD {}).mode (s'.endpointSpec.getD {}).mode
  ports : flags.publishAdd = none → flags.publishRemove = none →
    (s'.endpointSpec.getD {}).ports = (s.endpointSpec.getD {}).ports
  unchanged : flags = {} → s' = s

/-- A limit that is given comes with the other one, or there is no other one. -/
def Paired (cpu memory : Option Int64) (r : Resources) : Prop :=
  (cpu ≠ none → memory = none → r.memoryBytes = 0) ∧ (memory ≠ none → cpu = none → r.nanoCPUs = 0)

/-- What the update takes for granted: limits and reservations are given in pairs, and no flag leaves out
more than one entry of the environment. -/
def Flags.Whole (flags : Flags) (s : ServiceSpec) : Prop :=
  Paired flags.limitCPU flags.limitMemory s.taskTemplate.limits ∧
  Paired flags.reserveCPU flags.reserveMemory s.taskTemplate.reservations ∧
  (s.taskTemplate.containerSpec.env.filter (¬ flags.NamesEnv ·)).length ≤ 1

/-! ## Labels and lists -/

theorem lookup_foldl_erase (l : List String) (m : Map String String) (k : String) (h : k ∉ l) :
    (l.foldl (fun m label => m.erase label) m).lookup k = m.lookup k := by
  induction l generalizing m with
  | nil => rfl
  | cons a l ih =>
    rw [List.foldl_cons, ih _ fun hk => h (.tail _ hk), Finmap.lookup_erase', if_neg]
    rintro rfl
    exact h List.mem_cons_self

theorem lookup_foldl_insert_of_notMem {l : List String} {f : String → String} (m : Map String String) {k : String}
    (h : k ∉ l.map envKey) : (l.foldl (fun m v => m.insert (envKey v) (f v)) m).lookup k = m.lookup k := by
  induction l generalizing m with
  | nil => rfl
  | cons a l ih =>
    rw [List.map_cons, List.mem_cons, not_or] at h
    rw [List.foldl_cons, ih _ h.2, Finmap.lookup_insert_of_ne m h.1]

/-- A label that is not named is kept. -/
theorem lookup_updateLabels {add remove : Option (List String)} {k : String} (h : ¬ NamesLabel add remove k)
    (m : Map String String) : (updateLabels add remove m).lookup k = m.lookup k := by
  rw [NamesLabel, not_or] at h
  unfold updateLabels
  rw [lookup_foldl_erase _ _ _ h.2]
  cases add with
  | none => rfl
  | some values =>
    have hk : (convertKVStringsToMap values).lookup k = none := lookup_foldl_insert_of_notMem ∅ h.1
    exact Finmap.lookup_union_right (Finmap.lookup_eq_none.mp hk)

/-- The items that are not named are kept, in their order. -/
theorem filter_removeItems {α : Type} {l adds : List α} {remove : Option (List String)} {key : α → String}
    {named : α → Prop} [DecidablePred named] (hadd : ∀ x ∈ adds, named x)
    (hremove : ∀ x, key x ∈ remove.getD [] → named x) :
    (removeItems (l ++ adds) remove key).filter (¬ named ·) = l.filter (¬ named ·) := by
  have hnone : adds.filter (¬ named ·) = [] := List.filter_eq_nil_iff.mpr fun x hx => by simpa using hadd x hx
  have hfilter : ∀ l : List α, (removeItems l remove key).filter (¬ named ·) = l.filter (¬ named ·) := fun l => by
    rw [removeItems, List.filter_filter]
    refine List.filter_congr fun x _ => ?_
    by_cases hx : named x
    · simp [hx]
    · have hkey : key x ∉ remove.getD [] := fun h => hx (hremove x h)
      simp [hx, hkey]
  rw [hfilter, List.filter_append, hnone, List.append_nil]

/-! ## The environment -/

section

variable {rt : UpdateRuntime} {flags : Flags} {env : List String}

/-- An entry of the map is the last of its key. -/
theorem lookup_putEnv (l : List String) (m : Map String String) (k : String) :
    (putEnv m l).lookup k = (l.reverse.find? fun v => envKey v = k).or (m.lookup k) := by
  induction l generalizing m with
  | nil => rfl
  | cons v l ih =>
    rw [putEnv, List.foldl_cons, ← putEnv, ih, Finmap.lookup_insert', List.reverse_cons, List.find?_append]
    cases l.reverse.find? fun v => envKey v = k with
    | some w => rfl
    | none =>
      by_cases h : k = envKey v
      · simp [h]
      · simp [h, Ne.symm h]

theorem envKey_of_lookup {k v : String} (h : (putEnv (putEnv ∅ env) (flags.envAdd.getD [])).lookup k = some v) :
    envKey v = k := by
  rw [lookup_putEnv, lookup_putEnv, Option.or_eq_some_iff, Option.or_eq_some_iff] at h
  rcases h with h | ⟨-, h | ⟨-, h⟩⟩
  · simpa using List.find?_some h
  · simpa using List.find?_some h
  · cases h

/-- The entries of the environment that are not named, after an update. -/
theorem mem_updateEnvironment {v : String} :
    v ∈ (updateEnvironment rt flags.envAdd flags.envRemove env).filter (¬ flags.NamesEnv ·) ↔
      ¬ flags.NamesEnv v ∧ (env.reverse.find? fun w => envKey w = envKey v) = some v := by
  simp only [List.mem_filter, decide_eq_true_eq, updateEnvironment, removeItems, List.mem_map]
  rw [and_comm]
  refine and_congr_right fun hv => ?_
  have hlookup : (putEnv (putEnv ∅ env) (flags.envAdd.getD [])).lookup (envKey v) =
      env.reverse.find? fun w => envKey w = envKey v := by
    have hadd : envKey v ∉ (flags.envAdd.getD []).map envKey := fun h => hv (.inl h)
    have hkeep := lookup_foldl_insert_of_notMem (f := id) (putEnv ∅ env) hadd
    exact hkeep.trans ((lookup_putEnv env ∅ _).trans Option.or_none)
  rw [← hlookup]
  constructor
  · rintro ⟨⟨⟨k, w⟩, hw, rfl⟩, -⟩
    rw [rt.envSet.mem_list] at hw
    rw [envKey_of_lookup hw]
    exact hw
  · intro h
    exact ⟨⟨⟨envKey v, v⟩, rt.envSet.mem_list.mpr h, rfl⟩, fun hr => hv (.inr hr)⟩

theorem nodup_updateEnvironment :
    ((updateEnvironment rt flags.envAdd flags.envRemove env).filter (¬ flags.NamesEnv ·)).Nodup := by
  refine List.Nodup.filter _ (List.Nodup.filter _ ?_)
  refine (rt.envSet.nodup_list _).map_on ?_
  rintro ⟨k, v⟩ h ⟨k', v'⟩ h' rfl
  rw [rt.envSet.mem_list] at h h'
  rw [← envKey_of_lookup h, ← envKey_of_lookup h']

/-- Backwards. -/
def UpdateRuntime.reverse (rt : UpdateRuntime) : UpdateRuntime := { rt with envSet := rt.envSet.reverse }

theorem updateEnvironment_reverse : updateEnvironment rt.reverse flags.envAdd flags.envRemove env =
    (updateEnvironment rt flags.envAdd flags.envRemove env).reverse := by
  simp only [updateEnvironment, removeItems, UpdateRuntime.reverse, Range.reverse, List.map_reverse,
    List.filter_reverse]

theorem length_le_one_of_eq_reverse {α : Type} {l : List α} (hn : l.Nodup) (h : l.reverse = l) : l.length ≤ 1 := by
  cases l with
  | nil => simp
  | cons a l =>
    cases l using List.reverseRecOn with
    | nil => simp
    | append_singleton l b =>
      simp only [List.reverse_cons, List.reverse_append, List.reverse_nil, List.nil_append,
        List.cons_append, List.cons.injEq] at h
      rw [h.1] at hn
      simp at hn

/-- The entries that are not named are kept in every order of the map, just if there is at most one. -/
theorem updateEnvironment_frame_iff (rt₀ : UpdateRuntime) :
    (∀ rt : UpdateRuntime, (updateEnvironment rt flags.envAdd flags.envRemove env).filter (¬ flags.NamesEnv ·) =
      env.filter (¬ flags.NamesEnv ·)) ↔ (env.filter (¬ flags.NamesEnv ·)).length ≤ 1 := by
  constructor
  · intro h
    have hr := h rt₀.reverse
    rw [updateEnvironment_reverse, List.filter_reverse, h rt₀] at hr
    refine length_le_one_of_eq_reverse ?_ hr
    rw [← h rt₀]
    exact nodup_updateEnvironment
  · intro hlen rt
    have hsub : ∀ v ∈ (updateEnvironment rt flags.envAdd flags.envRemove env).filter (¬ flags.NamesEnv ·),
        v ∈ env.filter (¬ flags.NamesEnv ·) := by
      intro v hv
      obtain ⟨hnamed, hfind⟩ := mem_updateEnvironment.mp hv
      exact List.mem_filter.mpr ⟨List.mem_reverse.mp (List.mem_of_find?_eq_some hfind), decide_eq_true hnamed⟩
    cases hkept : env.filter (¬ flags.NamesEnv ·) with
    | nil =>
      rw [hkept] at hsub
      exact List.eq_nil_iff_forall_not_mem.mpr fun v hv => by cases hsub v hv
    | cons v rest =>
      rw [hkept] at hsub
      rw [hkept, List.length_cons] at hlen
      obtain rfl : rest = [] := List.length_eq_zero_iff.mp (by omega)
      refine List.perm_singleton.mp ((List.perm_ext_iff_of_nodup nodup_updateEnvironment (by simp)).mpr fun w => ?_)
      refine ⟨hsub w, ?_⟩
      -- an entry with the key of `v` is not named either, so that it is `v`
      rintro hw
      obtain rfl := List.mem_singleton.mp hw
      have hv : w ∈ env.filter (¬ flags.NamesEnv ·) := by rw [hkept]; exact hw
      obtain ⟨hmem, hnamed⟩ := List.mem_filter.mp hv
      rw [decide_eq_true_eq] at hnamed
      refine mem_updateEnvironment.mpr ⟨hnamed, ?_⟩
      cases hfind : env.reverse.find? fun u => envKey u = envKey w with
      | none => simpa using List.find?_eq_none.mp hfind w (List.mem_reverse.mpr hmem)
      | some u =>
        have hkey : envKey u = envKey w := by simpa using List.find?_some hfind
        have hu : u ∈ env.filter (¬ flags.NamesEnv ·) := by
          refine List.mem_filter.mpr ⟨List.mem_reverse.mp (List.mem_of_find?_eq_some hfind), decide_eq_true ?_⟩
          rwa [Flags.NamesEnv, hkey]
        rw [hkept] at hu
        rw [List.mem_singleton.mp hu]

end

/-! ## The frame -/

theorem updateResources_frame_iff {cpu memory : Option Int64} {r : Option Resources} :
    (Kept cpu (r.getD {}).nanoCPUs ((updateResources cpu memory r).getD {}).nanoCPUs ∧
      Kept memory (r.getD {}).memoryBytes ((updateResources cpu memory r).getD {}).memoryBytes) ↔
    Paired cpu memory (r.getD {}) := by
  cases cpu <;> cases memory <;> simp [updateResources, Kept, Paired, eq_comm]

section

variable (rt : UpdateRuntime) (flags : Flags)

theorem limits_updateTask (task : TaskSpec) : (updateTask rt flags task).limits =
    (updateResources flags.limitCPU flags.limitMemory (task.resources.bind (·.limits))).getD {} := by
  change ((updateResourceRequirements flags task.resources).bind (·.limits)).getD {} = _
  unfold updateResourceRequirements
  split
  · cases task.resources <;> rfl
  · rename_i h
    simp only [not_or, Bool.not_eq_true, Option.isSome_eq_false_iff, Option.isNone_iff_eq_none] at h
    rw [h.1, h.2.1]
    rfl

theorem reservations_updateTask (task : TaskSpec) : (updateTask rt flags task).reservations =
    (updateResources flags.reserveCPU flags.reserveMemory (task.resources.bind (·.reservations))).getD {} := by
  change ((updateResourceRequirements flags task.resources).bind (·.reservations)).getD {} = _
  unfold updateResourceRequirements
  split
  · cases task.resources <;> rfl
  · rename_i h
    simp only [not_or, Bool.not_eq_true, Option.isSome_eq_false_iff, Option.isNone_iff_eq_none] at h
    rw [h.2.2.1, h.2.2.2]
    rfl

theorem restart_updateTask (task : TaskSpec) : (updateTask rt flags task).restart = {
    condition := flags.restartCondition.getD task.restart.condition
    delay := flags.restartDelay.or task.restart.delay
    maxAttempts := flags.restartMaxAttempts.or task.restart.maxAttempts
    window := flags.restartWindow.or task.restart.window } := by
  change (updateRestartPolicy flags task.restartPolicy).getD {} = _
  unfold updateRestartPolicy
  split
  · rfl
  · rename_i h
    simp only [not_or, Bool.not_eq_true, Option.isSome_eq_false_iff, Option.isNone_iff_eq_none] at h
    rw [h.1, h.2.1, h.2.2.1, h.2.2.2]
    rfl

theorem constraints_updateTask (task : TaskSpec) : (updateTask rt flags task).constraints =
    removeItems (task.constraints ++ flags.constraintAdd.getD []) flags.constraintRemove id := by
  unfold TaskSpec.constraints updateTask
  split
  · rfl
  · rename_i h
    simp only [not_or, Bool.not_eq_true, Option.isSome_eq_false_iff, Option.isNone_iff_eq_none] at h
    simp [h.1, h.2, removeItems]

/-- The container is kept as far as its environment is. -/
theorem containerFrame_iff (c : ContainerSpec) : ContainerFrame flags c (updateContainerSpec rt flags c) ↔
    (updateEnvironment rt flags.envAdd flags.envRemove c.env).filter (¬ flags.NamesEnv ·) =
      c.env.filter (¬ flags.NamesEnv ·) := by
  refine ⟨fun h => h.env, fun henv => ?_⟩
  exact {
    image := fun h => by rw [updateContainerSpec, h]; rfl
    labels := fun k hk => lookup_updateLabels hk _
    command := rfl
    args := fun h => by simp only [updateContainerSpec, h]
    env := henv
    dir := fun h => by rw [updateContainerSpec, h]; rfl
    user := fun h => by rw [updateContainerSpec, h]; rfl
    mounts := filter_removeItems (fun m hm => .inl (List.mem_map_of_mem hm)) fun m hm => .inr hm
    stopGracePeriod := fun h => by rw [updateContainerSpec, h]; rfl }

/-- The task is kept as far as its environment, its limits and its reservations are. -/
theorem taskFrame_iff (task : TaskSpec) (driver : Option Driver) (hdriver : Kept flags.logDriver task.logDriver driver) :
    TaskFrame flags task { updateTask rt flags task with logDriver := driver } ↔
    (updateEnvironment rt flags.envAdd flags.envRemove task.containerSpec.env).filter (¬ flags.NamesEnv ·) =
      task.containerSpec.env.filter (¬ flags.NamesEnv ·) ∧
    Paired flags.limitCPU flags.limitMemory task.limits ∧
    Paired flags.reserveCPU flags.reserveMemory task.reservations := by
  have hlimits := limits_updateTask rt flags task
  have hres := reservations_updateTask rt flags task
  have hrestart := restart_updateTask rt flags task
  have hcons := constraints_updateTask rt flags task
  constructor
  · intro h
    refine ⟨(containerFrame_iff rt flags _).mp h.container, updateResources_frame_iff.mp ⟨?_, ?_⟩,
      updateResources_frame_iff.mp ⟨?_, ?_⟩⟩
    · rw [← hlimits]; exact h.limitCPU
    · rw [← hlimits]; exact h.limitMemory
    · rw [← hres]; exact h.reserveCPU
    · rw [← hres]; exact h.reserveMemory
  · rintro ⟨henv, hl, hr⟩
    obtain ⟨hl₁, hl₂⟩ := updateResources_frame_iff.mpr hl
    obtain ⟨hr₁, hr₂⟩ := updateResources_frame_iff.mpr hr
    rw [← hlimits] at hl₁ hl₂
    rw [← hres] at hr₁ hr₂
    exact {
      container := (containerFrame_iff rt flags _).mpr henv
      limitCPU := hl₁
      limitMemory := hl₂
      reserveCPU := hr₁
      reserveMemory := hr₂
      restartCondition := fun h => (congrArg RestartPolicy.condition hrestart).trans (by rw [h]; rfl)
      restartDelay := fun h => (congrArg RestartPolicy.delay hrestart).trans (by rw [h]; rfl)
      restartMaxAttempts := fun h => (congrArg RestartPolicy.maxAttempts hrestart).trans (by rw [h]; rfl)
      restartWindow := fun h => (congrArg RestartPolicy.window hrestart).trans (by rw [h]; rfl)
      constraints := (congrArg (List.filter _) hcons).trans
        (filter_removeItems (fun c hc => .inl hc) fun c hc => .inr hc)
      logDriver := hdriver }

variable {flags} in
theorem updateReplicas_frame {mode mode' : ServiceMode} (h : updateReplicas flags mode = .ok mode') :
    Kept flags.replicas mode mode' ∧ mode'.global = mode.global := by
  unfold updateReplicas at h
  split at h
  · cases h
    exact ⟨fun _ => rfl, rfl⟩
  · rename_i n hn
    split at h
    · cases h
    · cases h
      exact ⟨fun h => absurd (h.symm.trans hn) (by simp), rfl⟩

theorem updateUpdateConfig_frame (config : Option UpdateConfig) :
    (updateUpdateConfig flags config).getD {} = {
      parallelism := flags.updateParallelism.getD (config.getD {}).parallelism
      delay := flags.updateDelay.getD (config.getD {}).delay
      failureAction := flags.updateFailureAction.getD (config.getD {}).failureAction } := by
  unfold updateUpdateConfig
  split
  · rfl
  · rename_i h
    simp only [not_or, Bool.not_eq_true, Option.isSome_eq_false_iff, Option.isNone_iff_eq_none] at h
    rw [h.1, h.2.1, h.2.2]
    rfl

theorem updateEndpoint_frame (endpoint : Option EndpointSpec) :
    let e := (updateEndpointPorts rt flags (updateEndpointMode flags endpoint)).1
    Kept flags.endpointMode (endpoint.getD {}).mode (e.getD {}).mode ∧
    (flags.publishAdd = none → flags.publishRemove = none → (e.getD {}).ports = (endpoint.getD {}).ports) := by
  have hmode : Kept flags.endpointMode endpoint (updateEndpointMode flags endpoint) ∧
      ((updateEndpointMode flags endpoint).getD {}).ports = (endpoint.getD {}).ports := by
    unfold updateEndpointMode
    cases flags.endpointMode with
    | none => exact ⟨fun _ => rfl, rfl⟩
    | some value => exact ⟨(fun h => by cases h), rfl⟩
  unfold updateEndpointPorts
  split
  · rename_i h
    refine ⟨fun hm => ?_, fun ha hr => ?_⟩
    · simp only [hmode.1 hm]
      split <;> rfl
    · rw [ha, hr] at h
      simp at h
  · exact ⟨fun hm => by rw [hmode.1 hm], fun _ _ => hmode.2⟩

/-- The parts of a spec after an update. -/
structure Parts (s s' : ServiceSpec) : Prop where
  name : s'.name = flags.name.getD s.name
  labels : s'.labels = updateLabels flags.labelAdd flags.labelRemove s.labels
  networks : s'.networks = s.networks
  task : ∃ driver, Kept flags.logDriver s.taskTemplate.logDriver driver ∧
    s'.taskTemplate = { updateTask rt flags s.taskTemplate with logDriver := driver }
  mode : Kept flags.replicas s.mode s'.mode ∧ s'.mode.global = s.mode.global
  updateConfig : s'.updateConfig = s.updateConfig ∨ s'.updateConfig = updateUpdateConfig flags s.updateConfig
  endpointSpec : s'.endpointSpec = s.endpointSpec ∨
    s'.endpointSpec = (updateEndpointPorts rt flags (updateEndpointMode flags s.endpointSpec)).1

theorem updateService_parts (s : ServiceSpec) : Parts rt flags s (updateService rt flags s).1 := by
  unfold updateService
  cases hr : updateReplicas flags s.mode with
  | error err =>
    simp only [hr]
    exact ⟨rfl, rfl, rfl, ⟨_, fun _ => rfl, rfl⟩, ⟨fun _ => rfl, rfl⟩, .inl rfl, .inl rfl⟩
  | ok mode =>
    simp only [hr]
    cases he : (updateEndpointPorts rt flags (updateEndpointMode flags s.endpointSpec)).2 with
    | some err =>
      simp only
      exact ⟨rfl, rfl, rfl, ⟨_, fun _ => rfl, rfl⟩, updateReplicas_frame hr, .inr rfl, .inr rfl⟩
    | none =>
      simp only
      refine ⟨rfl, rfl, rfl, ⟨_, fun h => ?_, rfl⟩, updateReplicas_frame hr, .inr rfl, .inr rfl⟩
      simp only [updateLogDriver, h, updateTask]

/-- Without a flag only the environment is made anew. -/
theorem updateService_nil (s : ServiceSpec)
    (henv : updateEnvironment rt none none s.taskTemplate.containerSpec.env = s.taskTemplate.containerSpec.env) :
    (updateService rt {} s).1 = s := by
  have hmounts : updateMounts none none s.taskTemplate.containerSpec.mounts = s.taskTemplate.containerSpec.mounts := by
    simp [updateMounts, removeItems]
  have hcontainer : updateContainerSpec rt {} s.taskTemplate.containerSpec = s.taskTemplate.containerSpec := by
    simp only [updateContainerSpec, henv, hmounts]
    rfl
  have htask : updateTask rt {} s.taskTemplate = s.taskTemplate := by
    simp only [updateTask, hcontainer]
    rfl
  simp only [updateService, htask]
  rfl

/-- What is not named is kept as far as the environment, the limits and the reservations are. -/
theorem frame_iff (s : ServiceSpec) : Frame flags s (updateService rt flags s).1 ↔
    (updateEnvironment rt flags.envAdd flags.envRemove s.taskTemplate.containerSpec.env).filter (¬ flags.NamesEnv ·) =
      s.taskTemplate.containerSpec.env.filter (¬ flags.NamesEnv ·) ∧
    Paired flags.limitCPU flags.limitMemory s.taskTemplate.limits ∧
    Paired flags.reserveCPU flags.reserveMemory s.taskTemplate.reservations := by
  have hp := updateService_parts rt flags s
  obtain ⟨driver, hdriver, htask⟩ := hp.task
  rw [← taskFrame_iff rt flags s.taskTemplate driver hdriver, ← htask]
  refine ⟨fun h => h.task, fun hf => ?_⟩
  have hconfig := updateUpdateConfig_frame flags s.updateConfig
  have hend := updateEndpoint_frame rt flags s.endpointSpec
  exact {
    name := fun h => by rw [hp.name, h]; rfl
    labels := fun k hk => by rw [hp.labels, lookup_updateLabels hk]
    task := hf
    replicas := hp.mode.1
    global := hp.mode.2
    updateParallelism := fun h => by
      rcases hp.updateConfig with hc | hc
      · rw [hc]
      · rw [hc, hconfig, h]; rfl
    updateDelay := fun h => by
      rcases hp.updateConfig with hc | hc
      · rw [hc]
      · rw [hc, hconfig, h]; rfl
    updateFailureAction := fun h => by
      rcases hp.updateConfig with hc | hc
      · rw [hc]
      · rw [hc, hconfig, h]; rfl
    networks := hp.networks
    endpointMode := fun h => by
      rcases hp.endpointSpec with he | he
      · rw [he]
      · rw [he]; exact hend.1 h
    ports := fun ha hr => by
      rcases hp.endpointSpec with he | he
      · rw [he]
      · rw [he]; exact hend.2 ha hr
    unchanged := by
      rintro rfl
      have hall : ∀ l : List String, l.filter (¬ ({} : Flags).NamesEnv ·) = l := fun l =>
        List.filter_eq_self.mpr fun v _ => by simp [Flags.NamesEnv]
      have henv := hf.container.env
      rw [htask, hall, hall] at henv
      exact updateService_nil rt s henv }

end

/-- The entries of the environment in the order of their keys, and words between spaces. -/
def UpdateRuntime.byKey : UpdateRuntime where
  toRuntime := .byKey
  envSet := Range.sorted
  shlexSplit s := (split s ' ').filter (· ≠ "")

/-- In every order of the map of the environment an update keeps what no flag names, just if limits and
reservations are given in pairs and at most one entry of the environment is left out. -/
theorem updateService_frame_iff (flags : Flags) (s : ServiceSpec) :
    (∀ rt, Frame flags s (updateService rt flags s).1) ↔ flags.Whole s := by
  simp only [frame_iff, Flags.Whole, ← updateEnvironment_frame_iff .byKey]
  constructor
  · intro h
    exact ⟨(h .byKey).2.1, (h .byKey).2.2, fun rt => (h rt).1⟩
  · rintro ⟨hl, hr, henv⟩ rt
    exact ⟨henv rt, hl, hr⟩

def limited : ServiceSpec := { taskTemplate := { resources := some { limits := some ⟨1000000000, 67108864⟩ } } }

def twoVariables : ServiceSpec := { taskTemplate := { containerSpec := { env := ["B=1", "A=2"] } } }

/-- A limit of the CPUs takes the limit of the memory away, and two variables change places without a flag. -/
theorem updateService_loses :
    ¬ Frame { limitCPU := some 2000000000 } limited (updateService .byKey { limitCPU := some 2000000000 } limited).1 ∧
    ¬ Frame {} twoVariables (updateService .byKey {} twoVariables).1 := by
  refine ⟨fun h => ?_, fun h => ?_⟩
  · exact absurd (h.task.limitMemory rfl) (by decide)
  · have henv : (updateService .byKey {} twoVariables).1.taskTemplate.containerSpec.env ≠ ["B=1", "A=2"] := by
      decide +kernel
    exact henv (by rw [h.unchanged rfl]; rfl)

end Moby.Swarm
