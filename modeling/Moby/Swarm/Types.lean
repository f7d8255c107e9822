import Moby.Framework.Map

/-!
# Services of a swarm

`ServiceSpec` and what it is made of. A pointer that may be nil is an `Option`, and what the source
keeps as a string (a restart condition, a mount type, a protocol) is one here: any string may come in.
-/

namespace Moby.Swarm

open Moby.Framework

/-- `time.Duration`, in nanoseconds. -/
abbrev Duration := Int64

/-- `Driver`. -/
structure Driver where
  name : String := ""
  options : Map String String := ∅

/-- `BindOptions`. -/
structure BindOptions where
  propagation : String := ""

/-- `VolumeOptions`. -/
structure VolumeOptions where
  noCopy : Bool := false
  labels : Map String String := ∅
  driverConfig : Option Driver := none

/-- `Mount`. -/
structure Mount where
  type : String := ""
  source : String := ""
  target : String := ""
  readOnly : Bool := false
  bindOptions : Option BindOptions := none
  volumeOptions : Option VolumeOptions := none

/-- `ContainerSpec`. -/
structure ContainerSpec where
  image : String := ""
  labels : Map String String := ∅
  command : List String := []
  args : List String := []
  env : List String := []
  dir : String := ""
  user : String := ""
  mounts : List Mount := []
  stopGracePeriod : Option Duration := none

/-- `Resources`. -/
structure Resources where
  nanoCPUs : Int64 := 0
  memoryBytes : Int64 := 0

/-- `ResourceRequirements`. -/
structure ResourceRequirements where
  limits : Option Resources := none
  reservations : Option Resources := none

/-- `RestartPolicy`. -/
structure RestartPolicy where
  condition : String := ""
  delay : Option Duration := none
  maxAttempts : Option UInt64 := none
  window : Option Duration := none

/-- `Placement`. -/
structure Placement where
  constraints : List String := []

/-- `TaskSpec`. -/
structure TaskSpec where
  containerSpec : ContainerSpec := {}
  resources : Option ResourceRequirements := none
  restartPolicy : Option RestartPolicy := none
  placement : Option Placement := none
  logDriver : Option Driver := none

/-- `ReplicatedService`. -/
structure ReplicatedService where
  replicas : Option UInt64 := none

/-- `ServiceMode`. -/
structure ServiceMode where
  replicated : Option ReplicatedService := none
  /-- `GlobalService` has no fields. -/
  global : Option Unit := none

/-- `UpdateConfig`. -/
structure UpdateConfig where
  parallelism : UInt64 := 0
  delay : Duration := 0
  failureAction : String := ""

/-- `NetworkAttachmentConfig`. -/
structure NetworkAttachmentConfig where
  target : String := ""
  aliases : List String := []

/-- `PortConfig`. -/
structure PortConfig where
  name : String := ""
  protocol : String := ""
  targetPort : UInt32 := 0
  publishedPort : UInt32 := 0
  deriving DecidableEq

/-- `EndpointSpec`. -/
structure EndpointSpec where
  mode : String := ""
  ports : List PortConfig := []

/-- `ServiceSpec`, with its `Annotations`. -/
structure ServiceSpec where
  name : String := ""
  labels : Map String String := ∅
  taskTemplate : TaskSpec := {}
  mode : ServiceMode := {}
  updateConfig : Option UpdateConfig := none
  networks : List NetworkAttachmentConfig := []
  endpointSpec : Option EndpointSpec := none

end Moby.Swarm
