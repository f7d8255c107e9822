import Moby.Framework.Prog
import Moby.Framework.Calls
import Moby.Framework.Machine
import Moby.Framework.Fallible
import Moby.Framework.Acyclic
import Moby.Framework.Map
import Moby.Framework.Range
import Moby.Framework.Nested
import Moby.Framework.Pool
import Moby.Framework.Text
import Moby.Framework.Regexp
import Moby.Framework.GoString
import Moby.Framework.Slice
import Moby.Framework.Reader
import Moby.Framework.Path
import Moby.Framework.Marker
import Moby.Framework.Sort
import Moby.Framework.Bitmap
import Moby.Framework.Census
import Moby.Framework.GoSort
import Moby.Digest
import Moby.Layer.Types
import Moby.Layer.Filestore
import Moby.Layer.Store
import Moby.Layer.Action
import Moby.Layer.RefInv
import Moby.Layer.RefCount
import Moby.Layer.Presence
import Moby.Layer.Failing
import Moby.Layer.Register
import Moby.Layer.Create
import Moby.Layer.Migration
import Moby.Layer.Depth
import Moby.Layer.Persist
import Moby.Layer.Load
import Moby.Layer.Restore
import Moby.Images.Backend
import Moby.Images.Store
import Moby.Images.Links
import Moby.Images.Restore
import Moby.Images.SetParent
import Moby.Images.Concurrent
import Moby.Reference.Grammar
import Moby.Reference.Name
import Moby.Reference.Store
import Moby.Reference.Index
import Moby.Xfer.Transfer
import Moby.Xfer.Slots
import Moby.Xfer.Watchers
import Moby.Xfer.Progress
import Moby.Xfer.Delivery
import Moby.Distribution.Blob
import Moby.Distribution.Manifest
import Moby.Distribution.Metadata
import Moby.Tarexport.Load
import Moby.Tarexport.Parents
import Moby.Tarexport.Legacy
import Moby.Tarexport.Retained
import Moby.Daemon.Links
import Moby.Dockerfile.Parser
import Moby.Dockerfile.Lines
import Moby.Dockerfile.LineNumbers
import Moby.Dockerfile.Walk
import Moby.Dockerfile.Instructions
import Moby.Stdcopy
import Moby.Ioutils.MultiReader
import Moby.Swarm.Types
import Moby.Swarm.Ports
import Moby.Swarm.Update
import Moby.Swarm.Convert
import Moby.Swarm.Reconnect
import Moby.Swarm.Cluster
import Moby.Symlink
import Moby.Archive.Owner
import Moby.Archive.SubIDs
import Moby.Container.State
import Moby.Container.Escape
import Moby.Container.Probes
import Moby.Container.Disk
import Moby.Events
import Moby.Graphdriver.DeviceSet
import Moby.Graphdriver.Overlay2
import Moby.Restartmanager
import Moby.Logger.Rotate
import Moby.Tarsum.Header
import Moby.Volume.Failing
import Moby.Volume.Store
import Moby.Layer.GraphID
import Moby.Layer.ChainIDs
import Moby.Dockerfile.Rejoin
import Moby.Dockerfile.RunKey
import Moby.Parsers.UintList
import Moby.Runconfig.Compare
import Moby.Tailfile
import Moby.Dockerfile.BuilderFlags
import Moby.Events
import Moby.Logger.Recover
import Moby.Graphdriver.AddDevice
import Moby.Graphdriver.Aufs
import Moby.Graphdriver.Layers
import Moby.Graphdriver.Lower
import Moby.Logger.Awslogs
import Moby.Daemon.NameLists
import Moby.Libcontainerd.Queue
import Moby.Restartmanager.Retries
import Moby.Framework.Search
import Moby.Digest.Set
import Moby.Archive.SubRanges
import Moby.Broadcaster
