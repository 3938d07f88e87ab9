import Hvac.Library.OrdMap
import Hvac.Library.Machine
import Hvac.Library.Cxx
import Hvac.Library.Posix
import Hvac.HashRing
import Hvac.RingDisruption
import Hvac.Client
import Hvac.ClientRun
import Hvac.Failover
import Hvac.Affinity
import Hvac.SeekSync
import Hvac.Wrappers
import Hvac.Server
import Hvac.Tracking
import Hvac.ServerInv
import Hvac.Calm
import Hvac.System
import Hvac.Freshness
import Hvac.Simulation
import Hvac.Positions
import Hvac.Fallback
import Hvac.Removals
import Hvac.Handoff
import Hvac.CopyOnce
import Hvac.DescriptorTable
import Hvac.Isolation
import Hvac.Leaks
import Hvac.ReadRpc
import Hvac.ReadSync
import Hvac.RingOwnership
import Hvac.RingReference
import Hvac.Library.Paths
import Hvac.DataDirectory
import Hvac.SeekRange
import Hvac.ReadSizes
import Hvac.Addresses
import Hvac.OpenWait
import Hvac.OneDescriptor
import Hvac.RefusedOpen
import Hvac.PreadStream
import Hvac.Library.Ledger
import Hvac.Resources
import Hvac.Streams
import Hvac.Deployment
import Hvac.DeploymentCalls
import Hvac.DeploymentRun
import Hvac.MoverProgress
import Hvac.DeploymentOwners
import Hvac.AnyServers
import Hvac.ClientResources
import Hvac.Crashes
import Hvac.Messages
import Hvac.Placement
import Hvac.Delivery
import Hvac.Survival
