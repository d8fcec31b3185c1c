import ContainerLb.CallProgram
import ContainerLb.BoundedMaps
import ContainerLb.HostBytes
import ContainerLb.OnesComplement
import ContainerLb.InternetChecksum
import ContainerLb.KeyedReplacement
import ContainerLb.NetAddresses
import ContainerLb.BpfManager
import ContainerLb.PacketPath
import ContainerLb.PacketEffects
import ContainerLb.PoolSync
import ContainerLb.ManagerSteps
import ContainerLb.SyncPhases
import ContainerLb.SlotEffects
import ContainerLb.SyncEffects
import ContainerLb.SyncContract
import ContainerLb.PoolRuns
import ContainerLb.ReverseMap
import ContainerLb.DnatRefinement
import ContainerLb.NatRoundTrip
import ContainerLb.ReturnPath
import ContainerLb.Snapshot
import ContainerLb.Convergence
import ContainerLb.FrameRules
import ContainerLb.VethLinks
import ContainerLb.Statistics
import ContainerLb.Timeline
import ContainerLb.DockerDiscovery
import ContainerLb.Capacity
import ContainerLb.VipFilter
import ContainerLb.HeaderChecksum
import ContainerLb.ByteFormat
import ContainerLb.ResidueCounts
import ContainerLb.EvenSpread
import ContainerLb.DiscoveryOrder
import ContainerLb.StructLayout
import ContainerLb.MapEncoding
import ContainerLb.InterruptedRuns
import ContainerLb.Scripts
import ContainerLb.SyncScript
import ContainerLb.Releasing
import ContainerLb.DiscoveryCalls
import ContainerLb.Interference
import ContainerLb.PacketReads
import ContainerLb.Balancing
import ContainerLb.Datagrams
import ContainerLb.DatagramPath
import ContainerLb.Lifecycle
import ContainerLb.StartAndClose
import ContainerLb.Daemon
import ContainerLb.DaemonRuns
import ContainerLb.DaemonTraffic
import ContainerLb.DaemonTables
import ContainerLb.Shutdown
import ContainerLb.Stopping
import ContainerLb.SteadyService
import ContainerLb.FramesInFlight
import ContainerLb.SteadyFlights
import ContainerLb.Growth
