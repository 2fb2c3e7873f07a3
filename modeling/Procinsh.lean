import Procinsh.Analysis.OrderIndependence
import Procinsh.Delivery.LatestSnapshots
import Procinsh.Helper.SnapshotCoverage
import Procinsh.Helper.SnapshotOrder
import Procinsh.Hosts.Framing
import Procinsh.Hosts.RegistryRuns
import Procinsh.Hosts.RequestLimit
import Procinsh.Hosts.SessionClosing
import Procinsh.Ipc.RoundTrip
import Procinsh.Privacy.Transparency
import Procinsh.Space.Compose
import Procinsh.Foundation.Tally
import Procinsh.Activity.Processor
import Procinsh.Activity.Aggregates
import Procinsh.Activity.CpuDeltas
import Procinsh.Elf.Resolve
import Procinsh.Elf.LoadBias
import Procinsh.Elf.Image
import Procinsh.Elf.Reading
import Procinsh.Elf.Selecting
import Procinsh.Elf.Acquisition
import Procinsh.Observation.Processor
import Procinsh.Observation.Histories
import Procinsh.Observation.SessionIndependence
import Procinsh.Analysis.DescriptorPeers
import Procinsh.Analysis.Agreement
import Procinsh.Helper.Resolver
import Procinsh.Analysis.SelfRelations
import Procinsh.Netlink.Dump
import Procinsh.Netlink.Completeness
import Procinsh.Elf.Cache
import Procinsh.Foundation.Intervals
import Procinsh.Elf.Coverage
import Procinsh.Foundation.Lineage
import Procinsh.Hardware.Forest
import Procinsh.Hardware.Paths
import Procinsh.Hardware.TreePaths
import Procinsh.Hardware.Switches
import Procinsh.Hardware.PathClass
import Procinsh.Rdma.Partners
import Procinsh.Rdma.Pairing
import Procinsh.Rdma.Partition
import Procinsh.Sampling.Perf
import Procinsh.Sampling.Records
import Procinsh.Sampling.Classification
import Procinsh.Foundation.Double
import Procinsh.Space.Recording
import Procinsh.Space.Replay
import Procinsh.Space.ReplaySync
import Procinsh.Space.ReplayRuns
import Procinsh.Netlink.Attributes
import Procinsh.Netlink.UnixDiag
import Procinsh.Space.RecentFiles
import Procinsh.Space.RecentFilesRuns
import Procinsh.Space.RecentFilesCounters
import Procinsh.Foundation.Ancestry
import Procinsh.Space.ProcessLayout
import Procinsh.Space.ProcessCycles
import Procinsh.Foundation.Plane
import Procinsh.Space.PackedTrees
import Procinsh.Space.TreeBlocks
import Procinsh.Space.TreeBuilding
import Procinsh.Space.Identities
import Procinsh.Space.TreeLayout
import Procinsh.Space.StableLayout
import Procinsh.Space.VacantPlaces
import Procinsh.Space.StableRuns
import Procinsh.Foundation.Utf16
import Procinsh.Space.IpcPorts
import Procinsh.Space.PortRequests
import Procinsh.Space.PortSlots
import Procinsh.Space.PortPlaces
import Procinsh.Space.PortAllocations
import Procinsh.Space.PortRuns
import Procinsh.Foundation.Numerals
import Procinsh.Sampling.SampleJson
import Procinsh.Sampling.Sampler
import Procinsh.Sampling.Epochs
import Procinsh.Sampling.SampleRuns
import Procinsh.Sampling.Interpretation
import Procinsh.Sampling.Transfer
import Procinsh.Foundation.Frames
import Procinsh.Helper.Exchange
import Procinsh.Helper.ExchangeTalk
import Procinsh.Helper.ExchangeSteps
import Procinsh.Helper.ExchangeRuns
import Procinsh.Helper.ExchangeFailure
import Procinsh.Helper.ExchangeProgress
import Procinsh.Space.RecordingSchema
import Procinsh.Space.Recorder
import Procinsh.Space.RecorderRuns
