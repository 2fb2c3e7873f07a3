import Procinsh.Ipc.Sockets
import Procinsh.Ipc.Devices

/-!
# Snapshots on the helper connection

A snapshot of the system (`src/ipc/model/system.rs`) with its wire format.
-/

namespace Procinsh.Ipc

/-- A process in a snapshot of the system. -/
structure ProcessSnapshot where
  identity : ProcessId
  parentId : Option ProcessId
  name : String
  commandLine : Option (List String)
  uid : Option UInt32
  username : Option String
  euid : Option UInt32
  effectiveUsername : Option String
  maps : List MemoryMap
  mapsEpoch : UInt64
  mapsError : Option String

instance : Wire ProcessSnapshot := wireStruct (fun v => (v.identity, v.parentId, v.name,
  v.commandLine, v.uid, v.username, v.euid, v.effectiveUsername, v.maps, v.mapsEpoch, v.mapsError))
  fun (identity, parentId, name, commandLine, uid, username, euid, effectiveUsername, maps,
    mapsEpoch, mapsError) => ⟨identity, parentId, name, commandLine, uid, username, euid,
    effectiveUsername, maps, mapsEpoch, mapsError⟩

instance : LawfulWire ProcessSnapshot := ⟨wireLaws_wireStruct⟩

/-- A file descriptor of a process on a pipe or a socket. -/
structure FdEndpoint where
  processId : ProcessId
  fd : UInt32
  fdCount : Size
  resource : IpcIdentity
  kind : FdKind
  access : FdAccess
  connectionStatus : Option SocketConnectionStatus
  deriving DecidableEq

instance : Wire FdEndpoint := wireStruct (fun v => (v.processId, v.fd, v.fdCount, v.resource,
  v.kind, v.access, v.connectionStatus))
  fun (processId, fd, fdCount, resource, kind, access, connectionStatus) => ⟨processId, fd,
    fdCount, resource, kind, access, connectionStatus⟩

instance : LawfulWire FdEndpoint := ⟨wireLaws_wireStruct⟩

/-- A socket of a relation. -/
structure SocketEndpoint where
  protocol : SocketProtocol
  state : Option SocketState
  localAddr : Option InetAddress
  remoteAddr : Option InetAddress
  path : Option String
  networkPeer : Bool
  remoteHostname : Option String
  remoteGid : Option String
  deriving DecidableEq

instance : Wire SocketEndpoint := wireStruct (fun v => (v.protocol, v.state, v.localAddr,
  v.remoteAddr, v.path, v.networkPeer, v.remoteHostname, v.remoteGid))
  fun (protocol, state, localAddr, remoteAddr, path, networkPeer, remoteHostname, remoteGid) =>
    ⟨protocol, state, localAddr, remoteAddr, path, networkPeer, remoteHostname, remoteGid⟩

instance : LawfulWire SocketEndpoint := ⟨wireLaws_wireStruct⟩

/-- A file descriptor with its peer. -/
structure FdRelation where
  id : String
  endpoint : FdEndpoint
  peer : Option FdEndpoint
  label : String
  socket : Option SocketEndpoint
  candidate : Bool
  shared : Bool
  deriving DecidableEq

instance : Wire FdRelation := wireStruct (fun v => (v.id, v.endpoint, v.peer, v.label, v.socket,
  v.candidate, v.shared))
  fun (id, endpoint, peer, label, socket, candidate, shared) => ⟨id, endpoint, peer, label, socket,
    candidate, shared⟩

instance : LawfulWire FdRelation := ⟨wireLaws_wireStruct⟩

/-- The neighbor table of a network namespace. -/
structure NeighborSnapshot where
  entries : List (IpAddr × String)
  networkNamespace : UInt64 × UInt64

instance : Wire NeighborSnapshot := wireStruct (fun v => (v.entries, v.networkNamespace))
  fun (entries, networkNamespace) => ⟨entries, networkNamespace⟩

instance : LawfulWire NeighborSnapshot := ⟨wireLaws_wireStruct⟩

/-- A snapshot of the system. -/
structure SystemSnapshot where
  capturedAt : UInt64
  processes : List ProcessSnapshot
  fdRelations : List FdRelation
  rdmaPorts : List RdmaPortInfo
  rdmaRelations : List RdmaRelation
  hardwareDevices : List HardwareDevice
  hardwarePaths : List HardwarePath
  deviceHandles : List DeviceHandle
  warnings : List String
  inspectedProcesses : Size
  inspectedFds : Size
  rawOwners : List (IpcIdentity × List FdEndpoint)
  rawSockets : List (UInt64 × SocketInfo)
  rawNamespaces : List (UInt64 × (UInt64 × UInt64))
  rawConnections : List (IpcIdentity × SocketConnectionStatus)
  rawDeviceHandles : List (ProcessId × UInt32 × UInt64)
  rawNeighbors : Option NeighborSnapshot
  rawHardware : HardwareFiles
  rawHostnames : List (IpAddr × String)

instance : Wire SystemSnapshot := wireStruct (fun v => (v.capturedAt, v.processes, v.fdRelations,
  v.rdmaPorts, v.rdmaRelations, v.hardwareDevices, v.hardwarePaths, v.deviceHandles, v.warnings,
  v.inspectedProcesses, v.inspectedFds, v.rawOwners, v.rawSockets, v.rawNamespaces,
  v.rawConnections, v.rawDeviceHandles, v.rawNeighbors, v.rawHardware, v.rawHostnames))
  fun (capturedAt, processes, fdRelations, rdmaPorts, rdmaRelations, hardwareDevices,
    hardwarePaths, deviceHandles, warnings, inspectedProcesses, inspectedFds, rawOwners,
    rawSockets, rawNamespaces, rawConnections, rawDeviceHandles, rawNeighbors, rawHardware,
    rawHostnames) => ⟨capturedAt, processes, fdRelations, rdmaPorts, rdmaRelations,
    hardwareDevices, hardwarePaths, deviceHandles, warnings, inspectedProcesses, inspectedFds,
    rawOwners, rawSockets, rawNamespaces, rawConnections, rawDeviceHandles, rawNeighbors,
    rawHardware, rawHostnames⟩

instance : LawfulWire SystemSnapshot := ⟨wireLaws_wireStruct⟩

end Procinsh.Ipc
