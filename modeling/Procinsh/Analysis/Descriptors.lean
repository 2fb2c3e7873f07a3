import Procinsh.Analysis.Relations

/-!
# The file descriptors of a process

`collect_file_descriptors` (`src/privileged_helper/process/fds.rs`) lists the descriptors of one
process with the keys of their peers and the owners of all these resources;
`resolve_descriptor_relations` (`src/http_server/analysis/descriptors.rs`) turns the owners into the
peers and the holders of each descriptor.  What the scan of `/proc` reads is a list of descriptors,
and `Orders` is the order in which the hash maps are traversed.
-/

namespace Procinsh.Ipc

/-! ## Access -/

def FdAccess.fromMode : Option UInt32 → FdAccess
  | some 0 => read
  | some 1 => write
  | some 2 => readWrite
  | _ => unknown

def FdAccess.display : FdAccess → String
  | read => "read"
  | write => "write"
  | readWrite => "read/write"
  | unknown => "N/A"

/-- The major and the minor number of a device, as the C library splits them. -/
def DeviceId.ofStat (device : UInt64) : DeviceId where
  major := UInt64.toUInt32 ((device &&& 0xfff00) >>> 8 ||| (device &&& 0xfffff00000000000) >>> 32)
  minor := UInt64.toUInt32 ((device &&& 0xff) >>> 0 ||| (device &&& 0xffffff00000) >>> 12)

/-- The process and the descriptor. -/
def Endpoint.fdKey (endpoint : Endpoint) : ProcessId × UInt32 := (endpoint.processId, endpoint.fd)

end Procinsh.Ipc

namespace Procinsh.Analysis

open Ipc

/-! ## The scan -/

/-- A pipe, a FIFO or a socket, with the device of its file system. -/
structure FdResource where
  kind : FdKind
  device : UInt64
  inode : UInt64

/-- The identity of a resource among the descriptors of a process.  Pipes and sockets without a path
are named by their inode only. -/
def FdResource.key (resource : FdResource) : Key where
  kind := resource.kind
  device := if resource.kind = .fifo then resource.device else 0
  inode := resource.inode

/-- A descriptor of a process as it is read from `/proc`. -/
structure Descriptor where
  processId : ProcessId
  /-- The name of the process. -/
  name : String
  fd : UInt32
  resource : FdResource
  target : String
  mode : Option UInt32
  /-- The device that the status of a socket has. -/
  socketDevice : Option UInt64
  /-- The connection status that is observed at the descriptor of a socket. -/
  observed : SocketConnectionStatus

/-- The process and the descriptor. -/
def Descriptor.fdKey (d : Descriptor) : ProcessId × UInt32 := (d.processId, d.fd)

/-- The owner of the resource of a descriptor. -/
def Descriptor.owner (d : Descriptor) : Owner :=
  ⟨⟨d.processId, d.name, d.fd, .fromMode d.mode, ""⟩, d.mode⟩

/-- The entry of a descriptor before the sockets are known. -/
def Descriptor.entry (d : Descriptor) : FileDescriptorInfo where
  fd := d.fd
  kind := d.resource.key.kind
  inode := d.resource.key.inode
  target := d.target
  access := .fromMode d.mode
  protocol := none
  state := none
  connectionStatus := if d.resource.key.kind = .socket then some .unknown else none
  localAddr := none
  remoteAddr := none
  path := none
  peerInode := none
  peers := []
  holders := []
  note := ""
  key := d.resource.key
  mode := d.mode
  socketDevice := if d.resource.key.kind = .socket then d.socketDevice else none

/-! ## Peer keys -/

/-- Protocol and addresses of one end of a connection. -/
abbrev InetKey := Bool × SocketAddr × SocketAddr

def connectedSocketKey (info : SocketInfo) : Option InetKey :=
  if !info.protocol.isTcpOrUdp then none
  else
    match info.localAddr, info.remoteAddr with
    | some localAddr, some remoteAddr =>
      if info.state = some .listen || !remoteAddr.isSpecified then none
      else some (info.protocol.isTcp, localAddr, remoteAddr)
    | _, _ => none

/-- An order in which the items of a hash map are traversed. -/
structure Traversal (α : Type*) where
  iterate : List α → List α
  perm : ∀ l, (iterate l).Perm l

/-- The orders in which the hash maps of the acquisition are traversed. -/
structure Orders where
  sockets : Traversal (UInt64 × SocketInfo)
  owners : Traversal (Key × List Owner)
  peerKeys : Traversal (UInt32 × List Key)

section Collect

variable (orders : Orders) (sockets : OrderedMap UInt64 SocketInfo)

/-- The inodes by the key of their connection. -/
def reversedInodes : OrderedMap InetKey (List UInt64) :=
  group ((orders.sockets.iterate sockets.entries).filterMap fun (inode, info) =>
    (connectedSocketKey info).map fun key => (key, inode))

/-- The inodes of the sockets at the other end of a socket. -/
def peerInodesOf (inode : UInt64) (info : SocketInfo) : List UInt64 :=
  match info.peerInode with
  | some peer => [peer]
  | none =>
    match connectedSocketKey info with
    | some (tcp, localAddr, remoteAddr) =>
      (((reversedInodes orders sockets).get? (tcp, remoteAddr, localAddr)).getD []).filter
        fun id => id ≠ inode
    | none => []

/-- The attributes of the socket of an entry. -/
def entrySocket (entry : FileDescriptorInfo) : Option SocketInfo :=
  if entry.kind = .socket then sockets.get? entry.key.inode else none

/-- The entry of a descriptor with the connection status of its socket, and with the attributes of
the socket if they are known. -/
def Descriptor.socketEntry (d : Descriptor) : FileDescriptorInfo :=
  let entry := d.entry
  if entry.kind ≠ .socket then entry
  else
    match sockets.get? entry.key.inode with
    | none => { entry with connectionStatus := some d.observed }
    | some info =>
      { entry with
        connectionStatus := some (info.connectionStatus d.observed)
        protocol := some info.protocol
        state := info.state
        localAddr := info.localAddr.map InetAddress.ofSocketAddr
        remoteAddr := info.remoteAddr.map InetAddress.ofSocketAddr
        path := info.path
        peerInode := info.peerInode }

/-- The keys of the peers of an entry, if it is a socket with known attributes. -/
def peerKeysOf (entry : FileDescriptorInfo) : Option (List Key) :=
  (entrySocket sockets entry).map fun info =>
    (peerInodesOf orders sockets entry.key.inode info).map fun inode => ⟨.socket, 0, inode⟩

/-- The entries of the descriptors of a process, in the order of their numbers. -/
def collectEntries (scan : List Descriptor) (id : ProcessId) : List FileDescriptorInfo :=
  sortByKey (fun entry => entry.fd.toNat)
    ((scan.filter fun d => d.processId = id).map (Descriptor.socketEntry sockets))

/-- The peer keys of entries, by their descriptors. -/
def collectPeerKeys (entries : List FileDescriptorInfo) : OrderedMap UInt32 (List Key) :=
  OrderedMap.ofList (entries.filterMap fun entry =>
    (peerKeysOf orders sockets entry).map fun keys => (entry.fd, keys))

/-- The owners of the resources with the keys. -/
def collectDescriptorOwners (keys : List Key) (scan : List Descriptor) :
    OrderedMap Key (List Owner) :=
  group ((scan.filter fun d => d.resource.key ∈ keys).map fun d => (d.resource.key, d.owner))

/-- The descriptors of a process with the owners of their resources and of their peers. -/
def collectFileDescriptors (capturedAt : UInt64) (warnings : List String) (scan : List Descriptor)
    (id : ProcessId) : FileDescriptors :=
  let entries := collectEntries sockets scan id
  let peerKeys := collectPeerKeys orders sockets entries
  let keys := entries.map FileDescriptorInfo.key ++ peerKeys.values.flatten
  { processId := id
    capturedAt := capturedAt
    entries := entries
    warnings := warnings
    rawFdOwners := orders.owners.iterate (collectDescriptorOwners keys scan).entries
    rawPeerKeys := orders.peerKeys.iterate peerKeys.entries }

end Collect

/-! ## Peers and holders -/

def pipeOpposite : Option UInt32 → Option UInt32 → Bool
  | some 0, some 1 | some 0, some 2 => true
  | some 1, some 0 | some 1, some 2 => true
  | some 2, some 0 | some 2, some 1 | some 2, some 2 => true
  | _, _ => false

/-- Adds another owner of the resource of an entry. -/
def addFellow (entry : FileDescriptorInfo) (owner : Owner) : FileDescriptorInfo :=
  if entry.kind ≠ .socket && pipeOpposite entry.mode owner.mode then
    { entry with peers := entry.peers ++ [{ owner.endpoint with
        relation := owner.endpoint.access.display ++ " end of the same pipe" }] }
  else
    { entry with holders := entry.holders ++ [{ owner.endpoint with
        relation := if entry.kind = .socket then "Holder of the same socket"
          else "Same pipe, same or unknown direction" }] }

/-- Adds the other owners of the resource of an entry, until there are too many. -/
def addFellows (id : ProcessId) : List Owner → FileDescriptorInfo → FileDescriptorInfo
  | [], entry => entry
  | owner :: rest, entry =>
    if owner.endpoint.processId = id ∧ owner.endpoint.fd = entry.fd then addFellows id rest entry
    else
      let entry := addFellow entry owner
      if 64 ≤ entry.peers.length + entry.holders.length then
        { entry with note := "Showing up to 64 peer/shared FDs." }
      else addFellows id rest entry

/-- Adds the owners of a socket at the other end, until there are too many. -/
def addPeers : List Owner → FileDescriptorInfo → FileDescriptorInfo
  | [], entry => entry
  | owner :: rest, entry =>
    if 64 ≤ entry.peers.length then { entry with note := "Showing up to 64 peer FDs." }
    else addPeers rest { entry with peers := entry.peers ++ [{ owner.endpoint with
      relation := if entry.peerInode.isSome then "UNIX peer"
        else "Reversed address/port match (candidate)" }] }

/-- Says why there are no peers. -/
def explainNoPeers (entry : FileDescriptorInfo) : FileDescriptorInfo :=
  if entry.peers.isEmpty && entry.note.isEmpty then
    { entry with note :=
        if entry.state = some .listen then "Listening (no peer PID)"
        else "Peer PID unknown (remote, unconnected, exited, unobserved, or access denied)" }
  else entry

section Resolve

variable (owners : OrderedMap Key (List Owner)) (peerKeys : OrderedMap UInt32 (List Key))

/-- Adds the owners of all sockets at the other end. -/
def addPeerKeys (keys : List Key) (entry : FileDescriptorInfo) : FileDescriptorInfo :=
  keys.foldl (fun entry key => addPeers ((owners.get? key).getD []) entry) entry

/-- The peers and the holders of an entry. -/
def resolveEntry (id : ProcessId) (entry : FileDescriptorInfo) : FileDescriptorInfo :=
  explainNoPeers (addPeerKeys owners ((peerKeys.get? entry.fd).getD [])
    (addFellows id ((owners.get? entry.key).getD []) entry))

end Resolve

/-- The peers and the holders of the descriptors of a process, from the owners and the peer keys,
which are taken out. -/
def resolveDescriptorRelations (data : FileDescriptors) : FileDescriptors :=
  { data with
    entries := data.entries.map (resolveEntry (OrderedMap.ofList data.rawFdOwners)
      (OrderedMap.ofList data.rawPeerKeys) data.processId)
    rawFdOwners := []
    rawPeerKeys := [] }

end Procinsh.Analysis
