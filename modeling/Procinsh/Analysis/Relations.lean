import Mathlib.Data.Prod.Lex
import Procinsh.Correlation.Address
import Procinsh.Foundation.Matching
import Procinsh.Ipc.Display
import Procinsh.Ipc.System

/-!
# Relations of file descriptors

`build_ipc_relations` (`src/http_server/analysis/relations.rs`) turns what the acquisition captured
into relations between the owners of pipes and sockets.  The captured lists are read into hash maps;
`iterateOwners` and `iterateInfos` are the orders in which two of them are traversed.
-/

namespace Procinsh.Ipc

/-! ## Observations -/

/-- Whether what one side writes the other can read. -/
def FdAccess.opposite : FdAccess → FdAccess → Bool
  | read, write | read, readWrite => true
  | write, read | write, readWrite => true
  | readWrite, read | readWrite, write | readWrite, readWrite => true
  | _, _ => false

def SocketProtocol.isTcp : SocketProtocol → Bool
  | tcp _ => true
  | _ => false

def SocketProtocol.isTcpOrUdp : SocketProtocol → Bool
  | tcp _ | udp _ => true
  | _ => false

/-- An address of a peer: with a port, and not the unspecified address. -/
def SocketAddr.isSpecified (address : SocketAddr) : Bool :=
  address.port ≠ 0 && !address.ip.isUnspecified

def InetAddress.ofSocketAddr (address : SocketAddr) : InetAddress := ⟨address.ip, address.port⟩

/-- The connection status of a socket, given what was observed at a descriptor. -/
def SocketInfo.connectionStatus (info : SocketInfo) (observed : SocketConnectionStatus) :
    SocketConnectionStatus :=
  if observed ≠ .unknown then observed
  else if info.state = some .listen then .listening
  else if info.peerInode.isSome ||
      (info.protocol.isTcpOrUdp && info.remoteAddr.any SocketAddr.isSpecified) then .peerPresent
  else .unknown

def SocketEndpoint.ofInfo (info : SocketInfo) : SocketEndpoint where
  protocol := info.protocol
  state := info.state
  localAddr := info.localAddr.map InetAddress.ofSocketAddr
  remoteAddr := info.remoteAddr.map InetAddress.ofSocketAddr
  path := info.path
  networkPeer := info.protocol.isTcpOrUdp && info.state ≠ some .listen &&
    info.remoteAddr.any SocketAddr.isSpecified
  remoteHostname := none
  remoteGid := none

/-- The process and the descriptor, in the order in which the owners of a resource are sorted. -/
def FdEndpoint.position (endpoint : FdEndpoint) : ℤ ×ₗ ℕ ×ₗ ℕ :=
  toLex (endpoint.processId.pid.toInt,
    toLex (endpoint.processId.startTimeTicks.toNat, endpoint.fd.toNat))

/-- The text of the process and the descriptor. -/
def FdEndpoint.name (endpoint : FdEndpoint) : String :=
  toString endpoint.processId.pid.toInt ++ ":" ++
    toString endpoint.processId.startTimeTicks.toNat ++ ":" ++ toString endpoint.fd.toNat

end Procinsh.Ipc

namespace Procinsh.Analysis

open Ipc

/-! ## Maps -/

/-- The captured lists as maps. -/
structure Observations where
  owners : OrderedMap IpcIdentity (List FdEndpoint)
  infos : OrderedMap UInt64 SocketInfo
  namespaces : OrderedMap UInt64 (UInt64 × UInt64)

/-- The connection status of the socket. -/
def socketStatus (infos : OrderedMap UInt64 SocketInfo)
    (metadata : OrderedMap IpcIdentity SocketConnectionStatus) (resource : IpcIdentity) :
    SocketConnectionStatus :=
  let observed := (metadata.get? resource).getD .unknown
  ((infos.get? resource.inode).map fun info => info.connectionStatus observed).getD observed

/-- The owners of a resource with the connection status of the socket. -/
def withStatus (infos : OrderedMap UInt64 SocketInfo)
    (metadata : OrderedMap IpcIdentity SocketConnectionStatus) (resource : IpcIdentity)
    (endpoints : List FdEndpoint) : List FdEndpoint :=
  if resource.kind ≠ .socket then endpoints
  else endpoints.map fun endpoint =>
    { endpoint with connectionStatus := some (socketStatus infos metadata resource) }

/-- How many file descriptors the owners of the sockets with a property have. -/
def countFds (p : IpcIdentity → Bool) (owners : List (IpcIdentity × List FdEndpoint)) : ℕ :=
  ((owners.filter fun entry => entry.1.kind = .socket && p entry.1).flatMap Prod.snd |>.map
    fun endpoint => endpoint.fdCount.toNat).sum

/-- Protocol, addresses and network namespace of one end of a connection. -/
abbrev Tuple := Option (UInt64 × UInt64) × Bool × SocketAddr × SocketAddr

/-- The tuple under which a socket is found from the other end. -/
def reverseEntry (namespaces : OrderedMap UInt64 (UInt64 × UInt64)) (entry : UInt64 × SocketInfo) :
    Option (Tuple × UInt64) :=
  let (inode, info) := entry
  match info.localAddr, info.remoteAddr with
  | some localAddr, some remoteAddr =>
    if info.protocol.isTcpOrUdp && remoteAddr.isSpecified && info.state ≠ some .listen then
      some ((namespaces.get? inode, info.protocol.isTcp, localAddr, remoteAddr), inode)
    else none
  | _, _ => none

/-- The resources of the sockets by their inodes. -/
def byInode (owners : OrderedMap IpcIdentity (List FdEndpoint)) : OrderedMap UInt64 IpcIdentity :=
  OrderedMap.ofList (owners.entries.filterMap fun entry =>
    if entry.1.kind = .socket then some (entry.1.inode, entry.1) else none)

/-! ## Matches -/

/-- A peer of an endpoint. -/
structure Match where
  peer : FdEndpoint
  candidate : Bool
  shared : Bool
  label : String

/-- The peers among the owners of the same resource, for the endpoint at an index.  Shared ownership
is a group, not a full mesh: it is reported between the first owner and every other. -/
def resourceMatches (endpoints : List FdEndpoint) (index : ℕ) (endpoint : FdEndpoint) :
    List Match :=
  endpoints.zipIdx.filterMap fun (peer, peerIndex) =>
    if endpoint.processId = peer.processId ∧ endpoint.fd = peer.fd then none
    else
      let shared := endpoint.kind = .socket || !endpoint.access.opposite peer.access
      if shared ∧ index ≠ 0 ∧ peerIndex ≠ 0 then none
      else some ⟨peer, false, shared, endpoint.kind.display⟩

section Sockets

variable (observations : Observations) (reverse : OrderedMap Tuple (List UInt64))

/-- The inodes of the peers of a socket, and whether they are candidates only. -/
def peerInodes (inode : UInt64) (info : SocketInfo) : List (UInt64 × Bool) :=
  match info.peerInode with
  | some peer => [(peer, false)]
  | none =>
    match info.localAddr, info.remoteAddr with
    | some localAddr, some remoteAddr =>
      if info.protocol.isTcpOrUdp then
        let ids := (reverse.get? (observations.namespaces.get? inode, info.protocol.isTcp,
          remoteAddr, localAddr)).getD []
        (ids.filter fun id => id ≠ inode).map fun id => (id, true)
      else []
    | _, _ => []

/-- The owners of a socket with an inode. -/
def inodeOwners (inode : UInt64) : List FdEndpoint :=
  (((byInode observations.owners).get? inode).bind observations.owners.get?).getD []

/-- The peers among the owners of the sockets at the other end. -/
def socketMatches (inode : UInt64) (info : SocketInfo) : List Match :=
  (peerInodes observations reverse inode info).flatMap fun (peer, candidate) =>
    (inodeOwners observations peer).map fun owner =>
      ⟨owner, candidate, false, info.protocol.display⟩

/-- The attributes of the socket of an endpoint. -/
def socketInfo (resource : IpcIdentity) (endpoint : FdEndpoint) : Option SocketInfo :=
  if endpoint.kind = .socket then observations.infos.get? resource.inode else none

/-- All peers of an endpoint. -/
def endpointMatches (resource : IpcIdentity) (endpoints : List FdEndpoint) (index : ℕ)
    (endpoint : FdEndpoint) : List Match :=
  resourceMatches endpoints index endpoint ++
    ((socketInfo observations resource endpoint).map
      (socketMatches observations reverse resource.inode)).getD []

end Sockets

/-- The peers with unshared ones in front, a stable sort. -/
def sortMatches (found : List Match) : List Match :=
  found.filter (fun m => !m.shared) ++ found.filter fun m => m.shared

/-! ## Relations -/

/-- The label of an endpoint without a known peer. -/
def externalLabel (info : Option SocketInfo) (endpoint : FdEndpoint) : String :=
  match info with
  | some info =>
    let remote := ((info.remoteAddr.map SocketAddr.display).or info.path).getD ""
    trim (info.protocol.display ++ " " ++ (info.state.map SocketState.display).getD "" ++ " " ++
      remote)
  | none => if endpoint.kind = .socket then "Socket · Type unavailable" else "Unknown peer"

/-- The relation of an endpoint without a known peer. -/
def externalRelation (info : Option SocketInfo) (endpoint : FdEndpoint) : FdRelation where
  id := endpoint.name ++ ":external"
  endpoint := endpoint
  peer := none
  label := externalLabel info endpoint
  socket := info.map SocketEndpoint.ofInfo
  candidate := false
  shared := false

/-- The id of the relation between two endpoints, whichever of them it is found from. -/
def joinedId (a b : FdEndpoint) : String :=
  if b.name < a.name then b.name ++ "/" ++ a.name else a.name ++ "/" ++ b.name

/-- The relation of an endpoint with a peer. -/
def joinedRelation (info : Option SocketInfo) (endpoint : FdEndpoint) (m : Match) : FdRelation where
  id := joinedId endpoint m.peer
  endpoint := endpoint
  peer := some m.peer
  label :=
    if endpoint.kind = .socket then
      (info.map fun info => info.protocol.display).getD "Socket · Type unavailable"
    else m.label
  socket := info.map SocketEndpoint.ofInfo
  candidate := m.candidate
  shared := m.shared

/-- The relations so far, the ids of those with a peer, and whether something was left out. -/
structure Progress where
  relations : List FdRelation
  seen : List String
  truncated : Bool

/-- The number of peers of one endpoint that are related, and the number of relations at which no
further endpoint is visited. -/
structure Limits where
  matchesPerEndpoint : ℕ
  relations : ℕ

/-- The limits of the analysis. -/
def Limits.standard : Limits := ⟨64, 20000⟩

/-- Whether an endpoint gets an external relation: without peers, or connected over the network and
with fellow owners only, since shared ownership does not identify a network receiver. -/
def hasExternal (info : Option SocketInfo) (found : List Match) : Bool :=
  found.isEmpty ||
    (info.any (fun info => (SocketEndpoint.ofInfo info).networkPeer) && found.all (·.shared))

/-- Adds the relation with a peer unless there is one with its id. -/
def addJoined (progress : Progress) (relation : FdRelation) : Progress :=
  if relation.id ∈ progress.seen then progress
  else { progress with
    relations := progress.relations ++ [relation]
    seen := relation.id :: progress.seen }

section Loops

variable (limits : Limits) (observations : Observations) (reverse : OrderedMap Tuple (List UInt64))

/-- Adds the relations of one endpoint. -/
def relateEndpoint (resource : IpcIdentity) (endpoints : List FdEndpoint) (index : ℕ)
    (endpoint : FdEndpoint) (progress : Progress) : Progress :=
  let info := socketInfo observations resource endpoint
  let found := endpointMatches observations reverse resource endpoints index endpoint
  let progress :=
    if hasExternal info found then
      { progress with relations := progress.relations ++ [externalRelation info endpoint] }
    else progress
  let progress :=
    if limits.matchesPerEndpoint < found.length then { progress with truncated := true }
    else progress
  (((sortMatches found).take limits.matchesPerEndpoint).map (joinedRelation info endpoint)).foldl
    addJoined progress

/-- Adds the relations of the owners of a resource, until there are too many. -/
def relateEndpoints (resource : IpcIdentity) (endpoints : List FdEndpoint) :
    List (FdEndpoint × ℕ) → Progress → Progress
  | [], progress => progress
  | (endpoint, index) :: rest, progress =>
    let progress :=
      relateEndpoint limits observations reverse resource endpoints index endpoint progress
    if limits.relations ≤ progress.relations.length then { progress with truncated := true }
    else relateEndpoints resource endpoints rest progress

/-- Adds the relations of the owners of all resources, until there are too many. -/
def relateOwners : List (IpcIdentity × List FdEndpoint) → Progress → Progress
  | [], progress => progress
  | (resource, endpoints) :: rest, progress =>
    let progress :=
      relateEndpoints limits observations reverse resource endpoints endpoints.zipIdx progress
    if limits.relations ≤ progress.relations.length then progress else relateOwners rest progress

end Loops

/-- Sets the GID of the remote port from the neighbors in the network namespace of the socket. -/
def withRemoteGid (namespaces : OrderedMap UInt64 (UInt64 × UInt64)) (captured : NeighborSnapshot)
    (relation : FdRelation) : FdRelation :=
  let neighbors := OrderedMap.ofList captured.entries
  if namespaces.get? relation.endpoint.resource.inode = some captured.networkNamespace then
    { relation with socket := relation.socket.map fun socket =>
        if socket.networkPeer then
          { socket with remoteGid := socket.remoteAddr.bind fun remote => neighbors.get? remote.ip }
        else socket }
  else relation

def unavailableWarning (what : String) (n : ℕ) : List String :=
  if n = 0 then []
  else [what ++ " unavailable for " ++ toString n ++
    " FDs (closed, unobserved, unsupported, or access denied)."]

section Build

variable (iterateOwners : List (IpcIdentity × List FdEndpoint) → List (IpcIdentity × List FdEndpoint))
  (iterateInfos : List (UInt64 × SocketInfo) → List (UInt64 × SocketInfo))

/-- The maps of a snapshot; the owners in the order in which they are traversed, each list with the
connection status and sorted. -/
def observationsOf (snapshot : SystemSnapshot) : Observations where
  owners := OrderedMap.ofList ((iterateOwners (OrderedMap.ofList snapshot.rawOwners).entries).map
    fun (resource, endpoints) => (resource, sortByKey FdEndpoint.position
      (withStatus (OrderedMap.ofList snapshot.rawSockets) (OrderedMap.ofList snapshot.rawConnections)
        resource endpoints)))
  infos := OrderedMap.ofList snapshot.rawSockets
  namespaces := OrderedMap.ofList snapshot.rawNamespaces

/-- The inodes by the tuples under which they are found from the other end. -/
def reverseOf (observations : Observations) : OrderedMap Tuple (List UInt64) :=
  group ((iterateInfos observations.infos.entries).filterMap (reverseEntry observations.namespaces))

/-- Builds the relations of a snapshot from what was captured, which is taken out; whether relations
were left out. -/
def buildWithin (limits : Limits) (snapshot : SystemSnapshot) : SystemSnapshot × Bool :=
  let observations := observationsOf iterateOwners snapshot
  let metadata := OrderedMap.ofList snapshot.rawConnections
  let owners := (OrderedMap.ofList snapshot.rawOwners).entries
  let unknownTypes := countFds (fun r => (observations.infos.get? r.inode).isNone) owners
  let unknownStatuses :=
    countFds (fun r => socketStatus observations.infos metadata r = .unknown) owners
  let progress := relateOwners limits observations (reverseOf iterateInfos observations)
    observations.owners.entries ⟨snapshot.fdRelations, [], false⟩
  let relations :=
    match snapshot.rawNeighbors with
    | some captured => progress.relations.map (withRemoteGid observations.namespaces captured)
    | none => progress.relations
  ({ snapshot with
      fdRelations := relations
      warnings := snapshot.warnings ++ unavailableWarning "Socket type" unknownTypes ++
        unavailableWarning "Socket connection status" unknownStatuses
      rawOwners := []
      rawSockets := []
      rawNamespaces := []
      rawConnections := []
      rawNeighbors := none },
    progress.truncated)

/-- Builds the relations of a snapshot, within the limits of the analysis. -/
def buildIpcRelations (snapshot : SystemSnapshot) : SystemSnapshot × Bool :=
  buildWithin iterateOwners iterateInfos .standard snapshot

end Build

end Procinsh.Analysis
