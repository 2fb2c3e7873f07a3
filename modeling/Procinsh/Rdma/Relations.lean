import Mathlib.Data.Finset.Insert
import Mathlib.Data.Fintype.Basic
import Procinsh.Foundation.Matching
import Procinsh.Ipc.Devices
import Procinsh.Ipc.Display

/-!
# Relations of queue pairs

`build_rdma_relations` (`src/privileged_helper/system/rdma/relations.rs`) makes a relation of each
queue pair that the kernel lists, and one relation of two queue pairs that are connected to each other
on this host.  Two queue pairs are taken for the ends of one connection if their numbers are swapped,
no address contradicts it, and each is the only such partner of the other.

The neighbors and the processes of the snapshot are known by the lookups in them.
-/

namespace Procinsh.Rdma

open Ipc

/-! ## What the kernel lists -/

/-- Who owns a resource. -/
inductive ResourceOwner
  | process (pid : UInt32)
  | kernel (name : String)
  | unknown
  deriving DecidableEq

structure QueuePairEntry where
  device : String
  port : Option UInt32
  qpn : UInt32
  remoteQpn : Option UInt32
  qpType : RdmaQpType
  state : RdmaQpState
  owner : ResourceOwner
  deriving DecidableEq

structure CmIdEntry where
  device : String
  id : Option UInt32
  qpn : Option UInt32
  state : RdmaCmState
  portSpace : RdmaPortSpace
  source : Option RdmaAddress
  destination : Option RdmaAddress
  owner : ResourceOwner
  deriving DecidableEq

structure NldevResources where
  queuePairs : List QueuePairEntry
  cmIds : List CmIdEntry

/-- What is known besides the resources: the ports, the GIDs of neighbors and the identities of
processes. -/
structure RdmaContext where
  ports : List RdmaPortInfo
  neighbors : IpAddr → Option IbGid
  processes : Int32 → Option ProcessId

/-! ## Texts -/

/-- Whether a queue pair of the type has exactly one remote queue pair. -/
def isConnected (qpType : RdmaQpType) : Bool :=
  qpType = .rc || qpType = .uc || qpType = .xrcIni || qpType = .xrcTgt

def qpTypeText : RdmaQpType → String
  | .smi => "SMI"
  | .gsi => "GSI"
  | .rc => "RC"
  | .uc => "UC"
  | .ud => "UD"
  | .rawIpv6 => "RAW_IPV6"
  | .rawEthertype => "RAW_ETHERTYPE"
  | .rawPacket => "RAW_PACKET"
  | .xrcIni => "XRC_INI"
  | .xrcTgt => "XRC_TGT"
  | .driver => "DRIVER"
  | .unknown code => "TYPE " ++ toString code.toNat

/-- A hexadecimal number with at least `width` digits. -/
def fixedHexText (width n : ℕ) : String :=
  let digits := Nat.toDigits 16 n
  String.ofList (List.replicate (width - digits.length) '0' ++ digits)

/-- A GID as sysfs writes it. -/
def gidText (gid : IbGid) : String := ":".intercalate ((segments gid.bytes).map (fixedHexText 4))

def addressText : RdmaAddress → String
  | .inet (.v4 octets) port => (IpAddr.v4 octets).display ++ ":" ++ toString port.toNat
  | .inet (.v6 octets) port => "[" ++ (IpAddr.v6 octets).display ++ "]:" ++ toString port.toNat
  | .ib gid serviceId _ => gidText gid ++ " SID 0x" ++ fixedHexText 16 serviceId.toNat
  | .unknown family => "AF " ++ toString family.toNat

/-! ## Endpoints -/

/-- A queue pair with its connection manager entry and the GID of the other end. -/
structure Endpoint where
  entry : QueuePairEntry
  cm : Option CmIdEntry
  remoteGid : Option IbGid
  deriving DecidableEq

/-- Queue pairs are known by the device and the number, and by the port if there is one. -/
def endpointId (device : String) (port : Option UInt32) (qpn : UInt32) : String :=
  match port with
  | some port => "rdma:" ++ device ++ "/" ++ toString port.toNat ++ ":" ++ toString qpn.toNat
  | none => "rdma:" ++ device ++ ":" ++ toString qpn.toNat

def QueuePairEntry.id (entry : QueuePairEntry) : String :=
  endpointId entry.device entry.port entry.qpn

def Endpoint.id (e : Endpoint) : String := e.entry.id

def resolveRdmaOwner (context : RdmaContext) : ResourceOwner → RdmaEndpointOwner
  | .kernel name => .kernel name
  | .process pid =>
    match context.processes pid.toInt32 with
    | some id => .process id
    | none => .unknown (some pid)
  | .unknown => .unknown none

def buildRdmaEndpoint (context : RdmaContext) (entry : QueuePairEntry) : RdmaEndpoint where
  owner := resolveRdmaOwner context entry.owner
  device := entry.device
  port := entry.port
  qpn := entry.qpn
  qpType := entry.qpType
  state := entry.state

/-- The GID of a port; the last one that is listed. -/
def portGid (ports : List RdmaPortInfo) (device : String) (port : UInt32) : Option IbGid :=
  ports.reverse.findSome? fun p => if p.device = device ∧ p.port = port then p.gid else none

/-- The first connection manager entry of a queue pair. -/
def cmOf (cmIds : List CmIdEntry) (entry : QueuePairEntry) : Option CmIdEntry :=
  cmIds.find? fun cm => cm.device = entry.device ∧ cm.qpn = some entry.qpn

/-- The GID that an address stands for. -/
def gidOf (context : RdmaContext) : RdmaAddress → Option IbGid
  | .ib gid _ _ => some gid
  | .inet ip _ => context.neighbors ip
  | .unknown _ => none

def endpointOf (context : RdmaContext) (cmIds : List CmIdEntry) (entry : QueuePairEntry) :
    Endpoint where
  entry := entry
  cm := cmOf cmIds entry
  remoteGid := ((cmOf cmIds entry).bind CmIdEntry.destination).bind (gidOf context)

/-! ## Partners -/

/-- The GID of the port of an endpoint. -/
def localGid (context : RdmaContext) (e : Endpoint) : Option IbGid :=
  e.entry.port.bind (portGid context.ports e.entry.device)

/-- Whether the GID that one end has for the other is the one of its port, if both are known. -/
def gidMatch (context : RdmaContext) (source target : Endpoint) : Option Bool :=
  match source.remoteGid, localGid context target with
  | some remote, some gid => some (remote = gid)
  | _, _ => none

/-- Whether the connection manager addresses are swapped, if all four are known. -/
def cmMatch (a b : Endpoint) : Option Bool :=
  match a.cm, b.cm with
  | some a, some b =>
    match a.source, a.destination, b.source, b.destination with
    | some aSrc, some aDst, some bSrc, some bDst => some (aSrc = bDst && aDst = bSrc)
    | _, _, _, _ => none
  | _, _ => none

/-- Whether two endpoints with swapped numbers are the two ends of one connection on this host. -/
def sameConnection (context : RdmaContext) (a b : Endpoint) : Bool :=
  let evidence := [gidMatch context a b, gidMatch context b a, cmMatch a b]
  if evidence.any (· = some false) then false
  else a.entry.device = b.entry.device || evidence.any (· = some true)

section Peers

variable (context : RdmaContext) (endpoints : List Endpoint)

/-- The number and the place of an endpoint that is connected. -/
def numbered (index : Fin endpoints.length) : Option (UInt32 × Fin endpoints.length) :=
  let e := endpoints.get index
  if isConnected e.entry.qpType && e.entry.remoteQpn.isSome then some (e.entry.qpn, index) else none

/-- The places of the connected endpoints that have each number. -/
def byQpn : OrderedMap UInt32 (List (Fin endpoints.length)) :=
  group ((List.finRange endpoints.length).filterMap (numbered endpoints))

/-- The places among those with the remote number that can be the other end. -/
def matchesAmong (index : Fin endpoints.length) (indices : List (Fin endpoints.length)) :
    List (Fin endpoints.length) :=
  let a := endpoints.get index
  indices.filter fun b => b ≠ index && (endpoints.get b).entry.remoteQpn = some a.entry.qpn &&
    sameConnection context a (endpoints.get b)

/-- The only endpoint that can be the other end. -/
def peerOf (index : Fin endpoints.length) : Option (Fin endpoints.length) :=
  let a := endpoints.get index
  if !isConnected a.entry.qpType then none
  else do
    let remote ← a.entry.remoteQpn
    let indices ← (byQpn endpoints).get? remote
    match matchesAmong context endpoints index indices with
    | [b] => some b
    | _ => none

/-- The other end, if each end is the only one that the other can have. -/
def mutualPeer (index : Fin endpoints.length) : Option (Fin endpoints.length) :=
  (peerOf context endpoints index).filter fun b => peerOf context endpoints b = some index

/-! ## Relations -/

def formatRdmaRelationLabel (endpoint : Endpoint) (peer : Option Endpoint) : String :=
  let entry := endpoint.entry
  let label := "RDMA " ++ qpTypeText entry.qpType ++ " QP " ++ toString entry.qpn.toNat
  match peer with
  | some peer => label ++ " ↔ QP " ++ toString peer.entry.qpn.toNat
  | none =>
    let label := match entry.remoteQpn with
      | some remote => label ++ " → QP " ++ toString remote.toNat
      | none => label
    match endpoint.cm.bind CmIdEntry.destination with
    | some destination => label ++ " " ++ addressText destination
    | none =>
      match endpoint.remoteGid with
      | some gid => label ++ " " ++ gidText gid
      | none => label

/-- The relation of an endpoint and its peer. -/
def buildRelation (first : Endpoint) (second : Option Endpoint) : RdmaRelation where
  id := match second with
    | some peer => first.id ++ "/" ++ peer.id
    | none => first.id
  endpoint := buildRdmaEndpoint context first.entry
  peer := second.map fun peer => buildRdmaEndpoint context peer.entry
  remoteQpn := first.entry.remoteQpn
  cm := first.cm.map fun cm =>
    ⟨cm.id, resolveRdmaOwner context cm.owner, cm.state, cm.portSpace, cm.source, cm.destination⟩
  remoteGid := first.remoteGid
  remoteHostname := none
  label := formatRdmaRelationLabel first second

/-- The endpoint and the peer of the relation of an endpoint. -/
def ends (index : Fin endpoints.length) :
    Fin endpoints.length × Option (Fin endpoints.length) :=
  match mutualPeer context endpoints index with
  | some b => if (endpoints.get b).id < (endpoints.get index).id then (b, some index)
    else (index, some b)
  | none => (index, none)

/-- Emits the relation of an endpoint that is not in an emitted one. -/
def emitRelation (state : Finset (Fin endpoints.length) × List RdmaRelation)
    (index : Fin endpoints.length) : Finset (Fin endpoints.length) × List RdmaRelation :=
  if index ∈ state.1 then state
  else
    let (first, second) := ends context endpoints index
    let emitted := insert first state.1
    (match second with
      | some s => insert s emitted
      | none => emitted,
      state.2 ++ [buildRelation context (endpoints.get first) (second.map endpoints.get)])

end Peers

/-- One relation for each queue pair without a peer and one for each two queue pairs on this host that
are peers. -/
def buildRdmaRelations (context : RdmaContext) (resources : NldevResources) : List RdmaRelation :=
  let endpoints := resources.queuePairs.map (endpointOf context resources.cmIds)
  ((List.finRange endpoints.length).foldl (emitRelation context endpoints) (∅, [])).2

end Procinsh.Rdma
