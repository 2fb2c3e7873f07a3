import Procinsh.Foundation.Json
import Procinsh.Foundation.Lists

/-!
# Identities across hosts

The page of all hosts makes the identities of a snapshot unique before it puts snapshots together
(`qualifySnapshot` of `web/src/space/hosts.ts`): process identities carry the host, and relation ids,
PCI addresses and handle ids are prefixed with its name and `@`.  The name of a host has no `@`, so
the first `@` of a qualified identity ends the name.

A record carries the fields that the page looks at here; the others, which are copied as they are,
are its `rest`.
-/

namespace Procinsh.Space

/-! ## Records -/

structure ProcessId where
  pid : ℤ
  startTimeTicks : ℤ
  /-- Set by the browser for a process of a remote host; the server never sends it. -/
  host : Option String
  deriving DecidableEq

structure Process where
  identity : ProcessId
  parentId : Option ProcessId
  rest : Json
  deriving DecidableEq

structure FdEndpoint where
  processId : ProcessId
  rest : Json
  deriving DecidableEq

structure FdRelation where
  id : String
  endpoint : FdEndpoint
  peer : Option FdEndpoint
  label : String
  candidate : Bool
  shared : Bool
  rest : Json
  deriving DecidableEq

inductive RdmaEndpointOwner
  | process (processId : ProcessId)
  | kernel (name : String)
  | unknown (pid : Option ℤ)
  deriving DecidableEq

structure RdmaEndpoint where
  owner : RdmaEndpointOwner
  /-- Set by the browser in the merged multi-host view. -/
  host : Option String
  qpn : ℤ
  rest : Json
  deriving DecidableEq

structure RdmaCmInfo where
  owner : RdmaEndpointOwner
  rest : Json
  deriving DecidableEq

/-- A queue pair; `peer` is set only for a connected QP on the same host. -/
structure RdmaRelation where
  id : String
  endpoint : RdmaEndpoint
  peer : Option RdmaEndpoint
  cm : Option RdmaCmInfo
  label : String
  rest : Json
  deriving DecidableEq

structure RdmaPortInfo where
  /-- Set by the browser in the merged multi-host view. -/
  host : Option String
  rest : Json
  deriving DecidableEq

structure HardwareDevice where
  address : String
  parent : Option String
  rest : Json
  deriving DecidableEq

structure HardwarePath where
  id : String
  a : String
  b : String
  via : List String
  rest : Json
  deriving DecidableEq

structure DeviceHandle where
  id : String
  processId : ProcessId
  device : String
  rest : Json
  deriving DecidableEq

/-- A snapshot; older servers do not send all collections. -/
structure SystemSnapshot where
  processes : List Process
  fdRelations : List FdRelation
  rdmaRelations : Option (List RdmaRelation)
  rdmaPorts : Option (List RdmaPortInfo)
  hardwareDevices : Option (List HardwareDevice)
  hardwarePaths : Option (List HardwarePath)
  deviceHandles : Option (List DeviceHandle)
  sequence : Option ℤ
  deriving DecidableEq

/-! ## Qualifying a snapshot -/

/-- Process identity key; the merged multi-host view prefixes the host. -/
def key (id : ProcessId) : String :=
  (match id.host with
    | none => ""
    | some host => host ++ "@") ++ (toString id.pid ++ ":" ++ toString id.startTimeTicks)

/-- A host-local id, such as a relation id or a PCI address, made unique across hosts. -/
def hostId (host value : String) : String := host ++ "@" ++ value

/-- The host of a qualified PCI address, or `none` for a single host. -/
def addressHost (address : String) : Option String :=
  if '@' ∈ address.toList then some (String.ofList (address.toList.takeWhile (· ≠ '@'))) else none

def ProcessId.qualify (host : String) (id : ProcessId) : ProcessId := { id with host := some host }

/-- `value && address(value)`: an empty text is kept. -/
def qualifyText (host : String) (value : Option String) : Option String :=
  value.map fun v => if v = "" then v else hostId host v

def rdmaOwner (host : String) : RdmaEndpointOwner → RdmaEndpointOwner
  | .process processId => .process (processId.qualify host)
  | .kernel name => .kernel name
  | .unknown pid => .unknown pid

def rdmaEndpoint (host : String) (endpoint : RdmaEndpoint) : RdmaEndpoint :=
  { endpoint with host := some host, owner := rdmaOwner host endpoint.owner }

def FdEndpoint.qualify (host : String) (endpoint : FdEndpoint) : FdEndpoint :=
  { endpoint with processId := endpoint.processId.qualify host }

def Process.qualify (host : String) (p : Process) : Process :=
  { p with
    identity := p.identity.qualify host
    parentId := p.parentId.map (ProcessId.qualify host) }

def FdRelation.qualify (host : String) (r : FdRelation) : FdRelation :=
  { r with
    id := hostId host r.id
    endpoint := r.endpoint.qualify host
    peer := r.peer.map (FdEndpoint.qualify host) }

def RdmaRelation.qualify (host : String) (r : RdmaRelation) : RdmaRelation :=
  { r with
    id := hostId host r.id
    endpoint := rdmaEndpoint host r.endpoint
    peer := r.peer.map (rdmaEndpoint host)
    cm := r.cm.map fun cm => { cm with owner := rdmaOwner host cm.owner } }

def HardwareDevice.qualify (host : String) (d : HardwareDevice) : HardwareDevice :=
  { d with address := hostId host d.address, parent := qualifyText host d.parent }

def HardwarePath.qualify (host : String) (p : HardwarePath) : HardwarePath :=
  { p with
    id := hostId host p.id
    a := hostId host p.a
    b := hostId host p.b
    via := p.via.map (hostId host) }

def DeviceHandle.qualify (host : String) (h : DeviceHandle) : DeviceHandle :=
  { h with
    id := hostId host h.id
    device := hostId host h.device
    processId := h.processId.qualify host }

/-- Adds `host` to every process identity and prefixes relation ids and PCI addresses, so equal
identities of different machines stay apart. -/
def qualifySnapshot (host : String) (snapshot : SystemSnapshot) : SystemSnapshot :=
  { snapshot with
    processes := snapshot.processes.map (Process.qualify host)
    fdRelations := snapshot.fdRelations.map (FdRelation.qualify host)
    rdmaRelations := snapshot.rdmaRelations.map fun l => l.map (RdmaRelation.qualify host)
    rdmaPorts := snapshot.rdmaPorts.map fun l => l.map fun p => { p with host := some host }
    hardwareDevices := snapshot.hardwareDevices.map fun l => l.map (HardwareDevice.qualify host)
    hardwarePaths := snapshot.hardwarePaths.map fun l => l.map (HardwarePath.qualify host)
    deviceHandles := snapshot.deviceHandles.map fun l => l.map (DeviceHandle.qualify host) }

/-! ## The identities of a snapshot -/

/-- The process that owns an endpoint. -/
def RdmaEndpointOwner.processId? : RdmaEndpointOwner → Option ProcessId
  | .process processId => some processId
  | .kernel _ | .unknown _ => none

def Process.processIds (p : Process) : List ProcessId := p.identity :: p.parentId.toList

def FdRelation.processIds (r : FdRelation) : List ProcessId :=
  r.endpoint.processId :: (r.peer.map FdEndpoint.processId).toList

def RdmaRelation.processIds (r : RdmaRelation) : List ProcessId :=
  r.endpoint.owner.processId?.toList ++ (r.peer.bind fun p => p.owner.processId?).toList ++
    (r.cm.bind fun cm => cm.owner.processId?).toList

/-- The addresses of a device; an empty parent stands for none. -/
def HardwareDevice.addresses (d : HardwareDevice) : List String :=
  d.address :: d.parent.toList.filter (· ≠ "")

namespace SystemSnapshot

variable (s : SystemSnapshot)

/-- The identities of processes, wherever they occur. -/
def processIds : List ProcessId :=
  s.processes.flatMap Process.processIds ++ s.fdRelations.flatMap FdRelation.processIds ++
    (s.rdmaRelations.getD []).flatMap RdmaRelation.processIds ++
    (s.deviceHandles.getD []).map DeviceHandle.processId

/-- The keys of processes. -/
def processKeys : List String := s.processIds.map key

/-- The ids of relations of both kinds. -/
def relationIds : List String :=
  s.fdRelations.map FdRelation.id ++ (s.rdmaRelations.getD []).map RdmaRelation.id

/-- The PCI addresses, wherever they occur. -/
def addresses : List String :=
  (s.hardwareDevices.getD []).flatMap HardwareDevice.addresses ++
    (s.hardwarePaths.getD []).flatMap (fun p => p.a :: p.b :: p.via) ++
    (s.deviceHandles.getD []).map DeviceHandle.device

/-- The ids of device handles. -/
def handleIds : List String := (s.deviceHandles.getD []).map DeviceHandle.id

end SystemSnapshot

/-! ## Qualified texts -/

variable {host host' value value' : String}

theorem toList_hostId (host value : String) :
    (hostId host value).toList = host.toList ++ '@' :: value.toList := by
  rw [hostId, String.toList_append, String.toList_append, List.append_assoc]
  rfl

/-- A qualified text determines the host and what it qualifies. -/
theorem hostId_inj (hhost : '@' ∉ host.toList) (hhost' : '@' ∉ host'.toList) :
    hostId host value = hostId host' value' ↔ host = host' ∧ value = value' := by
  constructor
  · intro h
    have hlists := congrArg String.toList h
    rw [toList_hostId, toList_hostId] at hlists
    exact (append_cons_inj_of_notMem hhost hhost' hlists).imp String.toList_inj.mp
      String.toList_inj.mp
  · rintro ⟨rfl, rfl⟩
    rfl

/-- The host of a qualified text is found again. -/
theorem addressHost_hostId (hhost : '@' ∉ host.toList) (value : String) :
    addressHost (hostId host value) = some host := by
  have hmem : '@' ∈ (hostId host value).toList := by
    rw [toList_hostId]
    exact List.mem_append_right _ List.mem_cons_self
  have htake : (hostId host value).toList.takeWhile (· ≠ '@') = host.toList := by
    have hall : ∀ c ∈ host.toList, decide (c ≠ '@') = true := by
      intro c hc
      refine decide_eq_true fun h => ?_
      exact hhost (h ▸ hc)
    rw [toList_hostId, List.takeWhile_append_of_pos hall, List.takeWhile_cons_of_neg (by simp),
      List.append_nil]
  rw [addressHost, if_pos hmem, htake, String.ofList_toList]

theorem hostId_ne_empty (host value : String) : hostId host value ≠ "" := by
  intro h
  have hlist := congrArg String.toList h
  rw [toList_hostId] at hlist
  exact List.append_ne_nil_of_right_ne_nil _ (List.cons_ne_nil _ _) hlist

/-! ## Qualified snapshots -/

theorem Process.processIds_qualify (host : String) (p : Process) :
    (p.qualify host).processIds = p.processIds.map (ProcessId.qualify host) := by
  obtain ⟨identity, parentId, rest⟩ := p
  cases parentId with
  | none => rfl
  | some parent => rfl

theorem FdRelation.processIds_qualify (host : String) (r : FdRelation) :
    (r.qualify host).processIds = r.processIds.map (ProcessId.qualify host) := by
  obtain ⟨id, endpoint, peer, label, candidate, shared, rest⟩ := r
  cases peer with
  | none => rfl
  | some peer => rfl

theorem processId?_rdmaOwner (host : String) (owner : RdmaEndpointOwner) :
    (rdmaOwner host owner).processId? = owner.processId?.map (ProcessId.qualify host) := by
  cases owner with
  | process processId => rfl
  | kernel name => rfl
  | unknown pid => rfl

theorem RdmaRelation.processIds_qualify (host : String) (r : RdmaRelation) :
    (r.qualify host).processIds = r.processIds.map (ProcessId.qualify host) := by
  obtain ⟨id, endpoint, peer, cm, label, rest⟩ := r
  have hendpoint : ∀ e : RdmaEndpoint, (rdmaEndpoint host e).owner.processId?.toList =
      e.owner.processId?.toList.map (ProcessId.qualify host) := fun e => by
    rw [rdmaEndpoint, processId?_rdmaOwner, Option.toList_map]
  have hcm : ∀ c : RdmaCmInfo, (rdmaOwner host c.owner).processId?.toList =
      c.owner.processId?.toList.map (ProcessId.qualify host) := fun c => by
    rw [processId?_rdmaOwner, Option.toList_map]
  cases peer with
  | none =>
    cases cm with
    | none => simp [RdmaRelation.qualify, RdmaRelation.processIds, hendpoint]
    | some cm => simp [RdmaRelation.qualify, RdmaRelation.processIds, hendpoint, hcm]
  | some peer =>
    cases cm with
    | none => simp [RdmaRelation.qualify, RdmaRelation.processIds, hendpoint]
    | some cm => simp [RdmaRelation.qualify, RdmaRelation.processIds, hendpoint, hcm]

theorem HardwareDevice.addresses_qualify (host : String) (d : HardwareDevice) :
    (d.qualify host).addresses = d.addresses.map (hostId host) := by
  obtain ⟨address, parent, rest⟩ := d
  cases parent with
  | none => rfl
  | some parent =>
    unfold HardwareDevice.addresses HardwareDevice.qualify qualifyText
    by_cases h : parent = ""
    · simp [h]
    · simp [h, hostId_ne_empty]

/-- What is collected from the qualified items of a collection. -/
private theorem flatMap_map_getD {α β : Type} {f : α → List β} {g : α → α} {k : β → β}
    (h : ∀ x, f (g x) = (f x).map k) (l : Option (List α)) :
    ((l.map fun l => l.map g).getD []).flatMap f = ((l.getD []).flatMap f).map k := by
  cases l with
  | none => rfl
  | some l =>
    change (l.map g).flatMap f = (l.flatMap f).map k
    rw [List.flatMap_map, List.map_flatMap]
    exact List.flatMap_congr fun x _ => h x

namespace SystemSnapshot

variable (s : SystemSnapshot)

/-- Qualifying a snapshot qualifies its process identities. -/
theorem processIds_qualify (host : String) :
    (qualifySnapshot host s).processIds = s.processIds.map (ProcessId.qualify host) := by
  have hprocesses : (s.processes.map (Process.qualify host)).flatMap Process.processIds =
      (s.processes.flatMap Process.processIds).map (ProcessId.qualify host) :=
    flatMap_map_getD (Process.processIds_qualify host) (some s.processes)
  have hfd : (s.fdRelations.map (FdRelation.qualify host)).flatMap FdRelation.processIds =
      (s.fdRelations.flatMap FdRelation.processIds).map (ProcessId.qualify host) :=
    flatMap_map_getD (FdRelation.processIds_qualify host) (some s.fdRelations)
  have hrdma := flatMap_map_getD (RdmaRelation.processIds_qualify host) s.rdmaRelations
  have hhandles : ((s.deviceHandles.map fun l => l.map (DeviceHandle.qualify host)).getD []).map
      DeviceHandle.processId =
        ((s.deviceHandles.getD []).map DeviceHandle.processId).map (ProcessId.qualify host) := by
    cases s.deviceHandles with
    | none => rfl
    | some l => simp [DeviceHandle.qualify]
  unfold processIds qualifySnapshot
  dsimp only
  rw [hprocesses, hfd, hrdma, hhandles, List.map_append, List.map_append, List.map_append]

/-- Qualifying a snapshot qualifies the ids of its relations. -/
theorem relationIds_qualify (host : String) :
    (qualifySnapshot host s).relationIds = s.relationIds.map (hostId host) := by
  have hrdma : ((s.rdmaRelations.map fun l => l.map (RdmaRelation.qualify host)).getD []).map
      RdmaRelation.id = ((s.rdmaRelations.getD []).map RdmaRelation.id).map (hostId host) := by
    cases s.rdmaRelations with
    | none => rfl
    | some l => simp [RdmaRelation.qualify]
  have hfd : (s.fdRelations.map (FdRelation.qualify host)).map FdRelation.id =
      (s.fdRelations.map FdRelation.id).map (hostId host) := by simp [FdRelation.qualify]
  unfold relationIds qualifySnapshot
  dsimp only
  rw [hrdma, hfd, List.map_append]

/-- Qualifying a snapshot qualifies its PCI addresses. -/
theorem addresses_qualify (host : String) :
    (qualifySnapshot host s).addresses = s.addresses.map (hostId host) := by
  have hdevices := flatMap_map_getD (HardwareDevice.addresses_qualify host) s.hardwareDevices
  have hpaths := flatMap_map_getD (f := fun p : HardwarePath => p.a :: p.b :: p.via)
    (g := HardwarePath.qualify host) (k := hostId host) (fun _ => rfl) s.hardwarePaths
  have hhandles : ((s.deviceHandles.map fun l => l.map (DeviceHandle.qualify host)).getD []).map
      DeviceHandle.device = ((s.deviceHandles.getD []).map DeviceHandle.device).map (hostId host) := by
    cases s.deviceHandles with
    | none => rfl
    | some l => simp [DeviceHandle.qualify]
  unfold addresses qualifySnapshot
  dsimp only
  rw [hdevices, hpaths, hhandles, List.map_append, List.map_append]

/-- Qualifying a snapshot qualifies the ids of its handles. -/
theorem handleIds_qualify (host : String) :
    (qualifySnapshot host s).handleIds = s.handleIds.map (hostId host) := by
  unfold handleIds qualifySnapshot
  cases s.deviceHandles with
  | none => rfl
  | some l => simp [DeviceHandle.qualify]

end SystemSnapshot

/-- Qualified texts of different hosts are different. -/
theorem disjoint_map_hostId (hhost : '@' ∉ host.toList) (hhost' : '@' ∉ host'.toList)
    (hne : host ≠ host') (l l' : List String) :
    (l.map (hostId host)).Disjoint (l'.map (hostId host')) := by
  intro x hx hx'
  obtain ⟨value, -, rfl⟩ := List.mem_map.mp hx
  obtain ⟨value', -, h⟩ := List.mem_map.mp hx'
  exact hne ((hostId_inj hhost' hhost).mp h).1.symm

/-- The identities of two snapshots have nothing in common. -/
structure Apart (s t : SystemSnapshot) : Prop where
  processKeys : s.processKeys.Disjoint t.processKeys
  relationIds : s.relationIds.Disjoint t.relationIds
  addresses : s.addresses.Disjoint t.addresses
  handleIds : s.handleIds.Disjoint t.handleIds

/-- Qualified snapshots of different hosts have no identities in common. -/
theorem apart_qualifySnapshot (hhost : '@' ∉ host.toList) (hhost' : '@' ∉ host'.toList)
    (hne : host ≠ host') (s t : SystemSnapshot) :
    Apart (qualifySnapshot host s) (qualifySnapshot host' t) where
  processKeys := by
    intro x hx hx'
    unfold SystemSnapshot.processKeys at hx hx'
    rw [SystemSnapshot.processIds_qualify, List.map_map] at hx hx'
    obtain ⟨id, -, rfl⟩ := List.mem_map.mp hx
    obtain ⟨id', -, h⟩ := List.mem_map.mp hx'
    exact hne ((hostId_inj hhost' hhost).mp h).1.symm
  relationIds := by
    rw [SystemSnapshot.relationIds_qualify, SystemSnapshot.relationIds_qualify]
    exact disjoint_map_hostId hhost hhost' hne _ _
  addresses := by
    rw [SystemSnapshot.addresses_qualify, SystemSnapshot.addresses_qualify]
    exact disjoint_map_hostId hhost hhost' hne _ _
  handleIds := by
    rw [SystemSnapshot.handleIds_qualify, SystemSnapshot.handleIds_qualify]
    exact disjoint_map_hostId hhost hhost' hne _ _

/-- The host of every address of a qualified snapshot is found again. -/
theorem addressHost_of_mem (hhost : '@' ∉ host.toList) {s : SystemSnapshot} {address : String}
    (h : address ∈ (qualifySnapshot host s).addresses) : addressHost address = some host := by
  rw [SystemSnapshot.addresses_qualify] at h
  obtain ⟨value, -, rfl⟩ := List.mem_map.mp h
  exact addressHost_hostId hhost value

end Procinsh.Space
