import Procinsh.Ipc.Processes

/-!
# Devices on the helper connection

PCI devices, device files and RDMA queue pairs (`src/ipc/hardware.rs`, `src/ipc/rdma.rs`) with
their wire format.
-/

namespace Procinsh.Ipc

/-! ## Hardware -/

/-- A memory region of a device. -/
structure BarInfo where
  index : UInt32
  bytes : UInt64
  prefetchable : Bool
  deriving DecidableEq

instance : Wire BarInfo := wireStruct (fun v => (v.index, v.bytes, v.prefetchable))
  fun (index, bytes, prefetchable) => ⟨index, bytes, prefetchable⟩

instance : LawfulWire BarInfo := ⟨wireLaws_wireStruct⟩

/-- The speed and the width of a link. -/
structure PcieLink where
  speedGts : F64
  width : UInt32
  deriving DecidableEq

instance : Wire PcieLink := wireStruct (fun v => (v.speedGts, v.width))
  fun (speedGts, width) => ⟨speedGts, width⟩

instance : LawfulWire PcieLink := ⟨wireLaws_wireStruct⟩

/-- The link of a device, as it is and as it could be. -/
structure PcieLinkInfo where
  current : Option PcieLink
  max : Option PcieLink
  deriving DecidableEq

instance : Wire PcieLinkInfo := wireStruct (fun v => (v.current, v.max))
  fun (current, max) => ⟨current, max⟩

instance : LawfulWire PcieLinkInfo := ⟨wireLaws_wireStruct⟩

/-- What a device is for. -/
inductive HardwareKind
  | gpu
  | rdma
  | accelerator
  | nvSwitch
  deriving DecidableEq

instance : Wire HardwareKind := wireEnum [.unit 0 .gpu, .unit 1 .rdma, .unit 2 .accelerator,
  .unit 3 .nvSwitch]

instance : LawfulWire HardwareKind := ⟨wireLaws_wireEnum⟩

/-- The place of a device in the PCI tree. -/
inductive HardwareRole
  | hostBridge
  | rootPort
  | switchPort
  | endpoint
  deriving DecidableEq

instance : Wire HardwareRole := wireEnum [.unit 0 .hostBridge, .unit 1 .rootPort,
  .unit 2 .switchPort, .unit 3 .endpoint]

instance : LawfulWire HardwareRole := ⟨wireLaws_wireEnum⟩

/-- An RDMA device. -/
structure RdmaDeviceInfo where
  name : String
  hcaType : Option String
  fwVer : Option String
  deriving DecidableEq

instance : Wire RdmaDeviceInfo := wireStruct (fun v => (v.name, v.hcaType, v.fwVer))
  fun (name, hcaType, fwVer) => ⟨name, hcaType, fwVer⟩

instance : LawfulWire RdmaDeviceInfo := ⟨wireLaws_wireStruct⟩

/-- A GPU. -/
structure GpuInfo where
  vendor : String
  model : Option String
  uuid : Option String
  minor : Option UInt32
  drm : List String
  deriving DecidableEq

instance : Wire GpuInfo := wireStruct (fun v => (v.vendor, v.model, v.uuid, v.minor, v.drm))
  fun (vendor, model, uuid, minor, drm) => ⟨vendor, model, uuid, minor, drm⟩

instance : LawfulWire GpuInfo := ⟨wireLaws_wireStruct⟩

/-- A PCI device. -/
structure HardwareDevice where
  address : String
  parent : Option String
  role : HardwareRole
  kind : Option HardwareKind
  label : String
  deviceClass : Option String
  vendorId : Option String
  deviceId : Option String
  driver : Option String
  numaNode : Option UInt32
  link : Option PcieLinkInfo
  powerState : Option String
  runtimeStatus : Option String
  iommuGroup : Option UInt32
  bars : List BarInfo
  gpu : Option GpuInfo
  rdma : List RdmaDeviceInfo
  netdevs : List String
  deriving DecidableEq

instance : Wire HardwareDevice := wireStruct (fun v => (v.address, v.parent, v.role, v.kind,
  v.label, v.deviceClass, v.vendorId, v.deviceId, v.driver, v.numaNode, v.link, v.powerState,
  v.runtimeStatus, v.iommuGroup, v.bars, v.gpu, v.rdma, v.netdevs))
  fun (address, parent, role, kind, label, deviceClass, vendorId, deviceId, driver, numaNode, link,
    powerState, runtimeStatus, iommuGroup, bars, gpu, rdma, netdevs) => ⟨address, parent, role,
    kind, label, deviceClass, vendorId, deviceId, driver, numaNode, link, powerState, runtimeStatus,
    iommuGroup, bars, gpu, rdma, netdevs⟩

instance : LawfulWire HardwareDevice := ⟨wireLaws_wireStruct⟩

/-- The kind of a device file. -/
inductive DeviceHandleKind
  | nvidia
  | drmRender
  | drmCard
  | uverbs
  | umad
  | accel
  deriving DecidableEq

instance : Wire DeviceHandleKind := wireEnum [.unit 0 .nvidia, .unit 1 .drmRender,
  .unit 2 .drmCard, .unit 3 .uverbs, .unit 4 .umad, .unit 5 .accel]

instance : LawfulWire DeviceHandleKind := ⟨wireLaws_wireEnum⟩

/-- A device file held open by a process. -/
structure DeviceHandle where
  id : String
  processId : ProcessId
  device : String
  kind : DeviceHandleKind
  fd : UInt32
  fdCount : Size
  deriving DecidableEq

instance : Wire DeviceHandle := wireStruct (fun v => (v.id, v.processId, v.device, v.kind, v.fd,
  v.fdCount))
  fun (id, processId, device, kind, fd, fdCount) => ⟨id, processId, device, kind, fd, fdCount⟩

instance : LawfulWire DeviceHandle := ⟨wireLaws_wireStruct⟩

/-- How far apart two devices are. -/
inductive PathClass
  | pix
  | pxb
  | phb
  | node
  | sys
  deriving DecidableEq

instance : Wire PathClass := wireEnum [.unit 0 .pix, .unit 1 .pxb, .unit 2 .phb, .unit 3 .node,
  .unit 4 .sys]

instance : LawfulWire PathClass := ⟨wireLaws_wireEnum⟩

/-- The path between two devices. -/
structure HardwarePath where
  id : String
  a : String
  b : String
  pathClass : PathClass
  via : List String
  bottleneck : Option PcieLink
  deriving DecidableEq

instance : Wire HardwarePath := wireStruct (fun v => (v.id, v.a, v.b, v.pathClass, v.via,
  v.bottleneck))
  fun (id, a, b, pathClass, via, bottleneck) => ⟨id, a, b, pathClass, via, bottleneck⟩

instance : LawfulWire HardwarePath := ⟨wireLaws_wireStruct⟩

/-- The files that describe the hardware. -/
structure HardwareFiles where
  truncated : Bool
  texts : List (String × String)
  directories : List (String × List String)
  links : List (String × String)

instance : Wire HardwareFiles := wireStruct (fun v => (v.truncated, v.texts, v.directories,
  v.links))
  fun (truncated, texts, directories, links) => ⟨truncated, texts, directories, links⟩

instance : LawfulWire HardwareFiles := ⟨wireLaws_wireStruct⟩

/-! ## RDMA -/

/-- The type of a queue pair. -/
inductive RdmaQpType
  | smi
  | gsi
  | rc
  | uc
  | ud
  | rawIpv6
  | rawEthertype
  | rawPacket
  | xrcIni
  | xrcTgt
  | driver
  | unknown (value : UInt8)
  deriving DecidableEq

instance : Wire RdmaQpType := wireEnum [
  .unit 0 .smi, .unit 1 .gsi, .unit 2 .rc, .unit 3 .uc, .unit 4 .ud, .unit 5 .rawIpv6,
  .unit 6 .rawEthertype, .unit 7 .rawPacket, .unit 8 .xrcIni, .unit 9 .xrcTgt, .unit 10 .driver,
  .of 11 .unknown fun
    | .unknown value => some value
    | _ => none]

instance : LawfulWire RdmaQpType := ⟨wireLaws_wireEnum⟩

/-- The state of a queue pair. -/
inductive RdmaQpState
  | reset
  | init
  | rtr
  | rts
  | sqd
  | sqe
  | err
  | unknown (value : UInt8)
  deriving DecidableEq

instance : Wire RdmaQpState := wireEnum [
  .unit 0 .reset, .unit 1 .init, .unit 2 .rtr, .unit 3 .rts, .unit 4 .sqd, .unit 5 .sqe,
  .unit 6 .err,
  .of 7 .unknown fun
    | .unknown value => some value
    | _ => none]

instance : LawfulWire RdmaQpState := ⟨wireLaws_wireEnum⟩

/-- The state of a connection manager entry. -/
inductive RdmaCmState
  | idle
  | addrQuery
  | addrResolved
  | routeQuery
  | routeResolved
  | connect
  | disconnect
  | addrBound
  | listen
  | deviceRemoval
  | destroying
  | unknown (value : UInt8)
  deriving DecidableEq

instance : Wire RdmaCmState := wireEnum [
  .unit 0 .idle, .unit 1 .addrQuery, .unit 2 .addrResolved, .unit 3 .routeQuery,
  .unit 4 .routeResolved, .unit 5 .connect, .unit 6 .disconnect, .unit 7 .addrBound,
  .unit 8 .listen, .unit 9 .deviceRemoval, .unit 10 .destroying,
  .of 11 .unknown fun
    | .unknown value => some value
    | _ => none]

instance : LawfulWire RdmaCmState := ⟨wireLaws_wireEnum⟩

/-- The port space of a connection manager entry. -/
inductive RdmaPortSpace
  | ipoib
  | tcp
  | udp
  | ib
  | unknown (value : UInt32)
  deriving DecidableEq

instance : Wire RdmaPortSpace := wireEnum [
  .unit 0 .ipoib, .unit 1 .tcp, .unit 2 .udp, .unit 3 .ib,
  .of 4 .unknown fun
    | .unknown value => some value
    | _ => none]

instance : LawfulWire RdmaPortSpace := ⟨wireLaws_wireEnum⟩

/-- A port identifier of 16 bytes. -/
structure IbGid where
  bytes : List.Vector UInt8 16
  deriving DecidableEq

instance : Wire IbGid := wireStruct (fun v => v.bytes) fun bytes => ⟨bytes⟩

instance : LawfulWire IbGid := ⟨wireLaws_wireStruct⟩

/-- An address of the connection manager. -/
inductive RdmaAddress
  | inet (ip : IpAddr) (port : UInt16)
  | ib (gid : IbGid) (serviceId : UInt64) (pkey : UInt16)
  | unknown (family : UInt16)
  deriving DecidableEq

instance : Wire RdmaAddress := wireEnum [
  .of 0 (fun (ip, port) => .inet ip port) fun
    | .inet ip port => some (ip, port)
    | _ => none,
  .of 1 (fun (gid, serviceId, pkey) => .ib gid serviceId pkey) fun
    | .ib gid serviceId pkey => some (gid, serviceId, pkey)
    | _ => none,
  .of 2 .unknown fun
    | .unknown family => some family
    | _ => none]

instance : LawfulWire RdmaAddress := ⟨wireLaws_wireEnum⟩

/-- A port of an RDMA device. -/
structure RdmaPortInfo where
  device : String
  port : UInt32
  linkLayer : Option String
  state : Option String
  lid : Option UInt32
  gid : Option IbGid
  rate : Option String
  deriving DecidableEq

instance : Wire RdmaPortInfo := wireStruct (fun v => (v.device, v.port, v.linkLayer, v.state,
  v.lid, v.gid, v.rate))
  fun (device, port, linkLayer, state, lid, gid, rate) => ⟨device, port, linkLayer, state, lid,
    gid, rate⟩

instance : LawfulWire RdmaPortInfo := ⟨wireLaws_wireStruct⟩

/-- Who owns a queue pair. -/
inductive RdmaEndpointOwner
  | process (processId : ProcessId)
  | kernel (name : String)
  | unknown (pid : Option UInt32)
  deriving DecidableEq

instance : Wire RdmaEndpointOwner := wireEnum [
  .of 0 .process fun
    | .process processId => some processId
    | _ => none,
  .of 1 .kernel fun
    | .kernel name => some name
    | _ => none,
  .of 2 .unknown fun
    | .unknown pid => some pid
    | _ => none]

instance : LawfulWire RdmaEndpointOwner := ⟨wireLaws_wireEnum⟩

/-- A queue pair. -/
structure RdmaEndpoint where
  owner : RdmaEndpointOwner
  device : String
  port : Option UInt32
  qpn : UInt32
  qpType : RdmaQpType
  state : RdmaQpState
  deriving DecidableEq

instance : Wire RdmaEndpoint := wireStruct (fun v => (v.owner, v.device, v.port, v.qpn, v.qpType,
  v.state))
  fun (owner, device, port, qpn, qpType, state) => ⟨owner, device, port, qpn, qpType, state⟩

instance : LawfulWire RdmaEndpoint := ⟨wireLaws_wireStruct⟩

/-- A connection manager entry. -/
structure RdmaCmInfo where
  id : Option UInt32
  owner : RdmaEndpointOwner
  state : RdmaCmState
  portSpace : RdmaPortSpace
  source : Option RdmaAddress
  destination : Option RdmaAddress
  deriving DecidableEq

instance : Wire RdmaCmInfo := wireStruct (fun v => (v.id, v.owner, v.state, v.portSpace, v.source,
  v.destination))
  fun (id, owner, state, portSpace, source, destination) => ⟨id, owner, state, portSpace, source,
    destination⟩

instance : LawfulWire RdmaCmInfo := ⟨wireLaws_wireStruct⟩

/-- A queue pair with its peer. -/
structure RdmaRelation where
  id : String
  endpoint : RdmaEndpoint
  peer : Option RdmaEndpoint
  remoteQpn : Option UInt32
  cm : Option RdmaCmInfo
  remoteGid : Option IbGid
  remoteHostname : Option String
  label : String
  deriving DecidableEq

instance : Wire RdmaRelation := wireStruct (fun v => (v.id, v.endpoint, v.peer, v.remoteQpn, v.cm,
  v.remoteGid, v.remoteHostname, v.label))
  fun (id, endpoint, peer, remoteQpn, cm, remoteGid, remoteHostname, label) => ⟨id, endpoint, peer,
    remoteQpn, cm, remoteGid, remoteHostname, label⟩

instance : LawfulWire RdmaRelation := ⟨wireLaws_wireStruct⟩

end Procinsh.Ipc
