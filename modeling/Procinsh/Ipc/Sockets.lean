import Procinsh.Ipc.Processes

/-!
# Sockets on the helper connection

Socket attributes and file descriptors (`src/ipc/model/socket_types.rs`, `sockets.rs`,
`src/ipc/descriptors.rs`) with their wire format.
-/

namespace Procinsh.Ipc

/-! ## Attributes -/

/-- The version of the internet protocol. -/
inductive AddressFamily
  | ipv4
  | ipv6
  deriving DecidableEq

instance : Wire AddressFamily := wireEnum [.unit 0 .ipv4, .unit 1 .ipv6]

instance : LawfulWire AddressFamily := ⟨wireLaws_wireEnum⟩

/-- A socket type. -/
inductive SocketType
  | stream
  | dgram
  | raw
  | rdm
  | seqpacket
  | dccp
  | packet
  | unknown (value : UInt32)
  deriving DecidableEq

instance : Wire SocketType := wireEnum [
  .unit 0 .stream, .unit 1 .dgram, .unit 2 .raw, .unit 3 .rdm, .unit 4 .seqpacket, .unit 5 .dccp,
  .unit 6 .packet,
  .of 7 .unknown fun
    | .unknown value => some value
    | _ => none]

instance : LawfulWire SocketType := ⟨wireLaws_wireEnum⟩

/-- The protocol of a socket. -/
inductive SocketProtocol
  | tcp (family : AddressFamily)
  | udp (family : AddressFamily)
  | unix (socketType : SocketType)
  | other (family : UInt32) (socketType : Option SocketType) (protocol : UInt32)
  deriving DecidableEq

instance : Wire SocketProtocol := wireEnum [
  .of 0 .tcp fun
    | .tcp family => some family
    | _ => none,
  .of 1 .udp fun
    | .udp family => some family
    | _ => none,
  .of 2 .unix fun
    | .unix socketType => some socketType
    | _ => none,
  .of 3 (fun (family, socketType, protocol) => .other family socketType protocol) fun
    | .other family socketType protocol => some (family, socketType, protocol)
    | _ => none]

instance : LawfulWire SocketProtocol := ⟨wireLaws_wireEnum⟩

/-- Whether a socket is connected. -/
inductive SocketConnectionStatus
  | listening
  | unconnected
  | peerPresent
  | unknown
  deriving DecidableEq

instance : Wire SocketConnectionStatus := wireEnum [.unit 0 .listening, .unit 1 .unconnected,
  .unit 2 .peerPresent, .unit 3 .unknown]

instance : LawfulWire SocketConnectionStatus := ⟨wireLaws_wireEnum⟩

/-- The state of a socket. -/
inductive SocketState
  | established
  | synSent
  | synRecv
  | finWait1
  | finWait2
  | timeWait
  | close
  | closeWait
  | lastAck
  | listen
  | closing
  | newSynRecv
  | unconnected
  | connecting
  | connected
  | disconnecting
  | unknownInet (value : UInt32)
  | unknownUnix (value : UInt32)
  deriving DecidableEq

instance : Wire SocketState := wireEnum [
  .unit 0 .established, .unit 1 .synSent, .unit 2 .synRecv, .unit 3 .finWait1, .unit 4 .finWait2,
  .unit 5 .timeWait, .unit 6 .close, .unit 7 .closeWait, .unit 8 .lastAck, .unit 9 .listen,
  .unit 10 .closing, .unit 11 .newSynRecv, .unit 12 .unconnected, .unit 13 .connecting,
  .unit 14 .connected, .unit 15 .disconnecting,
  .of 16 .unknownInet fun
    | .unknownInet value => some value
    | _ => none,
  .of 17 .unknownUnix fun
    | .unknownUnix value => some value
    | _ => none]

instance : LawfulWire SocketState := ⟨wireLaws_wireEnum⟩

/-- The kind of a file descriptor. -/
inductive FdKind
  | pipe
  | socket
  | fifo
  deriving DecidableEq

instance : Wire FdKind := wireEnum [.unit 0 .pipe, .unit 1 .socket, .unit 2 .fifo]

instance : LawfulWire FdKind := ⟨wireLaws_wireEnum⟩

/-- The direction in which a file descriptor is used. -/
inductive FdAccess
  | read
  | write
  | readWrite
  | unknown
  deriving DecidableEq

instance : Wire FdAccess := wireEnum [.unit 0 .read, .unit 1 .write, .unit 2 .readWrite,
  .unit 3 .unknown]

instance : LawfulWire FdAccess := ⟨wireLaws_wireEnum⟩

/-- An address with a port. -/
structure InetAddress where
  ip : IpAddr
  port : UInt16
  deriving DecidableEq

instance : Wire InetAddress := wireStruct (fun v => (v.ip, v.port))
  fun (ip, port) => ⟨ip, port⟩

instance : LawfulWire InetAddress := ⟨wireLaws_wireStruct⟩

/-- A socket as the kernel reports it. -/
structure SocketInfo where
  protocol : SocketProtocol
  state : Option SocketState
  localAddr : Option SocketAddr
  remoteAddr : Option SocketAddr
  path : Option String
  peerInode : Option UInt64

instance : Wire SocketInfo := wireStruct (fun v => (v.protocol, v.state, v.localAddr, v.remoteAddr,
  v.path, v.peerInode))
  fun (protocol, state, localAddr, remoteAddr, path, peerInode) => ⟨protocol, state, localAddr,
    remoteAddr, path, peerInode⟩

instance : LawfulWire SocketInfo := ⟨wireLaws_wireStruct⟩

/-! ## File descriptors -/

/-- The kernel object behind a file descriptor. -/
structure Key where
  kind : FdKind
  device : UInt64
  inode : UInt64
  deriving DecidableEq

instance : Wire Key := wireStruct (fun v => (v.kind, v.device, v.inode))
  fun (kind, device, inode) => ⟨kind, device, inode⟩

instance : LawfulWire Key := ⟨wireLaws_wireStruct⟩

/-- A process that holds a file descriptor. -/
structure Endpoint where
  processId : ProcessId
  name : String
  fd : UInt32
  access : FdAccess
  relation : String

instance : Wire Endpoint := wireStruct (fun v => (v.processId, v.name, v.fd, v.access, v.relation))
  fun (processId, name, fd, access, relation) => ⟨processId, name, fd, access, relation⟩

instance : LawfulWire Endpoint := ⟨wireLaws_wireStruct⟩

/-- A holder of a file descriptor, with its mode. -/
structure Owner where
  endpoint : Endpoint
  mode : Option UInt32

instance : Wire Owner := wireStruct (fun v => (v.endpoint, v.mode))
  fun (endpoint, mode) => ⟨endpoint, mode⟩

instance : LawfulWire Owner := ⟨wireLaws_wireStruct⟩

/-- A file descriptor. -/
structure FileDescriptorInfo where
  fd : UInt32
  kind : FdKind
  inode : UInt64
  target : String
  access : FdAccess
  protocol : Option SocketProtocol
  state : Option SocketState
  connectionStatus : Option SocketConnectionStatus
  localAddr : Option InetAddress
  remoteAddr : Option InetAddress
  path : Option String
  peerInode : Option UInt64
  peers : List Endpoint
  holders : List Endpoint
  note : String
  key : Key
  mode : Option UInt32
  socketDevice : Option UInt64

instance : Wire FileDescriptorInfo := wireStruct (fun v => (v.fd, v.kind, v.inode, v.target,
  v.access, v.protocol, v.state, v.connectionStatus, v.localAddr, v.remoteAddr, v.path,
  v.peerInode, v.peers, v.holders, v.note, v.key, v.mode, v.socketDevice))
  fun (fd, kind, inode, target, access, protocol, state, connectionStatus, localAddr, remoteAddr,
    path, peerInode, peers, holders, note, key, mode, socketDevice) => ⟨fd, kind, inode, target,
    access, protocol, state, connectionStatus, localAddr, remoteAddr, path, peerInode, peers,
    holders, note, key, mode, socketDevice⟩

instance : LawfulWire FileDescriptorInfo := ⟨wireLaws_wireStruct⟩

/-- The file descriptors of a process. -/
structure FileDescriptors where
  processId : ProcessId
  capturedAt : UInt64
  entries : List FileDescriptorInfo
  warnings : List String
  rawFdOwners : List (Key × List Owner)
  rawPeerKeys : List (UInt32 × List Key)

instance : Wire FileDescriptors := wireStruct (fun v => (v.processId, v.capturedAt, v.entries,
  v.warnings, v.rawFdOwners, v.rawPeerKeys))
  fun (processId, capturedAt, entries, warnings, rawFdOwners, rawPeerKeys) => ⟨processId,
    capturedAt, entries, warnings, rawFdOwners, rawPeerKeys⟩

instance : LawfulWire FileDescriptors := ⟨wireLaws_wireStruct⟩

end Procinsh.Ipc
