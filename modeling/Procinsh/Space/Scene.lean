import Procinsh.Space.Qualify

/-!
# The records of a scene

The layout of the processes and the ports of their connections look at more of the relations of a
snapshot than putting hosts together does: at the resource behind a descriptor and at the protocol of
a socket (`web/src/shared/api-types.ts`).
-/

namespace Procinsh.Space.Scene

inductive IpcKind
  | pipe
  | socket
  deriving DecidableEq

structure IpcIdentity where
  kind : IpcKind
  major : ℤ
  minor : ℤ
  inode : String
  deriving DecidableEq

structure FdEndpoint where
  processId : ProcessId
  fd : ℤ
  resource : IpcIdentity
  deriving DecidableEq

inductive SocketProtocol
  | tcp
  | udp
  | unix
  | other (family protocol : ℤ)
  deriving DecidableEq

structure SocketEndpoint where
  protocol : SocketProtocol
  deriving DecidableEq

structure FdRelation where
  id : String
  endpoint : FdEndpoint
  peer : Option FdEndpoint
  socket : Option SocketEndpoint
  candidate : Bool
  shared : Bool
  deriving DecidableEq

end Procinsh.Space.Scene
