import Procinsh.Ipc.Sockets
import Procinsh.Netlink.Attributes
import Procinsh.Privacy.Scan

/-!
# UNIX diag messages

`parse_unix_diag_message` (`src/privileged_helper/process/sockets.rs`) reads what the kernel reports
about a UNIX socket: a fixed part and attributes, of which the name and the peer are kept.  The bytes
are not trusted; no access leaves them.
-/

namespace Procinsh.Netlink

open Ipc (SocketInfo SocketProtocol SocketState SocketType)
open Privacy (fromUtf8Lossy)

/-- `SocketType::from_code` -/
def socketTypeFromCode (code : UInt32) : SocketType :=
  if code = 1 then .stream
  else if code = 2 then .dgram
  else if code = 3 then .raw
  else if code = 4 then .rdm
  else if code = 5 then .seqpacket
  else if code = 6 then .dccp
  else if code = 10 then .packet
  else .unknown code

/-- `SocketState::unix_diag` -/
def unixDiagState (code : UInt32) : SocketState :=
  if code = 1 then .connected
  else if code = 10 then .listen
  else if code = 7 then .unconnected
  else .unknownUnix code

/-- `bytes[i]` -/
def byteAt (bytes : List UInt8) (i : ℕ) : Except NetlinkError UInt8 :=
  match bytes[i]? with
  | some byte => .ok byte
  | none => .error .panic

/-- The name of a socket; an abstract name starts with a null byte, and others may end with one. -/
def socketPath (data : List UInt8) : Option String :=
  match data with
  | [] => none
  | 0 :: name =>
    some ("@" ++ String.ofList ((fromUtf8Lossy name).toList.flatMap fun c =>
      if c = '\x00' then ['\\', '0'] else [c]))
  | data => some (fromUtf8Lossy (if data.getLast? = some 0 then data.dropLast else data))

/-- What an attribute says about a socket. -/
def addAttribute (info : SocketInfo) (parsed : UInt16 × List UInt8) :
    Except NetlinkError SocketInfo :=
  if parsed.1 = 2 then do
    let inode ← u32At parsed.2 0
    return { info with peerInode := if inode ≠ 0 then some inode.toUInt64 else none }
  else if parsed.1 = 0 then return { info with path := (socketPath parsed.2).or info.path }
  else return info

/-- `parse_unix_diag_message` -/
def parseUnixDiagMessage (bytes : List UInt8) : Except NetlinkError (UInt64 × SocketInfo) :=
  if bytes.length < 16 ∨ bytes[0]? ≠ some 1 then
    .error (.message "invalid UNIX diag message")
  else do
    let socketType ← byteAt bytes 1
    let state ← byteAt bytes 2
    let info : SocketInfo :=
      { protocol := .unix (socketTypeFromCode socketType.toUInt32)
        state := some (unixDiagState state.toUInt32)
        localAddr := none
        remoteAddr := none
        path := none
        peerInode := none }
    let attributes ← parseNetlinkAttributes (bytes.drop 16)
    let info ← attributes.foldlM addAttribute info
    let inode ← u32At bytes 4
    return (inode.toUInt64, info)

theorem safe_byteAt {bytes : List UInt8} {i : ℕ} (h : i < bytes.length) :
    Safe (byteAt bytes i) fun _ => True := by
  rw [byteAt, List.getElem?_eq_getElem h]
  exact .ok trivial

theorem safe_addAttribute (info : SocketInfo) (parsed : UInt16 × List UInt8) :
    Safe (addAttribute info parsed) fun _ => True := by
  rw [addAttribute]
  refine Yields.ite (fun _ => ?_) fun _ => Yields.ite (fun _ => .pure trivial) fun _ => .pure trivial
  exact Yields.bind (safe_u32At parsed.2 0) fun _ _ => .pure trivial

/-- No access leaves a message, whatever its bytes are. -/
theorem safe_parseUnixDiagMessage (bytes : List UInt8) :
    Safe (parseUnixDiagMessage bytes) fun _ => True := by
  rw [parseUnixDiagMessage]
  refine Yields.ite (fun _ => .error (by simp)) fun hlong => ?_
  rw [not_or, not_lt] at hlong
  refine Yields.bind (safe_byteAt (by omega)) fun socketType _ => ?_
  refine Yields.bind (safe_byteAt (by omega)) fun state _ => ?_
  refine Yields.bind (safe_parseNetlinkAttributes _) fun attributes _ => ?_
  refine Yields.bind (Yields.foldlM (fun _ _ => True) attributes trivial
    fun _ parsed _ info _ _ => safe_addAttribute info parsed) fun info _ => ?_
  exact Yields.bind (safe_u32At bytes 4) fun _ _ => .pure trivial

end Procinsh.Netlink
