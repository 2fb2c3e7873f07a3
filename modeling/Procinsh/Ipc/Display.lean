import Procinsh.Ipc.Sockets

/-!
# Texts of sockets

The `Display` texts of addresses, as the standard library writes them, and of the socket attributes
(`src/ipc/model/socket_types.rs`), from which the labels of relations are made.
-/

namespace Procinsh.Ipc

/-! ## Numbers -/

/-- A hexadecimal number. -/
def hexText (n : ℕ) : String := String.ofList (Nat.toDigits 16 n)

/-- A hexadecimal number with capital letters and at least two digits. -/
def paddedHexText (n : ℕ) : String :=
  let digits := (Nat.toDigits 16 n).map Char.toUpper
  String.ofList (List.replicate (2 - digits.length) '0' ++ digits)

/-! ## Addresses -/

/-- The eight groups of an IPv6 address. -/
def segments (octets : List.Vector UInt8 16) : List ℕ :=
  List.ofFn fun i : Fin 8 =>
    (octets.get ⟨2 * i, by omega⟩).toNat * 256 + (octets.get ⟨2 * i + 1, by omega⟩).toNat

/-- The start and the length of the longest run of zero groups; the first of equally long ones. -/
def longestZeroes (groups : List ℕ) : ℕ × ℕ :=
  (groups.zipIdx.foldl (fun (longest, current) (group, i) =>
    if group = 0 then
      let current : ℕ × ℕ := if current.2 = 0 then (i, 1) else (current.1, current.2 + 1)
      (if longest.2 < current.2 then current else longest, current)
    else (longest, (0, 0))) (((0, 0), (0, 0)) : (ℕ × ℕ) × (ℕ × ℕ))).1

def groupsText (groups : List ℕ) : String := ":".intercalate (groups.map hexText)

def ipv4Text (octets : List UInt8) : String := ".".intercalate (octets.map fun o => toString o.toNat)

def IpAddr.display : IpAddr → String
  | v4 octets => ipv4Text octets.toList
  | v6 octets =>
    -- an IPv4 address mapped to IPv6
    if octets.toList.take 12 = List.replicate 10 0 ++ [255, 255] then
      "::ffff:" ++ ipv4Text (octets.toList.drop 12)
    else
      let groups := segments octets
      let (start, length) := longestZeroes groups
      if 1 < length then
        groupsText (groups.take start) ++ "::" ++ groupsText (groups.drop (start + length))
      else groupsText groups

example : (IpAddr.v6 ⟨[254, 128, 0, 0, 0, 0, 0, 0, 0, 0, 0, 1, 10, 0, 0, 1], rfl⟩).display =
    "fe80::1:a00:1" := by decide +kernel

def SocketAddr.display : SocketAddr → String
  | v4 ip port => (IpAddr.v4 ip).display ++ ":" ++ toString port.toNat
  | v6 ip port _ scopeId =>
    let scope := if scopeId = 0 then "" else "%" ++ toString scopeId.toNat
    "[" ++ (IpAddr.v6 ip).display ++ scope ++ "]:" ++ toString port.toNat

/-! ## Attributes -/

def SocketType.display : SocketType → String
  | stream => "STREAM"
  | dgram => "DGRAM"
  | raw => "RAW"
  | rdm => "RDM"
  | seqpacket => "SEQPACKET"
  | dccp => "DCCP"
  | packet => "PACKET"
  | unknown code => "TYPE " ++ toString code.toNat

/-- The name of a Netlink protocol. -/
def netlinkName (protocol : UInt32) : Option String :=
  match protocol.toNat with
  | 0 => "ROUTE"
  | 1 => "UNUSED"
  | 2 => "USERSOCK"
  | 3 => "FIREWALL"
  | 4 => "SOCK_DIAG"
  | 5 => "NFLOG"
  | 6 => "XFRM"
  | 7 => "SELINUX"
  | 8 => "ISCSI"
  | 9 => "AUDIT"
  | 10 => "FIB_LOOKUP"
  | 11 => "CONNECTOR"
  | 12 => "NETFILTER"
  | 13 => "IP6_FW"
  | 14 => "DNRTMSG"
  | 15 => "KOBJECT_UEVENT"
  | 16 => "GENERIC"
  | 18 => "SCSITRANSPORT"
  | 19 => "ECRYPTFS"
  | 20 => "RDMA"
  | 21 => "CRYPTO"
  | 22 => "SMC"
  | _ => none

def protocolText (protocol : UInt32) : String := "PROTOCOL " ++ toString protocol.toNat

/-- The name of a domain. -/
def familyText (family : UInt32) : String :=
  match family.toNat with
  | 2 => "INET"
  | 10 => "INET6"
  | 17 => "PACKET"
  | 40 => "VSOCK"
  | 31 => "BLUETOOTH"
  | 29 => "CAN"
  | 38 => "ALG"
  | 44 => "XDP"
  | n => "AF " ++ toString n

/-- The name of a protocol of raw sockets. -/
def rawProtocolText (protocol : UInt32) : String :=
  match protocol.toNat with
  | 1 => "ICMP"
  | 2 => "IGMP"
  | 6 => "TCP"
  | 17 => "UDP"
  | 58 => "ICMPV6"
  | _ => protocolText protocol

def SocketProtocol.display : SocketProtocol → String
  | tcp family => if family = .ipv6 then "TCP6" else "TCP"
  | udp family => if family = .ipv6 then "UDP6" else "UDP"
  | unix socketType => "UNIX " ++ socketType.display
  | other family socketType protocol =>
    if family = 16 then
      "NETLINK " ++ (netlinkName protocol).getD (protocolText protocol) ++
        match socketType with
        | some (.unknown code) => " TYPE " ++ toString code.toNat
        | _ => ""
    else if (family = 2 ∨ family = 10) ∧ socketType = some .raw then
      "RAW" ++ (if family = 10 then "6" else "") ++ " " ++ rawProtocolText protocol
    else
      familyText family ++ (socketType.map fun t => " " ++ t.display).getD "" ++
        if ¬(family = 17 ∨ family = 40) ∨ protocol ≠ 0 then " " ++ protocolText protocol else ""

def SocketState.display : SocketState → String
  | established => "ESTABLISHED"
  | synSent => "SYN_SENT"
  | synRecv => "SYN_RECV"
  | finWait1 => "FIN_WAIT1"
  | finWait2 => "FIN_WAIT2"
  | timeWait => "TIME_WAIT"
  | close => "CLOSE"
  | closeWait => "CLOSE_WAIT"
  | lastAck => "LAST_ACK"
  | listen => "LISTEN"
  | closing => "CLOSING"
  | newSynRecv => "NEW_SYN_RECV"
  | unconnected => "UNCONNECTED"
  | connecting => "CONNECTING"
  | connected => "CONNECTED"
  | disconnecting => "DISCONNECTING"
  | unknownInet n | unknownUnix n => paddedHexText n.toNat

def FdKind.display : FdKind → String
  | pipe => "pipe"
  | socket => "socket"
  | fifo => "fifo"

/-! ## Surrounding space -/

/-- A character with the Unicode property `White_Space`. -/
def isWhitespace (c : Char) : Bool :=
  let n := c.toNat
  (9 ≤ n && n ≤ 13) || n = 0x20 || n = 0x85 || n = 0xA0 || n = 0x1680 ||
    (0x2000 ≤ n && n ≤ 0x200A) || n = 0x2028 || n = 0x2029 || n = 0x202F || n = 0x205F || n = 0x3000

/-- A text without the space around it. -/
def trim (s : String) : String :=
  String.ofList (((s.toList.dropWhile isWhitespace).reverse.dropWhile isWhitespace).reverse)

end Procinsh.Ipc
