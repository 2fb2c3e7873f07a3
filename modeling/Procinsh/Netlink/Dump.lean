import Procinsh.Foundation.LittleEndian

/-!
# Netlink dumps

`receive_replies` (`src/privileged_helper/netlink.rs`) reads the answer to a dump request from a
netlink socket: datagrams of messages, each message with a header, a body and padding to four bytes,
until a message says that the dump is done.  The messages are not trusted, so every access to a
datagram is checked; an access outside would be a panic.  Numbers are read in the byte order of the
machine, which is little-endian.
-/

namespace Procinsh.Netlink

/-- `HEADER` -/
def headerLength : ℕ := 16

/-- `NLMSG_ERROR` -/
def nlmsgError : UInt16 := 2

/-- `NLMSG_DONE` -/
def nlmsgDone : UInt16 := 3

/-- `NLM_F_DUMP_INTR` -/
def dumpInterrupted : UInt16 := 0x10

/-- `REPLY_LIMIT` -/
def replyLimit : ℕ := 8 * 1024 * 1024

/-- The size of the buffer that a datagram is received in. -/
def bufferLength : ℕ := 65536

/-- How receiving fails: by a panic, with a message, with an error of a system call, or with an error
that the kernel has sent and what it is about. -/
inductive NetlinkError
  | panic
  | message (text : String)
  | os (errno : Int32)
  | kernel (errno : Int32) (context : String)
  deriving DecidableEq

/-- A dump request, as far as its answer is concerned. -/
structure NetlinkDumpRequest where
  label : String
  /-- The only data message type accepted in the reply. -/
  replyType : UInt16
  sequence : UInt32
  deriving DecidableEq

/-! ## Reading bytes -/

/-- `kernel_error`: the positive number of a negative one, saturating. -/
def kernelErrno (code : Int32) : Int32 := if code = Int32.minValue then Int32.maxValue else -code

/-- `bytes[start..stop]` -/
def slice (bytes : List UInt8) (start stop : ℕ) : Except NetlinkError (List UInt8) :=
  if start ≤ stop ∧ stop ≤ bytes.length then .ok ((bytes.drop start).take (stop - start))
  else .error .panic

/-- `u32_at` -/
def u32At (bytes : List UInt8) (offset : ℕ) : Except NetlinkError UInt32 :=
  if offset + 4 ≤ bytes.length then .ok (.ofNat (leValue ((bytes.drop offset).take 4)))
  else .error (.message "short netlink field")

/-- `u16::from_ne_bytes(bytes[offset..offset + 2])` -/
def u16At (bytes : List UInt8) (offset : ℕ) : Except NetlinkError UInt16 := do
  return .ofNat (leValue (← slice bytes offset (offset + 2)))

/-- A length with the padding to four bytes. -/
def align (length : ℕ) : ℕ := (length + 3) / 4 * 4

/-! ## Receiving -/

/-- What has been received, and whether the dump is done. -/
structure Received where
  replies : List (List UInt8)
  done : Bool
  deriving DecidableEq

/-- What is done with a message of a kind. -/
def receiveBody (request : NetlinkDumpRequest) (kind : UInt16) (body : List UInt8)
    (replies : List (List UInt8)) : Except NetlinkError Received :=
  if kind = nlmsgDone then
    if 4 ≤ body.length then do
      let code ← u32At body 0
      if code ≠ 0 then
        .error (.kernel (kernelErrno code.toInt32) (request.label ++ " dump failed"))
      else .ok ⟨replies, true⟩
    else .ok ⟨replies, true⟩
  else if kind = nlmsgError then do
    let code ← u32At body 0
    if code ≠ 0 then .error (.kernel (kernelErrno code.toInt32) request.label)
    else .ok ⟨replies, false⟩
  else if kind = request.replyType then .ok ⟨replies ++ [body], false⟩
  else .error (.message ("unexpected netlink message " ++ toString kind.toNat))

/-- Receives the message at an offset: what has been received with it, and the next offset. -/
def receiveMessage (request : NetlinkDumpRequest) (bytes : List UInt8) (offset : ℕ)
    (replies : List (List UInt8)) : Except NetlinkError (Received × ℕ) :=
  if bytes.length < offset + headerLength then .error (.message "short netlink header")
  else do
    let length ← u32At bytes offset
    if length.toNat < headerLength ∨ bytes.length - offset < length.toNat then
      .error (.message "invalid netlink length")
    else do
      let kind ← u16At bytes (offset + 4)
      let flags ← u16At bytes (offset + 6)
      let sequence ← u32At bytes (offset + 8)
      if sequence ≠ request.sequence ∨ flags &&& dumpInterrupted ≠ 0 then
        .error (.message (request.label ++ " dump interrupted"))
      else do
        let body ← slice bytes (offset + headerLength) (offset + length.toNat)
        let received ← receiveBody request kind body replies
        return (received, offset + align length.toNat)

/-- Receives the messages of a datagram from an offset on.  Every message takes a header at least, so
a number of rounds that covers the rest of the datagram is enough. -/
def receiveMessages (request : NetlinkDumpRequest) (bytes : List UInt8) :
    (rounds : ℕ) → ℕ → List (List UInt8) → Except NetlinkError Received
  | 0, _, replies => .ok ⟨replies, false⟩
  | rounds + 1, offset, replies =>
    if offset < bytes.length then do
      let (received, next) ← receiveMessage request bytes offset replies
      if received.done then .ok received
      else receiveMessages request bytes rounds next received.replies
    else .ok ⟨replies, false⟩

/-- What the socket yields at a time: nothing yet, an error, or a datagram of a sender. -/
inductive Reception
  | idle
  | failed (errno : Int32)
  | datagram (bytes : List UInt8) (sender : UInt32)
  deriving DecidableEq

/-- Receives until the dump is done or fails; the deadline is behind what the socket yields. -/
def receiveLoop (request : NetlinkDumpRequest) :
    List Reception → ℕ → List (List UInt8) → Except NetlinkError (List (List UInt8))
  | [], _, _ => .error (.message (request.label ++ " timed out"))
  | .idle :: rest, total, replies => receiveLoop request rest total replies
  | .failed errno :: _, _, _ => .error (.os errno)
  | .datagram bytes sender :: rest, total, replies =>
    if bytes.length = 0 ∨ bufferLength < bytes.length then
      .error (.message ("truncated " ++ request.label ++ " packet"))
    else if sender ≠ 0 then .error (.message (request.label ++ " sender is not kernel"))
    else if replyLimit < total + bytes.length then
      .error (.message (request.label ++ " exceeds 8 MiB limit"))
    else do
      let received ← receiveMessages request bytes bytes.length 0 replies
      if received.done then .ok received.replies
      else receiveLoop request rest (total + bytes.length) received.replies

/-- `receive_replies` -/
def receiveReplies (request : NetlinkDumpRequest) (receptions : List Reception) :
    Except NetlinkError (List (List UInt8)) :=
  receiveLoop request receptions 0 []

/-! ## Messages -/

/-- A message: its header, its body and the padding behind it. -/
structure Message where
  kind : UInt16
  flags : UInt16
  sequence : UInt32
  /-- The port of the sender, which is not looked at. -/
  port : UInt32
  body : List UInt8
  padding : List UInt8
  /-- The length fits into the header. -/
  fits : headerLength + body.length < 2 ^ 32
  /-- The message ends at a multiple of four bytes. -/
  aligned : headerLength + body.length + padding.length = align (headerLength + body.length)

namespace Message

/-- The bytes of a message without the padding. -/
def unpadded (m : Message) : List UInt8 :=
  leBytes 4 (headerLength + m.body.length) ++ (leBytes 2 m.kind.toNat ++ (leBytes 2 m.flags.toNat ++
    (leBytes 4 m.sequence.toNat ++ (leBytes 4 m.port.toNat ++ m.body))))

/-- The bytes of a message. -/
def encode (m : Message) : List UInt8 := m.unpadded ++ m.padding

/-- A message of the answer to a request, of a dump that was not interrupted. -/
def Answers (m : Message) (request : NetlinkDumpRequest) : Prop :=
  m.sequence = request.sequence ∧ m.flags &&& dumpInterrupted = 0

instance (m : Message) (request : NetlinkDumpRequest) : Decidable (m.Answers request) :=
  inferInstanceAs (Decidable (_ ∧ _))

/-- The code of an error or of the end of a dump, if it has one. -/
def code? (m : Message) : Option UInt32 :=
  if 4 ≤ m.body.length then some (.ofNat (leValue (m.body.take 4))) else none

/-- A data message of a dump. -/
def IsReply (m : Message) (request : NetlinkDumpRequest) : Prop :=
  m.kind = request.replyType ∧ m.kind ≠ nlmsgDone ∧ m.kind ≠ nlmsgError

instance (m : Message) (request : NetlinkDumpRequest) : Decidable (m.IsReply request) :=
  inferInstanceAs (Decidable (_ ∧ _ ∧ _))

/-- An acknowledgement: an error without an error. -/
def IsAck (m : Message) : Prop := m.kind = nlmsgError ∧ m.code? = some 0

/-- The end of a dump that has not failed. -/
def IsDone (m : Message) : Prop := m.kind = nlmsgDone ∧ m.code?.getD 0 = 0

end Message

end Procinsh.Netlink
