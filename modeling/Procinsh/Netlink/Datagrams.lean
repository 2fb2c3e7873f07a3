import Procinsh.Foundation.Checked
import Procinsh.Netlink.Dump

/-!
# Messages of netlink datagrams

What is received of one datagram.  A message is received at an offset exactly if its bytes are there,
and the loop over a datagram accepts it exactly if it consists of messages that belong to the answer
and are replies or acknowledgements, up to the end of the dump or of the datagram.  No access leaves
the datagram, and every message advances by a header at least.
-/

namespace Procinsh.Netlink

variable {request : NetlinkDumpRequest} {bytes rest : List UInt8} {offset : ℕ}
  {replies : List (List UInt8)}

/-! ## The bytes of a message -/

namespace Message

variable (m : Message)

theorem length_unpadded : m.unpadded.length = headerLength + m.body.length := by
  simp only [unpadded, List.length_append, length_leBytes, headerLength]
  omega

theorem length_encode : m.encode.length = align (headerLength + m.body.length) := by
  rw [encode, List.length_append, length_unpadded, m.aligned]

theorem headerLength_le_length_encode : headerLength ≤ m.encode.length := by
  rw [encode, List.length_append, length_unpadded]
  omega

end Message

theorem le_align (length : ℕ) : length ≤ align length := by
  unfold align
  omega

theorem align_lt (length : ℕ) : align length < length + 4 := by
  unfold align
  omega

/-! ## Reading the rest of a datagram -/

theorem u32At_drop (h : offset ≤ bytes.length) (i : ℕ) :
    u32At bytes (offset + i) = u32At (bytes.drop offset) i := by
  have hiff : offset + i + 4 ≤ bytes.length ↔ i + 4 ≤ (bytes.drop offset).length := by
    rw [List.length_drop]
    omega
  rw [u32At, u32At, List.drop_drop]
  simp only [hiff]

theorem slice_drop (h : offset ≤ bytes.length) (i j : ℕ) :
    slice bytes (offset + i) (offset + j) = slice (bytes.drop offset) i j := by
  have hiff : (offset + i ≤ offset + j ∧ offset + j ≤ bytes.length) ↔
      (i ≤ j ∧ j ≤ (bytes.drop offset).length) := by
    rw [List.length_drop]
    omega
  rw [slice, slice, List.drop_drop, Nat.add_sub_add_left]
  simp only [hiff]

theorem u16At_drop (h : offset ≤ bytes.length) (i : ℕ) :
    u16At bytes (offset + i) = u16At (bytes.drop offset) i := by
  rw [u16At, u16At, Nat.add_assoc, slice_drop h]

theorem u32At_append (xs : List UInt8) {v : ℕ} (hv : v < 2 ^ 32) (zs : List UInt8) :
    u32At (xs ++ (leBytes 4 v ++ zs)) xs.length = .ok (.ofNat v) := by
  have hlength : xs.length + 4 ≤ (xs ++ (leBytes 4 v ++ zs)).length := by
    rw [List.length_append, List.length_append, length_leBytes]
    omega
  have htake : (leBytes 4 v ++ zs).take 4 = leBytes 4 v := List.take_left' (length_leBytes 4 v)
  rw [u32At, if_pos hlength, List.drop_left, htake, leValue_leBytes_of_lt hv]

theorem slice_append (xs ys zs : List UInt8) :
    slice (xs ++ (ys ++ zs)) xs.length (xs.length + ys.length) = .ok ys := by
  have hlength : xs.length + ys.length ≤ (xs ++ (ys ++ zs)).length := by
    rw [List.length_append, List.length_append]
    omega
  rw [slice, if_pos ⟨Nat.le_add_right _ _, hlength⟩, Nat.add_sub_cancel_left, List.drop_left,
    List.take_left]

theorem u16At_append (xs : List UInt8) (v : UInt16) (zs : List UInt8) :
    u16At (xs ++ (leBytes 2 v.toNat ++ zs)) xs.length = .ok v := by
  have hslice : slice (xs ++ (leBytes 2 v.toNat ++ zs)) xs.length (xs.length + 2) =
      .ok (leBytes 2 v.toNat) := slice_append xs (leBytes 2 v.toNat) zs
  have hvalue : leValue (leBytes 2 v.toNat) = v.toNat := leValue_leBytes_of_lt v.toNat_lt
  rw [u16At, hslice]
  exact congrArg Except.ok ((congrArg UInt16.ofNat hvalue).trans (UInt16.ofNat_toNat))

/-- A message is received by its fields: the rest of the datagram is not looked at. -/
theorem receiveMessage_of_drop {m : Message} (h : bytes.drop offset = m.unpadded ++ rest) :
    receiveMessage request bytes offset replies =
      if m.Answers request then
        (receiveBody request m.kind m.body replies).map fun received =>
          (received, offset + m.encode.length)
      else .error (.message (request.label ++ " dump interrupted")) := by
  have hlength : bytes.length - offset = headerLength + m.body.length + rest.length := by
    rw [← List.length_drop, h, List.length_append, m.length_unpadded]
  have hoffset : offset ≤ bytes.length := by
    unfold headerLength at hlength
    omega
  have hsize : u32At bytes offset = .ok (.ofNat (headerLength + m.body.length)) := by
    rw [← Nat.add_zero offset, u32At_drop hoffset, h]
    exact u32At_append [] m.fits _
  have hkind : u16At bytes (offset + 4) = .ok m.kind := by
    rw [u16At_drop hoffset, h]
    exact u16At_append (leBytes 4 (headerLength + m.body.length)) m.kind _
  have hflags : u16At bytes (offset + 6) = .ok m.flags := by
    rw [u16At_drop hoffset, h]
    exact u16At_append (leBytes 4 (headerLength + m.body.length) ++ leBytes 2 m.kind.toNat) m.flags _
  have hsequence : u32At bytes (offset + 8) = .ok m.sequence := by
    have hfield := u32At_append (leBytes 4 (headerLength + m.body.length) ++
      (leBytes 2 m.kind.toNat ++ leBytes 2 m.flags.toNat)) m.sequence.toNat_lt
      (leBytes 4 m.port.toNat ++ m.body ++ rest)
    rw [UInt32.ofNat_toNat] at hfield
    rw [u32At_drop hoffset, h]
    exact hfield
  have hbody : slice bytes (offset + headerLength) (offset + (headerLength + m.body.length)) =
      .ok m.body := by
    rw [slice_drop hoffset, h]
    exact slice_append (leBytes 4 (headerLength + m.body.length) ++ (leBytes 2 m.kind.toNat ++
      (leBytes 2 m.flags.toNat ++ (leBytes 4 m.sequence.toNat ++ leBytes 4 m.port.toNat)))) m.body
      rest
  have htoNat : (UInt32.ofNat (headerLength + m.body.length)).toNat =
      headerLength + m.body.length := UInt32.toNat_ofNat_of_lt' m.fits
  have hlong : ¬bytes.length < offset + headerLength := by
    omega
  have hvalid : ¬(headerLength + m.body.length < headerLength ∨
      bytes.length - offset < headerLength + m.body.length) := by
    omega
  have hanswers : (m.sequence ≠ request.sequence ∨ m.flags &&& dumpInterrupted ≠ 0) ↔
      ¬m.Answers request := by
    rw [Message.Answers, not_and_or]
  rw [receiveMessage, if_neg hlong, hsize]
  simp only [bind, Except.bind, htoNat, if_neg hvalid, hkind, hflags, hsequence, hbody, hanswers,
    m.length_encode]
  by_cases hm : m.Answers request
  · rw [if_neg (not_not_intro hm), if_pos hm]
    cases receiveBody request m.kind m.body replies with
    | error e => rfl
    | ok received => rfl
  · rw [if_pos hm, if_neg hm]

/-! ## Bytes that are a message -/

/-- Bytes with a valid length are a message, with whatever padding. -/
theorem exists_message {l padding : List UInt8} (hl : headerLength ≤ l.length)
    (hlow : headerLength ≤ leValue (l.take 4)) (hhigh : leValue (l.take 4) ≤ l.length)
    (hpadding : leValue (l.take 4) + padding.length = align (leValue (l.take 4))) :
    ∃ m : Message, m.padding = padding ∧ m.unpadded = l.take (leValue (l.take 4)) := by
  unfold headerLength at hl hlow
  have hfield : ∀ a b, a + b ≤ 16 → leBytes b (leValue ((l.drop a).take b)) = (l.drop a).take b := by
    intro a b hab
    have hbytes := leBytes_leValue ((l.drop a).take b)
    rwa [List.length_take, List.length_drop, min_eq_left (by omega)] at hbytes
  have hlt : ∀ a b, leValue ((l.drop a).take b) < 256 ^ b := fun a b => leValue_take_lt _ b
  have hbody : ((l.drop 16).take (leValue (l.take 4) - 16)).length = leValue (l.take 4) - 16 := by
    rw [List.length_take, List.length_drop]
    omega
  have hlength : headerLength + ((l.drop 16).take (leValue (l.take 4) - 16)).length =
      leValue (l.take 4) := by
    rw [hbody, headerLength]
    omega
  refine ⟨⟨.ofNat (leValue ((l.drop 4).take 2)), .ofNat (leValue ((l.drop 6).take 2)),
    .ofNat (leValue ((l.drop 8).take 4)), .ofNat (leValue ((l.drop 12).take 4)),
    (l.drop 16).take (leValue (l.take 4) - 16), padding, ?_, ?_⟩, rfl, ?_⟩
  · rw [hlength]
    exact hlt 0 4
  · rw [hlength, hpadding]
  · rw [Message.unpadded]
    dsimp only
    rw [hlength, UInt16.toNat_ofNat_of_lt' (hlt 4 2), UInt16.toNat_ofNat_of_lt' (hlt 6 2),
      UInt32.toNat_ofNat_of_lt' (hlt 8 4), UInt32.toNat_ofNat_of_lt' (hlt 12 4), hfield 4 2 (by omega),
      hfield 6 2 (by omega), hfield 8 4 (by omega), hfield 12 4 (by omega)]
    have hsize : leBytes 4 (leValue (l.take 4)) = l.take 4 := hfield 0 4 (by omega)
    have hsplit : leValue (l.take 4) = 4 + (2 + (2 + (4 + (4 + (leValue (l.take 4) - 16))))) := by
      omega
    rw [hsize]
    conv_rhs => rw [hsplit]
    simp only [List.take_add, List.drop_drop]

/-- A message that is received is one of the answer, at the offset; its padding is behind it as far as
the datagram goes. -/
theorem exists_message_of_receiveMessage {received : Received} {next : ℕ}
    (h : receiveMessage request bytes offset replies = .ok (received, next)) :
    ∃ m : Message, ∃ behind, bytes.drop offset = m.unpadded ++ behind ∧
      ((∃ rest, behind = m.padding ++ rest) ∨ ∃ omitted, behind ++ omitted = m.padding) ∧
      m.Answers request ∧ receiveBody request m.kind m.body replies = .ok received ∧
      next = offset + m.encode.length := by
  by_cases hlong : bytes.length < offset + headerLength
  · rw [receiveMessage, if_pos hlong] at h
    cases h
  rw [not_lt] at hlong
  have hoffset : offset ≤ bytes.length := (Nat.le_add_right _ _).trans hlong
  have hrest : headerLength ≤ (bytes.drop offset).length := by
    rw [List.length_drop]
    omega
  have hsize : u32At bytes offset = .ok (.ofNat (leValue ((bytes.drop offset).take 4))) := by
    rw [u32At, if_pos]
    unfold headerLength at hlong
    omega
  have hlt : leValue ((bytes.drop offset).take 4) < 2 ^ 32 := leValue_take_lt _ 4
  by_cases hvalid : leValue ((bytes.drop offset).take 4) < headerLength ∨
      bytes.length - offset < leValue ((bytes.drop offset).take 4)
  · rw [receiveMessage, if_neg hlong.not_gt, hsize] at h
    simp only [bind, Except.bind, UInt32.toNat_ofNat_of_lt' hlt, if_pos hvalid] at h
    cases h
  rw [not_or, not_lt, not_lt, ← List.length_drop] at hvalid
  obtain ⟨hlow, hhigh⟩ := hvalid
  have hfinish : ∀ padding : List UInt8,
      leValue ((bytes.drop offset).take 4) + padding.length =
        align (leValue ((bytes.drop offset).take 4)) →
      ((∃ rest, (bytes.drop offset).drop (leValue ((bytes.drop offset).take 4)) = padding ++ rest) ∨
        ∃ omitted, (bytes.drop offset).drop (leValue ((bytes.drop offset).take 4)) ++ omitted =
          padding) →
      ∃ m : Message, ∃ behind, bytes.drop offset = m.unpadded ++ behind ∧
        ((∃ rest, behind = m.padding ++ rest) ∨ ∃ omitted, behind ++ omitted = m.padding) ∧
        m.Answers request ∧ receiveBody request m.kind m.body replies = .ok received ∧
        next = offset + m.encode.length := by
    intro padding hpadding hbehind
    obtain ⟨m, rfl, hm⟩ := exists_message hrest hlow hhigh hpadding
    have hdrop : bytes.drop offset =
        m.unpadded ++ (bytes.drop offset).drop (leValue ((bytes.drop offset).take 4)) := by
      rw [hm, List.take_append_drop]
    rw [receiveMessage_of_drop hdrop] at h
    split at h
    · next hanswers =>
      cases hreceived : receiveBody request m.kind m.body replies with
      | error e =>
        rw [hreceived] at h
        cases h
      | ok r =>
        rw [hreceived] at h
        cases h
        exact ⟨m, _, hdrop, hbehind, hanswers, hreceived, rfl⟩
    · cases h
  generalize hn : leValue ((bytes.drop offset).take 4) = n at hfinish hlow hhigh
  generalize htail : (bytes.drop offset).drop n = tail at hfinish
  have halign := le_align n
  by_cases hfull : align n - n ≤ tail.length
  · refine hfinish (tail.take (align n - n)) ?_ (.inl ⟨tail.drop (align n - n), ?_⟩)
    · rw [List.length_take]
      omega
    · rw [List.take_append_drop]
  · refine hfinish (tail ++ List.replicate (align n - n - tail.length) 0) ?_ (.inr ⟨_, rfl⟩)
    rw [List.length_append, List.length_replicate]
    omega

/-! ## Messages of a datagram -/

theorem u32At_body (m : Message) : u32At m.body 0 =
    match m.code? with
    | some code => .ok code
    | none => .error (.message "short netlink field") := by
  rw [u32At, Message.code?, Nat.zero_add, List.drop_zero]
  split
  · rfl
  · rfl

theorem receiveBody_done {m : Message} (h : m.kind = nlmsgDone) :
    receiveBody request m.kind m.body replies =
      if m.code?.getD 0 = 0 then .ok ⟨replies, true⟩
      else .error (.kernel (kernelErrno (m.code?.getD 0).toInt32)
        (request.label ++ " dump failed")) := by
  rw [receiveBody, if_pos h, u32At_body, Message.code?]
  by_cases hlength : 4 ≤ m.body.length
  · simp only [if_pos hlength, bind, Except.bind, Option.getD_some, ne_eq, ite_not]
  · rw [if_neg hlength, if_neg hlength]
    rfl

theorem receiveBody_error {m : Message} (h : m.kind = nlmsgError) :
    receiveBody request m.kind m.body replies =
      match m.code? with
      | some code =>
        if code = 0 then .ok ⟨replies, false⟩
        else .error (.kernel (kernelErrno code.toInt32) request.label)
      | none => .error (.message "short netlink field") := by
  have hdone : m.kind ≠ nlmsgDone := by
    rw [h]
    decide
  rw [receiveBody, if_neg hdone, if_pos h, u32At_body]
  cases m.code? with
  | none => rfl
  | some code => simp only [bind, Except.bind, ne_eq, ite_not]

/-- A message that is received ends the dump, or acknowledges, or is a reply whose body is kept. -/
theorem receiveBody_eq_ok_iff {m : Message} {received : Received} :
    receiveBody request m.kind m.body replies = .ok received ↔
      (m.IsDone ∧ received = ⟨replies, true⟩) ∨ (m.IsAck ∧ received = ⟨replies, false⟩) ∨
        (m.IsReply request ∧ received = ⟨replies ++ [m.body], false⟩) := by
  unfold Message.IsDone Message.IsAck Message.IsReply
  have hkinds : nlmsgError ≠ nlmsgDone := by decide
  by_cases hdone : m.kind = nlmsgDone
  · rw [receiveBody_done hdone]
    by_cases hcode : m.code?.getD 0 = 0
    · simp [hdone, hcode, hkinds.symm, eq_comm]
    · simp [hdone, hcode, hkinds.symm]
  · by_cases herror : m.kind = nlmsgError
    · rw [receiveBody_error herror]
      cases hcode : m.code? with
      | none => simp [herror, hkinds]
      | some code =>
        by_cases hzero : code = 0
        · simp [herror, hzero, hkinds, eq_comm]
        · simp [herror, hzero, hkinds]
    · rw [receiveBody, if_neg hdone, if_neg herror]
      by_cases hreply : m.kind = request.replyType
      · rw [if_pos hreply]
        constructor
        · intro h
          cases h
          exact .inr (.inr ⟨⟨hreply, hdone, herror⟩, rfl⟩)
        · rintro (⟨⟨h, -⟩, -⟩ | ⟨⟨h, -⟩, -⟩ | ⟨-, rfl⟩)
          · exact absurd h hdone
          · exact absurd h herror
          · rfl
      · simp [hdone, herror, hreply]

/-- The messages that a datagram consists of; the padding of the last may be left out. -/
inductive Datagram : List UInt8 → List Message → Prop
  | nil : Datagram [] []
  | last (m : Message) (behind omitted : List UInt8) (h : behind ++ omitted = m.padding) :
      Datagram (m.unpadded ++ behind) [m]
  | cons (m : Message) {bytes : List UInt8} {ms : List Message} (h : Datagram bytes ms) :
      Datagram (m.encode ++ bytes) (m :: ms)

/-- Messages of a dump that goes on. -/
def Continues (request : NetlinkDumpRequest) (ms : List Message) : Prop :=
  ∀ m ∈ ms, m.Answers request ∧ (m.IsReply request ∨ m.IsAck)

/-- The bodies of the replies. -/
def bodies (request : NetlinkDumpRequest) (ms : List Message) : List (List UInt8) :=
  (ms.filter fun m => m.IsReply request).map Message.body

theorem bodies_cons_of_isReply {m : Message} (h : m.IsReply request) (ms : List Message) :
    bodies request (m :: ms) = m.body :: bodies request ms := by
  simp [bodies, h]

theorem bodies_cons_of_isAck {m : Message} (h : m.IsAck) (ms : List Message) :
    bodies request (m :: ms) = bodies request ms := by
  have hreply : ¬m.IsReply request := fun hr => hr.2.2 h.1
  simp [bodies, hreply]

theorem bodies_append (ms ms' : List Message) :
    bodies request (ms ++ ms') = bodies request ms ++ bodies request ms' := by
  rw [bodies, List.filter_append, List.map_append]
  rfl

/-- Behind the end of the datagram nothing more is received. -/
theorem receiveMessages_of_le (h : bytes.length ≤ offset) (rounds : ℕ) :
    receiveMessages request bytes rounds offset replies = .ok ⟨replies, false⟩ := by
  cases rounds with
  | zero => rfl
  | succ rounds => rw [receiveMessages, if_neg (not_lt.mpr h)]

theorem lt_length_of_drop {m : Message} (h : bytes.drop offset = m.unpadded ++ rest) :
    offset < bytes.length := by
  have hlength := congrArg List.length h
  rw [List.length_drop, List.length_append, m.length_unpadded, headerLength] at hlength
  omega

/-- A message of a dump that goes on is received, and the next one is behind it. -/
theorem receiveMessages_of_continues {m : Message} (h : bytes.drop offset = m.unpadded ++ rest)
    (hm : Continues request [m]) (rounds : ℕ) :
    receiveMessages request bytes (rounds + 1) offset replies =
      receiveMessages request bytes rounds (offset + m.encode.length)
        (replies ++ bodies request [m]) := by
  obtain ⟨hanswers, hkind⟩ := hm m List.mem_cons_self
  have hbody : receiveBody request m.kind m.body replies =
      .ok ⟨replies ++ bodies request [m], false⟩ := by
    rw [receiveBody_eq_ok_iff]
    rcases hkind with hreply | hack
    · exact .inr (.inr ⟨hreply, by rw [bodies_cons_of_isReply hreply]; rfl⟩)
    · refine .inr (.inl ⟨hack, ?_⟩)
      rw [bodies_cons_of_isAck hack]
      exact congrArg (Received.mk · false) (List.append_nil replies)
  rw [receiveMessages, if_pos (lt_length_of_drop h), receiveMessage_of_drop h, if_pos hanswers, hbody]
  rfl

/-- The end of the dump is received. -/
theorem receiveMessages_of_isDone {m : Message} (h : bytes.drop offset = m.unpadded ++ rest)
    (hanswers : m.Answers request) (hdone : m.IsDone) (rounds : ℕ) :
    receiveMessages request bytes (rounds + 1) offset replies = .ok ⟨replies, true⟩ := by
  have hbody : receiveBody request m.kind m.body replies = .ok ⟨replies, true⟩ :=
    receiveBody_eq_ok_iff.mpr (.inl ⟨hdone, rfl⟩)
  rw [receiveMessages, if_pos (lt_length_of_drop h), receiveMessage_of_drop h, if_pos hanswers, hbody]
  rfl

/-- What the messages of a datagram are when it is received: either the dump goes on behind it, or it
ends in it and the rest is not looked at. -/
inductive Receives (request : NetlinkDumpRequest) (bytes : List UInt8) : List Message → Bool → Prop
  | continues {ms : List Message} (h : Datagram bytes ms) (hms : Continues request ms) :
      Receives request bytes ms false
  | done {ms : List Message} (d : Message) (rest : List UInt8)
      (h : bytes = ms.flatMap Message.encode ++ (d.unpadded ++ rest)) (hms : Continues request ms)
      (hanswers : d.Answers request) (hdone : d.IsDone) : Receives request bytes ms true

theorem Receives.cons {m : Message} {ms : List Message} {done : Bool}
    (h : Receives request bytes ms done) (hm : Continues request [m]) :
    Receives request (m.encode ++ bytes) (m :: ms) done := by
  have hall : ∀ ms, Continues request ms → Continues request (m :: ms) := fun ms hms x hx => by
    rcases List.mem_cons.mp hx with rfl | hx
    · exact hm x List.mem_cons_self
    · exact hms x hx
  cases h with
  | continues h hms => exact .continues (.cons m h) (hall _ hms)
  | done d rest h hms hanswers hdone =>
    refine .done d rest ?_ (hall _ hms) hanswers hdone
    rw [h, List.flatMap_cons, List.append_assoc]

/-- A message that is received and does not end the dump belongs to a dump that goes on. -/
theorem continues_of_receiveBody {m : Message} {received : Received} (hanswers : m.Answers request)
    (h : receiveBody request m.kind m.body replies = .ok received)
    (hdone : ¬(m.IsDone ∧ received = ⟨replies, true⟩)) :
    Continues request [m] ∧ received = ⟨replies ++ bodies request [m], false⟩ := by
  have hall : m.IsReply request ∨ m.IsAck → Continues request [m] := fun hm x hx => by
    rw [List.mem_singleton.mp hx]
    exact ⟨hanswers, hm⟩
  rcases receiveBody_eq_ok_iff.mp h with hmdone | ⟨hack, hreceived⟩ | ⟨hreply, hreceived⟩
  · exact absurd hmdone hdone
  · refine ⟨hall (.inr hack), ?_⟩
    rw [bodies_cons_of_isAck hack, hreceived]
    exact congrArg (Received.mk · false) (List.append_nil replies).symm
  · refine ⟨hall (.inl hreply), ?_⟩
    rw [bodies_cons_of_isReply hreply, hreceived]
    rfl

/-- What is received of a datagram is what its messages say. -/
theorem receives_of_receiveMessages {received : Received} {rounds : ℕ}
    (hrounds : bytes.length ≤ offset + rounds)
    (h : receiveMessages request bytes rounds offset replies = .ok received) :
    ∃ ms, Receives request (bytes.drop offset) ms received.done ∧
      received.replies = replies ++ bodies request ms := by
  have hend : ∀ offset replies, bytes.length ≤ offset → ∃ ms,
      Receives request (bytes.drop offset) ms false ∧ replies = replies ++ bodies request ms := by
    intro offset replies hle
    rw [List.drop_eq_nil_of_le hle]
    exact ⟨[], .continues .nil (by simp [Continues]), (List.append_nil _).symm⟩
  induction rounds generalizing offset replies with
  | zero =>
    cases h
    exact hend offset replies hrounds
  | succ rounds ih =>
    rw [receiveMessages] at h
    by_cases hlt : offset < bytes.length
    · rw [if_pos hlt] at h
      cases hmessage : receiveMessage request bytes offset replies with
      | error e =>
        rw [hmessage] at h
        cases h
      | ok result =>
        obtain ⟨r, next⟩ := result
        rw [hmessage] at h
        obtain ⟨m, behind, hdrop, hbehind, hanswers, hbody, rfl⟩ :=
          exists_message_of_receiveMessage hmessage
        by_cases hdone : m.IsDone ∧ r = ⟨replies, true⟩
        · obtain ⟨hmdone, rfl⟩ := hdone
          cases h
          exact ⟨[], .done m behind hdrop (by simp [Continues]) hanswers hmdone,
            (List.append_nil _).symm⟩
        · obtain ⟨hm, rfl⟩ := continues_of_receiveBody hanswers hbody hdone
          rcases hbehind with ⟨rest, rfl⟩ | ⟨omitted, homitted⟩
          · have hnext : bytes.drop (offset + m.encode.length) = rest := by
              rw [← List.drop_drop, hdrop, ← List.append_assoc]
              exact List.drop_left
            have hlong := m.headerLength_le_length_encode
            unfold headerLength at hlong
            obtain ⟨ms, hms, hreplies⟩ := ih (by omega) h
            rw [hnext] at hms
            refine ⟨m :: ms, ?_, ?_⟩
            · rw [hdrop, ← List.append_assoc]
              exact hms.cons hm
            · rw [hreplies, List.append_assoc]
              exact congrArg _ (bodies_append [m] ms).symm
          · have hlast : bytes.length ≤ offset + m.encode.length := by
              have hlength := congrArg List.length hdrop
              have hpadding := congrArg List.length homitted
              rw [List.length_append] at hpadding
              rw [List.length_drop, List.length_append] at hlength
              rw [Message.encode, List.length_append]
              omega
            change receiveMessages _ _ _ _ _ = _ at h
            rw [receiveMessages_of_le hlast] at h
            cases h
            exact ⟨[m], hdrop ▸ .continues (.last m behind omitted homitted) hm, rfl⟩
    · rw [if_neg hlt] at h
      cases h
      exact hend offset replies (not_lt.mp hlt)

theorem Receives.uncons {m : Message} {ms : List Message} {done : Bool}
    (h : Receives request bytes (m :: ms) done) :
    Continues request [m] ∧ (∃ behind, bytes = m.unpadded ++ behind) ∧
      Receives request (bytes.drop m.encode.length) ms done := by
  have hsplit : Continues request (m :: ms) → Continues request [m] ∧ Continues request ms :=
    fun hms => ⟨fun x hx => hms x (List.mem_singleton.mp hx ▸ List.mem_cons_self),
      fun x hx => hms x (List.mem_cons_of_mem m hx)⟩
  cases h with
  | continues h hms =>
    obtain ⟨hm, hrest⟩ := hsplit hms
    refine ⟨hm, ?_⟩
    cases h with
    | last _ behind omitted hpadding =>
      have hshort : (m.unpadded ++ behind).length ≤ m.encode.length := by
        have hlength := congrArg List.length hpadding
        rw [List.length_append] at hlength
        rw [Message.encode, List.length_append, List.length_append]
        omega
      rw [List.drop_eq_nil_of_le hshort]
      exact ⟨⟨behind, rfl⟩, .continues .nil hrest⟩
    | @cons _ bytes _ h =>
      rw [List.drop_left]
      exact ⟨⟨m.padding ++ bytes, List.append_assoc _ _ _⟩, .continues h hrest⟩
  | done d rest h hms hanswers hdone =>
    obtain ⟨hm, hrest⟩ := hsplit hms
    rw [List.flatMap_cons, List.append_assoc] at h
    rw [h, List.drop_left]
    exact ⟨hm, ⟨_, List.append_assoc _ _ _⟩, .done d rest rfl hrest hanswers hdone⟩

/-- A datagram of a dump is received. -/
theorem receiveMessages_of_receives {ms : List Message} {done : Bool} {rounds : ℕ}
    (h : Receives request (bytes.drop offset) ms done) (hrounds : bytes.length ≤ offset + rounds) :
    receiveMessages request bytes rounds offset replies =
      .ok ⟨replies ++ bodies request ms, done⟩ := by
  induction ms generalizing offset replies rounds with
  | nil =>
    have hnone : replies ++ bodies request [] = replies := List.append_nil replies
    rw [hnone]
    cases h with
    | continues h =>
      generalize hrest : bytes.drop offset = rest at h
      cases h
      exact receiveMessages_of_le (List.drop_eq_nil_iff.mp hrest) rounds
    | done d rest h _ hanswers hdone =>
      have hlt := lt_length_of_drop h
      obtain ⟨n, rfl⟩ := Nat.exists_eq_succ_of_ne_zero (show rounds ≠ 0 by omega)
      exact receiveMessages_of_isDone h hanswers hdone n
  | cons m ms ih =>
    obtain ⟨hm, ⟨behind, hbehind⟩, hrest⟩ := h.uncons
    have hlt := lt_length_of_drop hbehind
    obtain ⟨n, rfl⟩ := Nat.exists_eq_succ_of_ne_zero (show rounds ≠ 0 by omega)
    have hlong := m.headerLength_le_length_encode
    unfold headerLength at hlong
    rw [List.drop_drop] at hrest
    rw [receiveMessages_of_continues hbehind hm, ih hrest (by omega), List.append_assoc]
    exact congrArg (fun l => Except.ok (Received.mk (replies ++ l) done))
      (bodies_append [m] ms).symm

/-! ## Accesses and progress -/

/-- No access leaves the bytes. -/
abbrev Safe {α : Type} (x : Except NetlinkError α) (P : α → Prop) : Prop :=
  Yields (fun e => e ≠ .panic) x P

theorem safe_u32At (bytes : List UInt8) (offset : ℕ) : Safe (u32At bytes offset) fun _ => True := by
  rw [u32At]
  exact Yields.ite (fun _ => .ok trivial) fun _ => .error (by simp)

theorem safe_slice {start stop : ℕ} (h : start ≤ stop) (hstop : stop ≤ bytes.length) :
    Safe (slice bytes start stop) fun _ => True := by
  rw [slice, if_pos ⟨h, hstop⟩]
  exact .ok trivial

theorem safe_u16At (h : offset + 2 ≤ bytes.length) : Safe (u16At bytes offset) fun _ => True :=
  Yields.bind (safe_slice (Nat.le_add_right _ _) h) fun _ _ => .pure trivial

theorem safe_receiveBody (kind : UInt16) (body : List UInt8) :
    Safe (receiveBody request kind body replies) fun _ => True := by
  have hcode : ∀ (f : UInt32 → Except NetlinkError Received), (∀ code, Safe (f code) fun _ => True) →
      Safe (u32At body 0 >>= f) fun _ => True := fun f hf =>
    Yields.bind (safe_u32At body 0) fun code _ => hf code
  rw [receiveBody]
  refine Yields.ite (fun _ => Yields.ite (fun _ => hcode _ fun code => ?_) fun _ => .ok trivial)
    fun _ => Yields.ite (fun _ => hcode _ fun code => ?_) fun _ =>
      Yields.ite (fun _ => .ok trivial) fun _ => .error (by simp)
  · exact Yields.ite (fun _ => .error (by simp)) fun _ => .ok trivial
  · exact Yields.ite (fun _ => .error (by simp)) fun _ => .ok trivial

/-- A message is received within the datagram, and the next one is a header behind it at least. -/
theorem safe_receiveMessage : Safe (receiveMessage request bytes offset replies)
    fun result => offset + headerLength ≤ result.2 := by
  rw [receiveMessage]
  refine Yields.ite (fun _ => .error (by simp)) fun hlong => ?_
  rw [not_lt, headerLength] at hlong
  refine Yields.bind (safe_u32At bytes offset) fun length _ => ?_
  refine Yields.ite (fun _ => .error (by simp)) fun hlength => ?_
  rw [not_or, not_lt, not_lt] at hlength
  refine Yields.bind (safe_u16At (by omega)) fun kind _ => ?_
  refine Yields.bind (safe_u16At (by omega)) fun flags _ => ?_
  refine Yields.bind (safe_u32At bytes (offset + 8)) fun sequence _ => ?_
  refine Yields.ite (fun _ => .error (by simp)) fun _ => ?_
  refine Yields.bind (safe_slice (by omega) (by omega)) fun body _ => ?_
  refine Yields.bind (safe_receiveBody kind body) fun received _ => .pure ?_
  have halign := le_align length.toNat
  omega

theorem safe_receiveMessages (rounds : ℕ) :
    Safe (receiveMessages request bytes rounds offset replies) fun _ => True := by
  induction rounds generalizing offset replies with
  | zero => exact .ok trivial
  | succ rounds ih =>
    rw [receiveMessages]
    refine Yields.ite (fun _ => Yields.bind safe_receiveMessage fun result _ => ?_)
      fun _ => .ok trivial
    exact Yields.ite (fun _ => .ok trivial) fun _ => ih

end Procinsh.Netlink
