import Procinsh.Netlink.Datagrams

/-!
# Completeness of netlink dumps

A dump is received completely or not at all.  What is accepted is described by the messages that the
datagrams consist of: up to the end of the dump every message belongs to the answer and is a reply or
an acknowledgement.  Then the bodies of the replies are returned, however the messages are split into
datagrams, and for anything else an error is.
-/

namespace Procinsh.Netlink

variable {request : NetlinkDumpRequest} {bytes : List UInt8} {replies : List (List UInt8)}

/-! ## Datagrams of a dump -/

/-- The datagrams that are received. -/
def datagrams (receptions : List Reception) : List (List UInt8) :=
  receptions.filterMap fun
    | .datagram bytes _ => some bytes
    | _ => none

/-- Nothing but datagrams of the kernel is received. -/
def FromKernel (receptions : List Reception) : Prop :=
  ∀ r ∈ receptions, r = .idle ∨ ∃ bytes, r = .datagram bytes 0

/-- A datagram that fits into the buffer. -/
def Fits (bytes : List UInt8) : Prop := 0 < bytes.length ∧ bytes.length ≤ bufferLength

instance (bytes : List UInt8) : Decidable (Fits bytes) := inferInstanceAs (Decidable (_ ∧ _))

/-- What is received is a dump with messages in front of its end, after a number of bytes. -/
def IsDumpFrom (request : NetlinkDumpRequest) (total : ℕ) (receptions : List Reception)
    (ms : List Message) : Prop :=
  ∃ (waited : List Reception) (last : List UInt8) (rest : List Reception)
    (groups : List (List Message)) (final : List Message),
    receptions = waited ++ .datagram last 0 :: rest ∧ FromKernel waited ∧
    (∀ bytes ∈ datagrams waited ++ [last], Fits bytes) ∧
    total + (datagrams waited ++ [last]).flatten.length ≤ replyLimit ∧
    List.Forall₂ (fun bytes ms => Receives request bytes ms false) (datagrams waited) groups ∧
    Receives request last final true ∧ ms = groups.flatten ++ final

/-- What is received is a dump with messages in front of its end. -/
def IsDump (request : NetlinkDumpRequest) (receptions : List Reception) (ms : List Message) : Prop :=
  IsDumpFrom request 0 receptions ms

/-- A datagram of the kernel is received if it fits and its messages are. -/
theorem receiveLoop_datagram {total : ℕ} {receptions : List Reception} (hbytes : Fits bytes)
    (htotal : total + bytes.length ≤ replyLimit) :
    receiveLoop request (.datagram bytes 0 :: receptions) total replies =
      (receiveMessages request bytes bytes.length 0 replies).bind fun received =>
        if received.done then .ok received.replies
        else receiveLoop request receptions (total + bytes.length) received.replies := by
  have hsize : ¬(bytes.length = 0 ∨ bufferLength < bytes.length) := by
    obtain ⟨hpos, hle⟩ := hbytes
    omega
  rw [receiveLoop, if_neg hsize, if_neg (not_not_intro rfl), if_neg (not_lt.mpr htotal)]
  rfl

/-- A datagram that is received is one of the kernel and fits. -/
theorem exists_of_receiveLoop_datagram {total : ℕ} {sender : UInt32} {receptions : List Reception}
    {result : List (List UInt8)}
    (h : receiveLoop request (.datagram bytes sender :: receptions) total replies = .ok result) :
    sender = 0 ∧ Fits bytes ∧ total + bytes.length ≤ replyLimit := by
  rw [receiveLoop] at h
  split at h
  · cases h
  · next hsize =>
    split at h
    · cases h
    · next hsender =>
      split at h
      · cases h
      · next htotal =>
        refine ⟨not_not.mp hsender, ?_, not_lt.mp htotal⟩
        unfold Fits
        omega

theorem fromKernel_cons {r : Reception} {receptions : List Reception} :
    FromKernel (r :: receptions) ↔
      (r = .idle ∨ ∃ bytes, r = .datagram bytes 0) ∧ FromKernel receptions :=
  List.forall_mem_cons

/-- A dump begins with waiting, with a datagram that it ends in, or with one that it goes on behind. -/
theorem isDumpFrom_cons_iff {total : ℕ} {r : Reception} {receptions : List Reception}
    {ms : List Message} : IsDumpFrom request total (r :: receptions) ms ↔
      (r = .idle ∧ IsDumpFrom request total receptions ms) ∨
      ∃ bytes, r = .datagram bytes 0 ∧ Fits bytes ∧ total + bytes.length ≤ replyLimit ∧
        (Receives request bytes ms true ∨ ∃ ms₁ ms₂, Receives request bytes ms₁ false ∧
          IsDumpFrom request (total + bytes.length) receptions ms₂ ∧ ms = ms₁ ++ ms₂) := by
  constructor
  · rintro ⟨waited, last, rest, groups, final, hsplit, hkernel, hfits, htotal, hgroups, hfinal, rfl⟩
    cases waited with
    | nil =>
      obtain ⟨rfl, rfl⟩ := List.cons.inj hsplit
      cases hgroups
      refine .inr ⟨last, rfl, hfits last (List.mem_singleton.mpr rfl), ?_, .inl hfinal⟩
      simpa [datagrams] using htotal
    | cons w waited =>
      obtain ⟨rfl, rfl⟩ := List.cons.inj hsplit
      obtain ⟨hr, hwaited⟩ := fromKernel_cons.mp hkernel
      rcases hr with rfl | ⟨bytes, rfl⟩
      · exact .inl ⟨rfl, waited, last, rest, groups, final, rfl, hwaited, hfits, htotal, hgroups,
          hfinal, rfl⟩
      · change List.Forall₂ _ (bytes :: datagrams waited) groups at hgroups
        obtain ⟨hbytes, hfits⟩ := List.forall_mem_cons.mp hfits
        obtain ⟨ms₁, groups, hms₁, hothers, rfl⟩ := List.forall₂_cons_left_iff.mp hgroups
        change total + (bytes :: (datagrams waited ++ [last])).flatten.length ≤ replyLimit at htotal
        rw [List.flatten_cons, List.length_append, ← Nat.add_assoc] at htotal
        refine .inr ⟨bytes, rfl, hbytes, (Nat.le_add_right _ _).trans htotal, .inr ⟨ms₁, _, hms₁,
          ⟨waited, last, rest, groups, final, rfl, hwaited, hfits, htotal, hothers, hfinal, rfl⟩, ?_⟩⟩
        rw [List.flatten_cons, List.append_assoc]
  · rintro (⟨rfl, waited, last, rest, groups, final, rfl, hkernel, hrest⟩ |
      ⟨bytes, rfl, hbytes, htotal, hlast | ⟨ms₁, _, hms₁, ⟨waited, last, rest, groups, final, rfl,
        hkernel, hfits, hlimit, hgroups, hfinal, rfl⟩, rfl⟩⟩)
    · exact ⟨.idle :: waited, last, rest, groups, final, rfl,
        fromKernel_cons.mpr ⟨.inl rfl, hkernel⟩, hrest⟩
    · refine ⟨[], bytes, receptions, [], ms, rfl, by simp [FromKernel], ?_, ?_, .nil, hlast, rfl⟩
      · intro b hb
        rw [List.mem_singleton.mp hb]
        exact hbytes
      · simpa [datagrams] using htotal
    · refine ⟨.datagram bytes 0 :: waited, last, rest, ms₁ :: groups, final, rfl,
        fromKernel_cons.mpr ⟨.inr ⟨bytes, rfl⟩, hkernel⟩, List.forall_mem_cons.mpr ⟨hbytes, hfits⟩,
        ?_, .cons hms₁ hgroups, hfinal, ?_⟩
      · change total + (bytes :: (datagrams waited ++ [last])).flatten.length ≤ replyLimit
        rw [List.flatten_cons, List.length_append, ← Nat.add_assoc]
        exact hlimit
      · rw [List.flatten_cons, List.append_assoc]

/-- What is returned is what the messages of a dump say. -/
theorem receiveLoop_eq_ok_iff {receptions : List Reception} {total : ℕ}
    {result : List (List UInt8)} :
    receiveLoop request receptions total replies = .ok result ↔
      ∃ ms, IsDumpFrom request total receptions ms ∧ result = replies ++ bodies request ms := by
  induction receptions generalizing total replies with
  | nil =>
    refine iff_of_false (by simp [receiveLoop]) ?_
    rintro ⟨ms, ⟨waited, last, rest, groups, final, hnil, -⟩, -⟩
    simp at hnil
  | cons r receptions ih =>
    constructor
    · intro h
      cases r with
      | idle =>
        rw [receiveLoop, ih] at h
        obtain ⟨ms, hms, hresult⟩ := h
        exact ⟨ms, isDumpFrom_cons_iff.mpr (.inl ⟨rfl, hms⟩), hresult⟩
      | failed errno => cases h
      | datagram bytes sender =>
        obtain ⟨rfl, hfits, htotal⟩ := exists_of_receiveLoop_datagram h
        rw [receiveLoop_datagram hfits htotal] at h
        cases hreceived : receiveMessages request bytes bytes.length 0 replies with
        | error e =>
          rw [hreceived] at h
          cases h
        | ok received =>
          obtain ⟨ms, hms, hreplies⟩ := receives_of_receiveMessages (Nat.le_add_left _ _) hreceived
          rw [hreceived, Except.bind, hreplies] at h
          rw [List.drop_zero] at hms
          cases hdone : received.done with
          | true =>
            rw [hdone] at h hms
            cases h
            exact ⟨ms, isDumpFrom_cons_iff.mpr (.inr ⟨bytes, rfl, hfits, htotal, .inl hms⟩), rfl⟩
          | false =>
            rw [hdone, if_neg Bool.false_ne_true, ih] at h
            rw [hdone] at hms
            obtain ⟨ms', hms', rfl⟩ := h
            refine ⟨ms ++ ms', isDumpFrom_cons_iff.mpr (.inr ⟨bytes, rfl, hfits, htotal,
              .inr ⟨ms, ms', hms, hms', rfl⟩⟩), ?_⟩
            rw [bodies_append, List.append_assoc]
    · rintro ⟨ms, hms, rfl⟩
      rcases isDumpFrom_cons_iff.mp hms with ⟨rfl, hrest⟩ |
        ⟨bytes, rfl, hfits, htotal, hlast | ⟨ms₁, ms₂, hms₁, hms₂, rfl⟩⟩
      · rw [receiveLoop, ih]
        exact ⟨ms, hrest, rfl⟩
      · have hround : receiveMessages request bytes bytes.length 0 replies =
            .ok ⟨replies ++ bodies request ms, true⟩ :=
          receiveMessages_of_receives hlast (Nat.le_add_left _ _)
        rw [receiveLoop_datagram hfits htotal, hround]
        rfl
      · have hround : receiveMessages request bytes bytes.length 0 replies =
            .ok ⟨replies ++ bodies request ms₁, false⟩ :=
          receiveMessages_of_receives hms₁ (Nat.le_add_left _ _)
        rw [receiveLoop_datagram hfits htotal, hround]
        change receiveLoop request receptions (total + bytes.length)
          (replies ++ bodies request ms₁) = _
        rw [ih, bodies_append, ← List.append_assoc]
        exact ⟨ms₂, hms₂, rfl⟩

theorem safe_receiveLoop (receptions : List Reception) (total : ℕ) :
    Safe (receiveLoop request receptions total replies) fun _ => True := by
  induction receptions generalizing total replies with
  | nil => exact .error (by simp)
  | cons r receptions ih =>
    cases r with
    | idle => exact ih total
    | failed errno => exact .error (by simp)
    | datagram bytes sender =>
      rw [receiveLoop]
      refine Yields.ite (fun _ => .error (by simp)) fun _ => Yields.ite (fun _ => .error (by simp))
        fun _ => Yields.ite (fun _ => .error (by simp)) fun _ =>
          Yields.bind (safe_receiveMessages _) fun received _ => ?_
      exact Yields.ite (fun _ => .ok trivial) fun _ => ih _

/-! ## However the messages are split -/

theorem datagram_flatMap (ms : List Message) : Datagram (ms.flatMap Message.encode) ms := by
  induction ms with
  | nil => exact .nil
  | cons m ms ih => exact .cons m ih

/-- The datagram in which a dump ends. -/
theorem receives_done {before after : List Message} {d : Message} (hbefore : Continues request before)
    (hanswers : d.Answers request) (hdone : d.IsDone) :
    Receives request ((before ++ d :: after).flatMap Message.encode) before true := by
  refine .done d (d.padding ++ after.flatMap Message.encode) ?_ hbefore hanswers hdone
  rw [List.flatMap_append, List.flatMap_cons, Message.encode, List.append_assoc]

/-- Messages that are split into datagrams are a dump up to the first that ends it. -/
theorem isDumpFrom_of_flatten {receptions : List Reception} {groups : List (List Message)}
    {before after : List Message} {d : Message} {total : ℕ} (hkernel : FromKernel receptions)
    (hdatagrams : datagrams receptions = groups.map fun ms => ms.flatMap Message.encode)
    (hfits : ∀ bytes ∈ datagrams receptions, Fits bytes)
    (htotal : total + (datagrams receptions).flatten.length ≤ replyLimit)
    (hmessages : groups.flatten = before ++ d :: after) (hbefore : Continues request before)
    (hanswers : d.Answers request) (hdone : d.IsDone) :
    IsDumpFrom request total receptions before := by
  induction receptions generalizing groups before total with
  | nil =>
    obtain rfl := List.map_eq_nil_iff.mp hdatagrams.symm
    simp at hmessages
  | cons r receptions ih =>
    obtain ⟨hr, hothers⟩ := fromKernel_cons.mp hkernel
    rcases hr with rfl | ⟨bytes, rfl⟩
    · exact isDumpFrom_cons_iff.mpr (.inl ⟨rfl,
        ih hothers hdatagrams hfits htotal hmessages hbefore⟩)
    · change bytes :: datagrams receptions = _ at hdatagrams
      obtain ⟨ms, groups, rfl, rfl, hrest⟩ := List.map_eq_cons_iff.mp hdatagrams.symm
      obtain ⟨hbytes, hfits'⟩ := List.forall_mem_cons.mp hfits
      change total + (_ :: datagrams receptions).flatten.length ≤ replyLimit at htotal
      rw [List.flatten_cons, List.length_append, ← Nat.add_assoc] at htotal
      refine isDumpFrom_cons_iff.mpr (.inr ⟨_, rfl, hbytes, (Nat.le_add_right _ _).trans htotal, ?_⟩)
      rw [List.flatten_cons] at hmessages
      -- the dump ends behind this datagram, or in it
      have hlater : ∀ a, before = ms ++ a → groups.flatten = a ++ d :: after →
          ∃ ms₁ ms₂, Receives request (ms.flatMap Message.encode) ms₁ false ∧
            IsDumpFrom request (total + (ms.flatMap Message.encode).length) receptions ms₂ ∧
            before = ms₁ ++ ms₂ := by
        rintro a rfl hgroups
        refine ⟨ms, a, .continues (datagram_flatMap ms) fun m hm => ?_,
          ih hothers hrest.symm hfits' htotal hgroups fun m hm => ?_, rfl⟩
        · exact hbefore m (List.mem_append_left _ hm)
        · exact hbefore m (List.mem_append_right _ hm)
      rcases List.append_eq_append_iff.mp hmessages with ⟨a, hms, hgroups⟩ | ⟨c, rfl, hafter⟩
      · exact .inr (hlater a hms hgroups)
      · cases c with
        | nil =>
          rw [List.append_nil] at hlater ⊢
          exact .inr (hlater [] (List.append_nil _).symm hafter.symm)
        | cons _ c =>
          obtain ⟨rfl, rfl⟩ := List.cons.inj hafter
          exact .inl (receives_done hbefore hanswers hdone)

/-- A dump of which all messages up to the end are as they should be is returned completely and in
order, however it is split into datagrams that fit into the buffer; what is returned is always such a
dump, up to the end of its last message, and anything else is an error; no access leaves a datagram,
and every message advances by a header at least. -/
theorem receiveReplies_complete (request : NetlinkDumpRequest) (receptions : List Reception) :
    (∀ (groups : List (List Message)) before d after, FromKernel receptions →
      datagrams receptions = groups.map (fun ms => ms.flatMap Message.encode) →
      (∀ bytes ∈ datagrams receptions, Fits bytes) →
      (datagrams receptions).flatten.length ≤ replyLimit →
      groups.flatten = before ++ d :: after → Continues request before →
      d.Answers request → d.IsDone →
      receiveReplies request receptions = .ok (bodies request before)) ∧
    (∀ result, receiveReplies request receptions = .ok result ↔
      ∃ ms, IsDump request receptions ms ∧ result = bodies request ms) ∧
    receiveReplies request receptions ≠ .error .panic ∧
    ∀ bytes offset replies received next,
      receiveMessage request bytes offset replies = .ok (received, next) →
      offset + headerLength ≤ next := by
  refine ⟨?_, fun result => receiveLoop_eq_ok_iff, ?_, ?_⟩
  · intro groups before d after hkernel hdatagrams hfits htotal hmessages hbefore hanswers hdone
    refine receiveLoop_eq_ok_iff.mpr ⟨before, ?_, rfl⟩
    exact isDumpFrom_of_flatten hkernel hdatagrams hfits (by rwa [Nat.zero_add]) hmessages hbefore
      hanswers hdone
  · intro hpanic
    exact (safe_receiveLoop receptions 0).allowed_of_eq hpanic rfl
  · intro bytes offset replies received next h
    exact safe_receiveMessage.of_eq h

/-- Whole messages end at a multiple of four bytes. -/
theorem four_dvd_length_flatMap (ms : List Message) :
    4 ∣ (ms.flatMap Message.encode).length := by
  induction ms with
  | nil => exact Nat.dvd_zero 4
  | cons m ms ih =>
    rw [List.flatMap_cons, List.length_append, m.length_encode]
    exact Nat.dvd_add (Nat.dvd_mul_left 4 _) ih

/-! ### Examples -/

/-- A dump request. -/
def testDump : NetlinkDumpRequest := ⟨"test dump", 20, 7⟩

def testReply : Message := ⟨20, 0, 7, 0, [1, 2, 3], [0], by decide, by decide⟩

def testDone : Message := ⟨nlmsgDone, 0, 7, 0, [0, 0, 0, 0], [], by decide, by decide⟩

/-- A reply that is larger than the buffer. -/
def largeReply : Message :=
  ⟨20, 0, 7, 0, List.replicate 65536 0, [], by rw [List.length_replicate]; decide,
    by rw [List.length_replicate]; decide⟩

theorem length_largeReply : largeReply.encode.length = 65552 := by
  have hbody : largeReply.body.length = 65536 := List.length_replicate
  rw [Message.length_encode, hbody]
  rfl

/-- Two replies and the end of a dump, in two datagrams. -/
theorem receiveReplies_testDump : receiveReplies testDump
    [.datagram testReply.encode 0, .idle, .datagram (testReply.encode ++ testDone.encode) 0] =
      .ok [[1, 2, 3], [1, 2, 3]] := by
  have hreply : testReply.Answers testDump ∧ (testReply.IsReply testDump ∨ testReply.IsAck) :=
    ⟨⟨rfl, rfl⟩, .inl ⟨rfl, by decide, by decide⟩⟩
  refine (receiveReplies_complete testDump _).1 [[testReply], [testReply, testDone]]
    [testReply, testReply] testDone [] ?_ rfl (by decide) (by decide) rfl ?_ ⟨rfl, rfl⟩ ⟨rfl, rfl⟩
  · intro r hr
    simp only [List.mem_cons, List.not_mem_nil, or_false] at hr
    rcases hr with rfl | rfl | rfl
    · exact .inr ⟨_, rfl⟩
    · exact .inl rfl
    · exact .inr ⟨_, rfl⟩
  · intro m hm
    simp only [List.mem_cons, List.not_mem_nil, or_false, or_self] at hm
    exact hm ▸ hreply

/-- A datagram of whole messages that is larger than the buffer is refused; and a datagram that is not
made of whole messages is accepted when the dump ends in front. -/
theorem receiveReplies_largeReply :
    receiveReplies testDump
        [.datagram ([largeReply, testDone].flatMap Message.encode) 0] =
      .error (.message "truncated test dump packet") ∧
    (∀ ms : List Message, testDone.encode ++ [255] ≠ ms.flatMap Message.encode) ∧
    receiveReplies testDump [.datagram (testDone.encode ++ [255]) 0] = .ok [] := by
  refine ⟨?_, ?_, by decide⟩
  · have hlength : bufferLength < ([largeReply, testDone].flatMap Message.encode).length := by
      rw [List.flatMap_cons, List.length_append, length_largeReply, bufferLength]
      omega
    rw [receiveReplies, receiveLoop, if_pos (.inr hlength)]
    rfl
  · intro ms hms
    have haligned := four_dvd_length_flatMap ms
    rw [← hms] at haligned
    exact absurd haligned (by decide)

end Procinsh.Netlink
