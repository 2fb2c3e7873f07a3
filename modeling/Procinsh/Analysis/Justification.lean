import Procinsh.Analysis.Kept

/-!
# Justification of the relations

Every relation with a peer has its reason in what was captured: `Justified` says which.  A match is
either a fellow owner of the resource or an owner of a socket at the other end, and the flags of the
relation say which of the two it is and how the other end was found.
-/

namespace Procinsh.Analysis

open Ipc

/-! ## Reasons -/

/-- Two owners of one resource. -/
def Fellows (snapshot : SystemSnapshot) (a b : FdEndpoint) : Prop :=
  ∃ owner ∈ snapshot.rawOwners, (∃ x ∈ owner.2, SameFd a x) ∧ ∃ y ∈ owner.2, SameFd b y

/-- An owner of a resource. -/
def Owns (snapshot : SystemSnapshot) (resource : IpcIdentity) (e : FdEndpoint) : Prop :=
  ∃ owner ∈ snapshot.rawOwners, owner.1 = resource ∧ ∃ x ∈ owner.2, SameFd e x

/-- The captured attributes of a socket. -/
def capturedInfo (snapshot : SystemSnapshot) (resource : IpcIdentity) : Option SocketInfo :=
  (OrderedMap.ofList snapshot.rawSockets).get? resource.inode

/-- The recorded network namespace of a socket. -/
def networkNamespace (snapshot : SystemSnapshot) (resource : IpcIdentity) :
    Option (UInt64 × UInt64) :=
  (OrderedMap.ofList snapshot.rawNamespaces).get? resource.inode

/-- Two TCP or two UDP protocols. -/
def SameTransport : SocketProtocol → SocketProtocol → Prop
  | .tcp _, .tcp _ => True
  | .udp _, .udp _ => True
  | _, _ => False

/-- A socket that is not listening and has a remote address. -/
def HasRemote (info : SocketInfo) : Prop :=
  info.state ≠ some .listen ∧ ∃ remote, info.remoteAddr = some remote ∧ remote.port ≠ 0 ∧
    remote.ip.isUnspecified = false

/-- The namespace of every socket with addresses is recorded, as the acquisition does when it reads
the tables of a namespace. -/
def RecordsNamespaces (snapshot : SystemSnapshot) : Prop :=
  ∀ resource info, capturedInfo snapshot resource = some info → info.protocol.isTcpOrUdp = true →
    info.localAddr.isSome = true → (networkNamespace snapshot resource).isSome = true

/-- Two sockets with swapped addresses. -/
structure Reversed (snapshot : SystemSnapshot) (a b : IpcIdentity) (info info' : SocketInfo) :
    Prop where
  captured : capturedInfo snapshot a = some info
  captured' : capturedInfo snapshot b = some info'
  transport : SameTransport info.protocol info'.protocol
  namespaces : networkNamespace snapshot a = networkNamespace snapshot b
  recorded : RecordsNamespaces snapshot → ∃ ns, networkNamespace snapshot a = some ns ∧
    networkNamespace snapshot b = some ns
  addresses : ∃ x y, info.localAddr = some x ∧ info.remoteAddr = some y ∧
    info'.localAddr = some y ∧ info'.remoteAddr = some x
  remote : HasRemote info ∨ HasRemote info'

/-- What was captured accounts for a relation. -/
structure Justified (snapshot : SystemSnapshot) (r : FdRelation) (peer : FdEndpoint) : Prop where
  /-- A shared relation is between owners of one resource. -/
  shared : r.shared = true → Fellows snapshot r.endpoint peer
  /-- An unshared relation of a pipe is between owners with opposite access. -/
  pipe : r.shared = false → r.endpoint.kind ≠ .socket →
    Fellows snapshot r.endpoint peer ∧ r.endpoint.access.opposite peer.access = true
  /-- An unshared relation of a socket that is not a candidate is with the recorded peer. -/
  recorded : r.shared = false → r.candidate = false → r.endpoint.kind = .socket → ∃ a b info,
    Owns snapshot a r.endpoint ∧ Owns snapshot b peer ∧ b.kind = .socket ∧
      capturedInfo snapshot a = some info ∧ info.peerInode = some b.inode
  /-- A candidate is between sockets with swapped addresses. -/
  candidate : r.candidate = true → r.shared = false ∧ r.endpoint.kind = .socket ∧
    ∃ a b info info', Owns snapshot a r.endpoint ∧ Owns snapshot b peer ∧ b.kind = .socket ∧
      Reversed snapshot a b info info'

/-! ## Sources of matches -/

variable {iterateOwners : List (IpcIdentity × List FdEndpoint) → List (IpcIdentity × List FdEndpoint)}
  {iterateInfos : List (UInt64 × SocketInfo) → List (UInt64 × SocketInfo)}
  {limits : Limits} {snapshot : SystemSnapshot} {observations : Observations}
  {reverse : OrderedMap Tuple (List UInt64)}

theorem sameTransport_of {p q : SocketProtocol} (hp : p.isTcpOrUdp = true) (hq : q.isTcpOrUdp = true)
    (h : p.isTcp = q.isTcp) : SameTransport p q := by
  cases p with
  | tcp =>
    cases q with
    | tcp => trivial
    | udp => cases h
    | unix => cases hq
    | other => cases hq
  | udp =>
    cases q with
    | tcp => cases h
    | udp => trivial
    | unix => cases hq
    | other => cases hq
  | unix => cases hp
  | other => cases hp

/-- A visit finds fellow owners and owners of sockets at the other end. -/
inductive Source (observations : Observations) (reverse : OrderedMap Tuple (List UInt64)) (v : Visit)
    (m : Match) : Prop
  | fellow (h : m ∈ resourceMatches v.endpoints v.index v.endpoint)
  | socket (info : SocketInfo) (peer : UInt64) (hkind : v.endpoint.kind = .socket)
      (hinfo : observations.infos.get? v.resource.inode = some info)
      (hpeer : (peer, m.candidate) ∈ peerInodes observations reverse v.resource.inode info)
      (howner : m.peer ∈ inodeOwners observations peer) (hshared : m.shared = false)

/-- Every match has a source. -/
theorem Visit.source {v : Visit} {m : Match} (h : m ∈ v.found observations reverse) :
    Source observations reverse v m := by
  rcases mem_endpointMatches.mp h with h | ⟨info, hkind, hinfo, h⟩
  · exact .fellow h
  · obtain ⟨peer, hpeer, howner, hshared, -⟩ := mem_socketMatches.mp h
    exact .socket info peer hkind hinfo hpeer howner hshared

/-- A socket that is found by the swapped addresses is the other end. -/
theorem reversed_of_mem (hiterateInfos : ∀ l, (iterateInfos l).Perm l) {a b : IpcIdentity}
    {info : SocketInfo} (hinfo : capturedInfo snapshot a = some info) {x y : SocketAddr}
    (hlocal : info.localAddr = some x) (hremote : info.remoteAddr = some y)
    (hprotocol : info.protocol.isTcpOrUdp = true)
    (hmem : b.inode ∈ ((reverseOf iterateInfos (observationsOf iterateOwners snapshot)).get?
      (networkNamespace snapshot a, info.protocol.isTcp, y, x)).getD []) :
    ∃ info', Reversed snapshot a b info info' := by
  obtain ⟨info', hinfo', hreverse⟩ := (mem_reverseOf hiterateInfos).mp hmem
  obtain ⟨-, x', y', hlocal', hremote', hprotocol', hspecified, hstate, htuple⟩ :=
    reverseEntry_eq_some.mp hreverse
  simp only [Prod.mk.injEq] at htuple
  obtain ⟨hnamespace, htcp, rfl, rfl⟩ := htuple
  simp only [SocketAddr.isSpecified, Bool.and_eq_true, decide_eq_true_eq, Bool.not_eq_true'] at hspecified
  refine ⟨info', hinfo, hinfo', sameTransport_of hprotocol hprotocol' htcp, hnamespace, fun h => ?_,
    ⟨x, y, hlocal, hremote, hlocal', hremote'⟩, .inr ⟨hstate, x, hremote', hspecified⟩⟩
  obtain ⟨ns, hns⟩ := Option.isSome_iff_exists.mp (h a info hinfo hprotocol (by rw [hlocal]; rfl))
  exact ⟨ns, hns, hnamespace.symm.trans hns⟩

section Reasons

variable (hiterate : ∀ l, (iterateOwners l).Perm l)
include hiterate

/-- An owner that the map has was captured. -/
theorem exists_raw_of_mem_owners {owner : IpcIdentity × List FdEndpoint}
    (howner : owner ∈ (observationsOf iterateOwners snapshot).owners.entries) :
    ∃ raw ∈ snapshot.rawOwners, raw.1 = owner.1 ∧ ∀ e ∈ owner.2, ∃ x ∈ raw.2, SameFd e x := by
  obtain ⟨raw, hraw, rfl⟩ := (mem_owners hiterate).mp howner
  exact ⟨raw, OrderedMap.mem_of_mem_entries_ofList hraw, rfl,
    fun e he => exists_raw_of_mem_prepared he⟩

theorem owns_of_mem_owners {owner : IpcIdentity × List FdEndpoint}
    (howner : owner ∈ (observationsOf iterateOwners snapshot).owners.entries) {e : FdEndpoint}
    (he : e ∈ owner.2) : Owns snapshot owner.1 e := by
  obtain ⟨raw, hraw, hresource, hall⟩ := exists_raw_of_mem_owners hiterate howner
  exact ⟨raw, hraw, hresource, hall e he⟩

/-- The owners of a socket at the other end own a captured socket. -/
theorem owns_of_mem_inodeOwners {inode : UInt64} {o : FdEndpoint}
    (h : o ∈ inodeOwners (observationsOf iterateOwners snapshot) inode) :
    ∃ b : IpcIdentity, b.kind = .socket ∧ b.inode = inode ∧ Owns snapshot b o := by
  obtain ⟨owner, howner, hkind, hinode, ho⟩ := exists_of_mem_inodeOwners h
  exact ⟨owner.1, hkind, hinode, owns_of_mem_owners hiterate howner ho⟩

/-- A match of a visit justifies its relation. -/
theorem justified_of_mem_found (hiterateInfos : ∀ l, (iterateInfos l).Perm l) {v : Visit}
    (hv : v ∈ allVisits iterateOwners snapshot) {m : Match}
    (hm : m ∈ v.found (observationsOf iterateOwners snapshot)
      (reverseOf iterateInfos (observationsOf iterateOwners snapshot))) {r : FdRelation}
    (hendpoint : r.endpoint = v.endpoint) (hcandidate : r.candidate = m.candidate)
    (hshared : r.shared = m.shared) : Justified snapshot r m.peer := by
  obtain ⟨owner, howner, hvisit⟩ := List.mem_flatMap.mp hv
  obtain ⟨hresource, hendpoints, hindex⟩ := mem_visits.mp hvisit
  have he : v.endpoint ∈ owner.2 := List.mem_of_getElem? hindex
  rw [← hendpoint] at he
  rcases Visit.source hm with hfellow | ⟨info, inode, hkind, hinfo, hpeer, howner', hunshared⟩
  · obtain ⟨index, hpeer, -, hfalse, hvalue, -, -⟩ := mem_resourceMatches.mp hfellow
    have hfellows : Fellows snapshot r.endpoint m.peer := by
      obtain ⟨raw, hraw, -, hall⟩ := exists_raw_of_mem_owners hiterate howner
      exact ⟨raw, hraw, hall _ he, hall _ (List.mem_of_getElem? (hendpoints ▸ hpeer))⟩
    rw [← hendpoint] at hvalue
    refine ⟨fun _ => hfellows, fun hs hkind => ⟨hfellows, ?_⟩, fun hs _ hkind => ?_, fun hc => ?_⟩
    · rw [← hshared, hs, decide_eq_false hkind, Bool.false_or] at hvalue
      simpa using hvalue.symm
    · rw [← hshared, hs, decide_eq_true hkind] at hvalue
      cases hvalue
    · rw [hcandidate, hfalse] at hc
      cases hc
  · obtain ⟨b, hbkind, rfl, hb⟩ := owns_of_mem_inodeOwners hiterate howner'
    have ha : Owns snapshot owner.1 r.endpoint := owns_of_mem_owners hiterate howner he
    have hcaptured : capturedInfo snapshot owner.1 = some info := hresource ▸ hinfo
    rw [← hendpoint] at hkind
    refine ⟨fun hs => ?_, fun _ hpipe => absurd hkind hpipe, fun _ hc _ => ?_,
      fun hc => ⟨hshared.trans hunshared, hkind, ?_⟩⟩
    · rw [hshared, hunshared] at hs
      cases hs
    · rcases mem_peerInodes.mp hpeer with ⟨-, hinode⟩ | ⟨htrue, -⟩
      · exact ⟨owner.1, b, info, ha, hb, hbkind, hcaptured, hinode⟩
      · rw [hcandidate, htrue] at hc
        cases hc
    · rcases mem_peerInodes.mp hpeer with ⟨hfalse, -⟩ | ⟨-, -, x, y, hlocal, hremote, hprotocol, -, hmem⟩
      · rw [hcandidate, hfalse] at hc
        cases hc
      · rw [hresource] at hmem
        obtain ⟨info', hreversed⟩ :=
          reversed_of_mem hiterateInfos hcaptured hlocal hremote hprotocol hmem
        exact ⟨owner.1, b, info, info', ha, hb, hbkind, hreversed⟩

end Reasons

end Procinsh.Analysis
