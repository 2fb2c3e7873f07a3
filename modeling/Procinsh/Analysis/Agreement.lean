import Procinsh.Analysis.DescriptorPeers
import Procinsh.Analysis.UnsharedRelations

/-!
# The two views of who talks to whom

The view of one process and the relations of the system are computed from the same descriptors and
the same sockets by different code.  Both agree with `Talks`: the peers of a descriptor are those
that it talks to, and the unshared relations join the pairs of which one talks to the other.  For the
relations the first match of a pair decides, so what has to be seen is that a pair that is found
unshared from one side is not found shared before.
-/

namespace Procinsh.Analysis

open Ipc

/-! ## What both views are made from -/

/-- The identity of a resource in the relations of the system. -/
def FdResource.identity (resource : FdResource) : IpcIdentity where
  kind := if resource.kind = .socket then .socket else .pipe
  device := .ofStat resource.device
  inode := resource.inode

/-- A descriptor as an owner of its resource in a snapshot of the system. -/
def Descriptor.fdEndpoint (d : Descriptor) : FdEndpoint where
  processId := d.processId
  fd := d.fd
  fdCount := 1
  resource := d.resource.identity
  kind := if d.resource.kind = .socket then .socket else .pipe
  access := .fromMode d.mode
  connectionStatus := if d.resource.kind = .socket then some .unknown else none

/-- The descriptors of pipes, FIFOs and sockets, and the sockets of one network namespace. -/
structure FdCapture where
  scan : List Descriptor
  sockets : OrderedMap UInt64 SocketInfo
  namespaces : OrderedMap UInt64 (UInt64 × UInt64)
  networkNamespace : UInt64 × UInt64
  /-- A process has a descriptor once. -/
  descriptors : (scan.map Descriptor.fdKey).Nodup
  /-- Different resources have different identities, in both views. -/
  resources : ∀ a ∈ scan, ∀ b ∈ scan, a.resource.key = b.resource.key ↔
    a.resource.identity = b.resource.identity
  /-- Peer inodes are recorded for UNIX sockets only. -/
  unixPeers : ∀ inode info, sockets.get? inode = some info → info.peerInode.isSome = true →
    ∃ socketType, info.protocol = .unix socketType
  /-- A TCP or UDP socket with both addresses is connected. -/
  connected : ∀ inode info, sockets.get? inode = some info → info.protocol.isTcpOrUdp = true →
    ∀ localAddr remoteAddr, info.localAddr = some localAddr → info.remoteAddr = some remoteAddr →
      info.state ≠ some .listen ∧ remoteAddr.isSpecified = true
  oneNamespace : ∀ inode info, sockets.get? inode = some info → info.protocol.isTcpOrUdp = true →
    namespaces.get? inode = some networkNamespace

/-- A snapshot of the system with the captured owners and sockets, and without relations. -/
def FdCapture.snapshot (capture : FdCapture) (base : SystemSnapshot) : SystemSnapshot :=
  { base with
    fdRelations := []
    rawOwners := (group (capture.scan.map fun d => (d.resource.identity, d.fdEndpoint))).entries
    rawSockets := capture.sockets.entries
    rawNamespaces := capture.namespaces.entries }

/-- The descriptors of a process with their peers and holders, from the same capture. -/
def FdCapture.view (capture : FdCapture) (orders : Orders) (capturedAt : UInt64)
    (warnings : List String) (id : ProcessId) : FileDescriptors :=
  processView orders capture.sockets capturedAt warnings capture.scan id

/-- The pairs of descriptors of which one is listed among the peers of the other. -/
def peerPairs (views : ProcessId → FileDescriptors) : Set (Sym2 (ProcessId × UInt32)) :=
  {t | ∃ id, ∃ entry ∈ (views id).entries, ∃ p ∈ entry.peers, t = s((id, entry.fd), p.fdKey)}

/-- The pairs of descriptors that an unshared relation joins. -/
def unsharedPairs (relations : List FdRelation) : Set (Sym2 (ProcessId × UInt32)) :=
  {t | ∃ r ∈ relations, ∃ peer, r.peer = some peer ∧ r.shared = false ∧
    t = s(r.endpoint.key, peer.key)}

/-- The pairs of descriptors of which one talks to the other. -/
def FdCapture.talkingPairs (capture : FdCapture) : Set (Sym2 (ProcessId × UInt32)) :=
  {t | ∃ d ∈ capture.scan, ∃ p ∈ capture.scan, Talks capture.sockets d p ∧
    t = s(d.fdKey, p.fdKey)}

variable {capture : FdCapture} {base : SystemSnapshot}

/-! ## The views of the processes -/

section Views

variable {orders : ProcessId → Orders} {capturedAt : ProcessId → UInt64}
  {warnings : ProcessId → List String}

/-- Without limits, the views list the pairs that talk. -/
theorem peerPairs_eq (hlimit : ∀ id, ∀ entry ∈ (capture.view (orders id) (capturedAt id)
      (warnings id) id).entries, ¬AtLimit entry) :
    peerPairs (fun id => capture.view (orders id) (capturedAt id) (warnings id) id) =
      capture.talkingPairs := by
  ext t
  constructor
  · rintro ⟨id, entry, hentry, peer, hpeer, rfl⟩
    have hnone := hlimit id entry hentry
    obtain ⟨d, hd, rfl, rfl⟩ := mem_processView.mp hentry
    obtain ⟨p, hp, hkey, htalks⟩ := (mem_peers_iff capture.descriptors hd hnone).mp
      (List.mem_map_of_mem hpeer)
    have hfd := (viewEntry_adds capture.descriptors hd hnone).fd
    exact ⟨d, hd, p, hp, htalks, by rw [hkey, hfd]; rfl⟩
  · rintro ⟨d, hd, p, hp, htalks, rfl⟩
    have hentry : viewEntry (orders d.processId) capture.sockets capture.scan d ∈
        (capture.view (orders d.processId) (capturedAt d.processId) (warnings d.processId)
          d.processId).entries := mem_processView.mpr ⟨d, hd, rfl, rfl⟩
    have hnone := hlimit d.processId _ hentry
    obtain ⟨peer, hpeer, hkey⟩ := List.mem_map.mp
      ((mem_peers_iff capture.descriptors hd hnone).mpr ⟨p, hp, rfl, htalks⟩)
    have hfd := (viewEntry_adds capture.descriptors hd hnone).fd
    exact ⟨d.processId, _, hentry, peer, hpeer, by rw [hkey, hfd]; rfl⟩

end Views

/-! ## The captured owners -/

/-- What the raw owners of a resource are. -/
theorem mem_rawOwners {owner : IpcIdentity × List FdEndpoint}
    (howner : owner ∈ (capture.snapshot base).rawOwners) {e : FdEndpoint} :
    e ∈ owner.2 ↔ ∃ d ∈ capture.scan, d.resource.identity = owner.1 ∧ d.fdEndpoint = e := by
  obtain ⟨hvalues, -⟩ := get?_group_eq_some_iff.mp (OrderedMap.get?_eq_some_iff.mpr howner)
  rw [hvalues, mem_valuesOf, List.mem_map]
  simp only [Prod.mk.injEq]

variable (base) in
/-- Every resource with an owner is captured. -/
theorem exists_rawOwner {d : Descriptor} (hd : d ∈ capture.scan) :
    ∃ owner ∈ (capture.snapshot base).rawOwners, owner.1 = d.resource.identity := by
  have hmem : d.fdEndpoint ∈ valuesOf d.resource.identity
      (capture.scan.map fun d => (d.resource.identity, d.fdEndpoint)) :=
    mem_valuesOf.mpr (List.mem_map_of_mem hd)
  have hget := get?_group_eq_some_iff.mpr ⟨rfl, List.ne_nil_of_mem hmem⟩
  exact ⟨_, OrderedMap.get?_eq_some_iff.mp hget, rfl⟩

/-- Every raw owner has an endpoint. -/
theorem exists_descriptor_of_rawOwner {owner : IpcIdentity × List FdEndpoint}
    (howner : owner ∈ (capture.snapshot base).rawOwners) :
    ∃ d ∈ capture.scan, d.resource.identity = owner.1 := by
  obtain ⟨-, hne⟩ := get?_group_eq_some_iff.mp (OrderedMap.get?_eq_some_iff.mpr howner)
  obtain ⟨e, he⟩ := List.exists_mem_of_ne_nil _ hne
  obtain ⟨d, hd, hidentity, -⟩ := (mem_rawOwners howner).mp he
  exact ⟨d, hd, hidentity⟩

theorem identity_kind_eq_socket {resource : FdResource} :
    resource.identity.kind = .socket ↔ resource.kind = .socket := by
  unfold FdResource.identity
  dsimp only
  split
  · next h => exact iff_of_true rfl h
  · next h => exact iff_of_false nofun h

theorem fdEndpoint_kind_eq_socket {d : Descriptor} :
    d.fdEndpoint.kind = .socket ↔ d.resource.kind = .socket := by
  unfold Descriptor.fdEndpoint
  dsimp only
  split
  · next h => exact iff_of_true rfl h
  · next h => exact iff_of_false nofun h

variable (capture base) in
/-- The snapshot of the system is one as it is captured. -/
theorem FdCapture.capturedSockets : CapturedSockets (capture.snapshot base) where
  resources := (group _).nodup
  inodes := by
    refine List.Nodup.map_on (fun x hx y hy hinode => ?_)
      (List.Nodup.filter _ (List.Nodup.of_map _ (group _).nodup))
    obtain ⟨hx, hxkind⟩ := List.mem_filter.mp hx
    obtain ⟨hy, hykind⟩ := List.mem_filter.mp hy
    obtain ⟨a, ha, hax⟩ := exists_descriptor_of_rawOwner hx
    obtain ⟨b, hb, hby⟩ := exists_descriptor_of_rawOwner hy
    have hakind : a.resource.kind = .socket :=
      identity_kind_eq_socket.mp (hax ▸ of_decide_eq_true hxkind)
    have hbkind : b.resource.kind = .socket :=
      identity_kind_eq_socket.mp (hby ▸ of_decide_eq_true hykind)
    have hinodes : a.resource.inode = b.resource.inode := by
      have h := congrArg IpcIdentity.inode hax
      rw [hinode, ← hby] at h
      exact h
    have hkeys : a.resource.key = b.resource.key :=
      (key_eq_socket_iff.mpr ⟨hakind, hinodes⟩).trans (key_eq_socket_iff.mpr ⟨hbkind, rfl⟩).symm
    have hidentities := (capture.resources a ha b hb).mp hkeys
    rw [hax, hby] at hidentities
    exact List.inj_on_of_nodup_map (group _).nodup hx hy hidentities
  descriptors := by
    refine List.nodup_flatMap.mpr ⟨fun owner howner => ?_, ?_⟩
    · obtain ⟨hvalues, -⟩ := get?_group_eq_some_iff.mp (OrderedMap.get?_eq_some_iff.mpr howner)
      have hkeys : capture.scan.map Descriptor.fdKey =
          (capture.scan.map fun d => (d.resource.identity, d.fdEndpoint)).map
            (FdEndpoint.key ∘ Prod.snd) := by
        rw [List.map_map]
        rfl
      have hnodup := capture.descriptors
      rw [hkeys] at hnodup
      rw [hvalues, valuesOf, List.map_map]
      exact hnodup.sublist (List.filter_sublist.map _)
    · refine List.Nodup.pairwise_of_forall_ne (List.Nodup.of_map _ (group _).nodup)
        fun x hx y hy hne => List.disjoint_left.mpr fun k hkx hky => hne ?_
      obtain ⟨e, he, rfl⟩ := List.mem_map.mp hkx
      obtain ⟨e', he', hkey⟩ := List.mem_map.mp hky
      obtain ⟨a, ha, hax, rfl⟩ := (mem_rawOwners hx).mp he
      obtain ⟨b, hb, hby, rfl⟩ := (mem_rawOwners hy).mp he'
      obtain rfl : b = a := List.inj_on_of_nodup_map capture.descriptors hb ha hkey
      exact List.inj_on_of_nodup_map (group _).nodup hx hy (hax.symm.trans hby)
  start := rfl
  sockets := capture.sockets.nodup
  namespaces := capture.namespaces.nodup
  unixPeers := by
    intro entry hentry hpeer
    obtain ⟨socketType, hprotocol⟩ := capture.unixPeers entry.1 entry.2
      (OrderedMap.get?_eq_some_iff.mpr hentry) hpeer
    rw [hprotocol]
    rfl

/-! ## What the visits find -/

/-- A mode is one of those with an access, or an unknown one that is opposite to none. -/
theorem mode_cases (a : Option UInt32) : a = some 0 ∨ a = some 1 ∨ a = some 2 ∨
    (FdAccess.fromMode a = .unknown ∧ ∀ b, pipeOpposite a b = false ∧ pipeOpposite b a = false) := by
  by_cases h0 : a = some 0
  · exact .inl h0
  by_cases h1 : a = some 1
  · exact .inr (.inl h1)
  by_cases h2 : a = some 2
  · exact .inr (.inr (.inl h2))
  refine .inr (.inr (.inr ⟨?_, fun b => ⟨?_, ?_⟩⟩))
  · unfold FdAccess.fromMode
    split <;> simp_all
  · unfold pipeOpposite
    split <;> simp_all
  · unfold pipeOpposite
    split <;> simp_all

/-- Both views compare the access of the ends of a pipe in the same way. -/
theorem opposite_fromMode (a b : Option UInt32) :
    (FdAccess.fromMode a).opposite (.fromMode b) = pipeOpposite a b := by
  have hright : ∀ a : Option UInt32, (a = some 0 ∨ a = some 1 ∨ a = some 2) →
      (FdAccess.fromMode a).opposite (.fromMode b) = pipeOpposite a b := by
    intro a ha
    rcases mode_cases b with rfl | rfl | rfl | ⟨hunknown, hnone⟩
    · rcases ha with rfl | rfl | rfl <;> rfl
    · rcases ha with rfl | rfl | rfl <;> rfl
    · rcases ha with rfl | rfl | rfl <;> rfl
    · rw [hunknown, (hnone a).2]
      rcases ha with rfl | rfl | rfl <;> rfl
  rcases mode_cases a with ha | ha | ha | ⟨hunknown, hnone⟩
  · exact hright a (.inl ha)
  · exact hright a (.inr (.inl ha))
  · exact hright a (.inr (.inr ha))
  · rw [hunknown, (hnone b).1]
    rfl

/-- The key of a connected socket. -/
theorem connectedSocketKey_eq_some {info : SocketInfo} {tcp : Bool}
    {localAddr remoteAddr : SocketAddr} :
    connectedSocketKey info = some (tcp, localAddr, remoteAddr) ↔
      info.localAddr = some localAddr ∧ info.remoteAddr = some remoteAddr ∧
        info.protocol.isTcpOrUdp = true ∧ remoteAddr.isSpecified = true ∧
        info.state ≠ some .listen ∧ tcp = info.protocol.isTcp := by
  unfold connectedSocketKey
  by_cases hprotocol : info.protocol.isTcpOrUdp = true
  · rw [hprotocol, Bool.not_true, if_neg Bool.false_ne_true]
    cases hlocal : info.localAddr with
    | none => simp
    | some x =>
      cases hremote : info.remoteAddr with
      | none => simp
      | some y =>
        dsimp only
        split
        · next hguard =>
          refine iff_of_false nofun ?_
          rintro ⟨-, hy, -, hspecified, hstate, -⟩
          cases hy
          rw [hspecified] at hguard
          simp [hstate] at hguard
        · next hguard =>
          simp only [Bool.or_eq_true, decide_eq_true_eq, Bool.not_eq_true', not_or,
            Bool.not_eq_false] at hguard
          constructor
          · intro h
            cases h
            exact ⟨rfl, rfl, rfl, hguard.2, hguard.1, rfl⟩
          · rintro ⟨hx, hy, -, -, -, rfl⟩
            cases hx
            cases hy
            rfl
  · simp [hprotocol]

section Visits

variable {iterateOwners : List (IpcIdentity × List FdEndpoint) → List (IpcIdentity × List FdEndpoint)}
  {iterateInfos : List (UInt64 × SocketInfo) → List (UInt64 × SocketInfo)}
  (hiterate : ∀ l, (iterateOwners l).Perm l)
include hiterate

/-- An owner that the map has is a captured descriptor. -/
theorem exists_descriptor {owner : IpcIdentity × List FdEndpoint}
    (howner : owner ∈ (observationsOf iterateOwners (capture.snapshot base)).owners.entries)
    {e : FdEndpoint} (he : e ∈ owner.2) :
    ∃ d ∈ capture.scan, d.resource.identity = owner.1 ∧ SameFd e d.fdEndpoint := by
  obtain ⟨raw, hraw, hresource, hall⟩ := exists_raw_of_mem_owners hiterate howner
  obtain ⟨r, hr, hsame⟩ := hall e he
  obtain ⟨d, hd, hidentity, rfl⟩ := (mem_rawOwners hraw).mp hr
  exact ⟨d, hd, hidentity.trans hresource, hsame⟩

variable (base) in
/-- A resource with a captured descriptor has an owner for it in the map. -/
theorem exists_owner {d : Descriptor} (hd : d ∈ capture.scan) :
    ∃ owner ∈ (observationsOf iterateOwners (capture.snapshot base)).owners.entries,
      owner.1 = d.resource.identity ∧ ∀ p ∈ capture.scan, p.resource.identity = d.resource.identity →
        ∃ e ∈ owner.2, SameFd e p.fdEndpoint := by
  obtain ⟨raw, hraw, hresource⟩ := exists_rawOwner base hd
  refine ⟨_, (capture.capturedSockets base).mem_owners hiterate hraw, hresource, fun p hp hsame => ?_⟩
  have hmem := (mem_rawOwners hraw).mpr ⟨p, hp, hsame.trans hresource.symm, rfl⟩
  exact exists_prepared_of_mem_raw hmem

omit hiterate in
theorem get?_infos (inode : UInt64) :
    (observationsOf iterateOwners (capture.snapshot base)).infos.get? inode =
      capture.sockets.get? inode :=
  OrderedMap.get?_ofList_of_perm_entries (List.Perm.refl _) inode

omit hiterate in
theorem get?_namespaces (inode : UInt64) :
    (observationsOf iterateOwners (capture.snapshot base)).namespaces.get? inode =
      capture.namespaces.get? inode :=
  OrderedMap.get?_ofList_of_perm_entries (List.Perm.refl _) inode

omit hiterate in
/-- Both views find the same sockets at the other end of a socket. -/
theorem exists_mem_peerInodes_iff (hiterateInfos : ∀ l, (iterateInfos l).Perm l)
    {inode peer : UInt64} {info : SocketInfo} (hinfo : capture.sockets.get? inode = some info) :
    (∃ candidate, (peer, candidate) ∈
        peerInodes (observationsOf iterateOwners (capture.snapshot base))
          (reverseOf iterateInfos (observationsOf iterateOwners (capture.snapshot base))) inode info) ↔
      OtherEnd capture.sockets inode info peer := by
  simp only [mem_peerInodes, mem_reverseOf hiterateInfos, get?_infos, get?_namespaces]
  constructor
  · rintro ⟨_, ⟨-, hpeer⟩ | ⟨-, hpeer, x, y, hlocal, hremote, hprotocol, hne, other, hother, hreverse⟩⟩
    · exact .recorded hpeer
    · obtain ⟨-, x', y', hlocal', hremote', hprotocol', hspecified', hstate', htuple⟩ :=
        reverseEntry_eq_some.mp hreverse
      simp only [Prod.mk.injEq] at htuple
      obtain ⟨-, htcp, rfl, rfl⟩ := htuple
      obtain ⟨hstate, hspecified⟩ := capture.connected inode info hinfo hprotocol x y hlocal hremote
      refine .reversed info.protocol.isTcp x y other hpeer ?_ hother ?_ hne
      · exact connectedSocketKey_eq_some.mpr
          ⟨hlocal, hremote, hprotocol, hspecified, hstate, rfl⟩
      · exact connectedSocketKey_eq_some.mpr
          ⟨hlocal', hremote', hprotocol', hspecified', hstate', htcp⟩
  · rintro (hpeer | ⟨tcp, x, y, other, hpeer, hkey, hother, hreversed, hne⟩)
    · exact ⟨false, .inl ⟨rfl, hpeer⟩⟩
    · obtain ⟨hlocal, hremote, hprotocol, -, -, rfl⟩ := connectedSocketKey_eq_some.mp hkey
      obtain ⟨hlocal', hremote', hprotocol', hspecified', hstate', htcp⟩ :=
        connectedSocketKey_eq_some.mp hreversed
      refine ⟨true, .inr ⟨rfl, hpeer, x, y, hlocal, hremote, hprotocol, hne, other, hother, ?_⟩⟩
      refine reverseEntry_eq_some.mpr
        ⟨rfl, y, x, hlocal', hremote', hprotocol', hspecified', hstate', ?_⟩
      rw [get?_namespaces, capture.oneNamespace inode info hinfo hprotocol,
        capture.oneNamespace peer other hother hprotocol', htcp]

/-- What is found unshared are the descriptors that an endpoint talks to. -/
theorem talks_of_mem_found (hiterateInfos : ∀ l, (iterateInfos l).Perm l) {v : Visit}
    (hv : v ∈ allVisits iterateOwners (capture.snapshot base)) {m : Match}
    (hm : m ∈ v.found (observationsOf iterateOwners (capture.snapshot base))
      (reverseOf iterateInfos (observationsOf iterateOwners (capture.snapshot base))))
    (hunshared : m.shared = false) : ∃ d ∈ capture.scan, ∃ p ∈ capture.scan,
      v.endpoint.key = d.fdKey ∧ m.peer.key = p.fdKey ∧ Talks capture.sockets d p := by
  obtain ⟨owner, howner, hvisit⟩ := List.mem_flatMap.mp hv
  obtain ⟨hresource, hendpoints, hindex⟩ := mem_visits.mp hvisit
  obtain ⟨d, hd, hidentity, hdsame⟩ := exists_descriptor hiterate howner (List.mem_of_getElem? hindex)
  rcases Visit.source hm with hfellow | ⟨info, inode, hkind, hinfo, hpeer, hinodeOwner, -⟩
  · obtain ⟨_, hget, hne, -, hvalue, -, -⟩ := mem_resourceMatches.mp hfellow
    obtain ⟨p, hp, hidentity', hpsame⟩ :=
      exists_descriptor hiterate howner (List.mem_of_getElem? (hendpoints ▸ hget))
    rw [hunshared, eq_comm, Bool.or_eq_false_iff, decide_eq_false_iff_not, hdsame.kind,
      hdsame.access, hpsame.access, fdEndpoint_kind_eq_socket] at hvalue
    refine ⟨d, hd, p, hp, hdsame.key, hpsame.key, .pipe ?_ ?_ hvalue.1 ?_⟩
    · exact (capture.resources p hp d hd).mpr (hidentity'.trans hidentity.symm)
    · intro hkeys
      exact hne (hdsame.key.trans (hkeys.symm.trans hpsame.key.symm))
    · rw [← opposite_fromMode]
      have hopposite : (!(FdAccess.fromMode d.mode).opposite (.fromMode p.mode)) = false := hvalue.2
      simpa using hopposite
  · obtain ⟨owner', howner', hsocket, rfl, ho⟩ := exists_of_mem_inodeOwners hinodeOwner
    obtain ⟨p, hp, hidentity', hpsame⟩ := exists_descriptor hiterate howner' ho
    have hinode : v.resource.inode = d.resource.inode := by
      rw [hresource, ← hidentity]
      rfl
    have hinode' : owner'.1.inode = p.resource.inode := by
      rw [← hidentity']
      rfl
    rw [hinode, hinode'] at hpeer
    rw [hinode, get?_infos] at hinfo
    refine ⟨d, hd, p, hp, hdsame.key, hpsame.key, .socket info ?_ hinfo ?_ ?_⟩
    · exact fdEndpoint_kind_eq_socket.mp (hdsame.kind.symm.trans hkind)
    · exact identity_kind_eq_socket.mp (hidentity' ▸ hsocket)
    · exact (exists_mem_peerInodes_iff hiterateInfos hinfo).mp ⟨_, hpeer⟩

variable (base) in
/-- A descriptor that another talks to is found unshared. -/
theorem exists_found_of_talks (hiterateInfos : ∀ l, (iterateInfos l).Perm l) {d p : Descriptor}
    (hd : d ∈ capture.scan) (hp : p ∈ capture.scan) (htalks : Talks capture.sockets d p) :
    ∃ v ∈ allVisits iterateOwners (capture.snapshot base),
      ∃ m ∈ v.found (observationsOf iterateOwners (capture.snapshot base))
        (reverseOf iterateInfos (observationsOf iterateOwners (capture.snapshot base))),
        m.shared = false ∧ v.endpoint.key = d.fdKey ∧ m.peer.key = p.fdKey := by
  obtain ⟨owner, howner, hresource, hall⟩ := exists_owner base hiterate hd
  obtain ⟨e, he, hesame⟩ := hall d hd rfl
  obtain ⟨v, hv, hvresource, hendpoints, rfl⟩ := exists_visit howner he
  rcases htalks with ⟨hkey, hne, hpipe, hopposite⟩ | ⟨info, hkind, hinfo, hkind', hend⟩
  · obtain ⟨f, hf, hfsame⟩ := hall p hp ((capture.resources p hp d hd).mp hkey)
    obtain ⟨index, hindex⟩ := List.mem_iff_getElem?.mp hf
    have hmatch : (⟨f, false, false, v.endpoint.kind.display⟩ : Match) ∈
        resourceMatches v.endpoints v.index v.endpoint := by
      refine mem_resourceMatches.mpr ⟨index, hendpoints ▸ hindex, fun hkeys => ?_, rfl, ?_, rfl,
        fun hs => ?_⟩
      · exact hne (hfsame.key.symm.trans (hkeys.symm.trans hesame.key))
      · have haccess : v.endpoint.access.opposite f.access = true := by
          rw [hesame.access, hfsame.access]
          exact (opposite_fromMode d.mode p.mode).trans hopposite
        have hpipeEnd : v.endpoint.kind ≠ .socket := by
          rw [hesame.kind]
          exact fun h => hpipe (fdEndpoint_kind_eq_socket.mp h)
        rw [haccess, decide_eq_false hpipeEnd]
        rfl
      · cases hs.1
    exact ⟨v, hv, _, mem_endpointMatches.mpr (.inl hmatch), rfl, hesame.key, hfsame.key⟩
  · obtain ⟨owner', howner', hresource', hall'⟩ := exists_owner base hiterate hp
    obtain ⟨f, hf, hfsame⟩ := hall' p hp rfl
    have hinode : v.resource.inode = d.resource.inode := by
      rw [hvresource, hresource]
      rfl
    have hsocket : owner'.1.kind = .socket := by
      rw [hresource']
      exact identity_kind_eq_socket.mpr hkind'
    have howners := inodeOwners_eq ((capture.capturedSockets base).nodup_inodes hiterate) howner'
      hsocket
    obtain ⟨candidate, hpeer⟩ := (exists_mem_peerInodes_iff hiterateInfos hinfo).mpr hend
    have hmatch : (⟨f, candidate, false, info.protocol.display⟩ : Match) ∈
        socketMatches (observationsOf iterateOwners (capture.snapshot base))
          (reverseOf iterateInfos (observationsOf iterateOwners (capture.snapshot base)))
          v.resource.inode info := by
      refine mem_socketMatches.mpr ⟨p.resource.inode, hinode.symm ▸ hpeer, ?_, rfl, rfl⟩
      have hinode' : owner'.1.inode = p.resource.inode := by
        rw [hresource']
        rfl
      rw [← hinode', howners]
      exact hf
    have hsocketEnd : v.endpoint.kind = .socket :=
      hesame.kind.trans (fdEndpoint_kind_eq_socket.mpr hkind)
    have hsocketInfo : (observationsOf iterateOwners (capture.snapshot base)).infos.get?
        v.resource.inode = some info := by
      rw [get?_infos, hinode, hinfo]
    exact ⟨v, hv, _, mem_endpointMatches.mpr (.inr ⟨info, hsocketEnd, hsocketInfo, hmatch⟩), rfl,
      hesame.key, hfsame.key⟩

end Visits

/-! ## Agreement -/

/-- The endpoints of one resource are all sockets or all not. -/
theorem kind_eq_of_mem_owner {iterateOwners :
      List (IpcIdentity × List FdEndpoint) → List (IpcIdentity × List FdEndpoint)}
    (hiterate : ∀ l, (iterateOwners l).Perm l) {owner : IpcIdentity × List FdEndpoint}
    (howner : owner ∈ (observationsOf iterateOwners (capture.snapshot base)).owners.entries)
    {a b : FdEndpoint} (ha : a ∈ owner.2) (hb : b ∈ owner.2) : a.kind = b.kind := by
  obtain ⟨d, -, hd, hda⟩ := exists_descriptor hiterate howner ha
  obtain ⟨p, -, hp, hpb⟩ := exists_descriptor hiterate howner hb
  have hkinds : d.resource.kind = .socket ↔ p.resource.kind = .socket := by
    rw [← identity_kind_eq_socket, ← identity_kind_eq_socket, hd, hp]
  rw [hda.kind, hpb.kind, Descriptor.fdEndpoint, Descriptor.fdEndpoint]
  exact if_congr hkinds rfl rfl

/-- Without limits, the unshared relations join the pairs that talk. -/
theorem unsharedPairs_eq {iterateOwners :
      List (IpcIdentity × List FdEndpoint) → List (IpcIdentity × List FdEndpoint)}
    {iterateInfos : List (UInt64 × SocketInfo) → List (UInt64 × SocketInfo)}
    (hiterate : ∀ l, (iterateOwners l).Perm l) (hiterateInfos : ∀ l, (iterateInfos l).Perm l)
    (hlimit : (buildIpcRelations iterateOwners iterateInfos (capture.snapshot base)).2 = false) :
    unsharedPairs (buildIpcRelations iterateOwners iterateInfos
      (capture.snapshot base)).1.fdRelations = capture.talkingPairs := by
  have hcaptured := capture.capturedSockets base
  obtain ⟨kept, enrich, hkeeps, hsame, hrelations⟩ :=
    exists_keeps iterateOwners iterateInfos .standard (capture.snapshot base)
  have hstart : (capture.snapshot base).fdRelations.length < Limits.standard.relations :=
    Nat.zero_lt_succ _
  have hall := hkeeps.complete hstart hlimit
  have hfound := fun t => @exists_unshared_iff _ _ _ _ hcaptured hiterate
    (fun owner howner a ha b hb => kind_eq_of_mem_owner hiterate howner ha hb) hiterateInfos hall t
  have hresult : (buildIpcRelations iterateOwners iterateInfos
      (capture.snapshot base)).1.fdRelations = kept.map enrich := hrelations
  ext t
  constructor
  · rintro ⟨s, hs, peer, hpeer, hunshared, rfl⟩
    rw [hresult] at hs
    obtain ⟨r, hr, rfl⟩ := List.mem_map.mp hs
    rw [(hsame r).peer] at hpeer
    rw [(hsame r).shared] at hunshared
    rw [(hsame r).endpoint]
    obtain ⟨v, hv, m, hm, hfalse, hpair⟩ := (hfound _).mp ⟨r, hr, peer, hpeer, hunshared, rfl⟩
    obtain ⟨d, hd, p, hp, hdkey, hpkey, htalks⟩ :=
      talks_of_mem_found hiterate hiterateInfos hv hm hfalse
    exact ⟨d, hd, p, hp, htalks, by rw [hpair, hdkey, hpkey]⟩
  · rintro ⟨d, hd, p, hp, htalks, rfl⟩
    obtain ⟨v, hv, m, hm, hfalse, hdkey, hpkey⟩ :=
      exists_found_of_talks base hiterate hiterateInfos hd hp htalks
    obtain ⟨r, hr, peer, hpeer, hunshared, hpair⟩ := (hfound _).mpr ⟨v, hv, m, hm, hfalse, rfl⟩
    rw [hdkey, hpkey] at hpair
    refine ⟨enrich r, hresult ▸ List.mem_map_of_mem hr, peer, (hsame r).peer.trans hpeer,
      (hsame r).shared.trans hunshared, ?_⟩
    rw [(hsame r).endpoint, hpair]

/-- The view of a process lists a descriptor among the holders of one of its own. -/
def ListsHolder (views : ProcessId → FileDescriptors) (d p : Descriptor) : Prop :=
  ∃ entry ∈ (views d.processId).entries, entry.fd = d.fd ∧
    ∃ holder ∈ entry.holders, holder.fdKey = p.fdKey

/-- When neither side reaches a limit, the pairs that the views of the processes list as peers are
those that an unshared relation of the system joins; and two descriptors of one resource that are no
such pair list each other as holders. -/
theorem peerPairs_eq_unsharedPairs
    {iterateOwners : List (IpcIdentity × List FdEndpoint) → List (IpcIdentity × List FdEndpoint)}
    {iterateInfos : List (UInt64 × SocketInfo) → List (UInt64 × SocketInfo)}
    (hiterate : ∀ l, (iterateOwners l).Perm l) (hiterateInfos : ∀ l, (iterateInfos l).Perm l)
    (capture : FdCapture) (base : SystemSnapshot) (orders : ProcessId → Orders)
    (capturedAt : ProcessId → UInt64) (warnings : ProcessId → List String)
    (hsystem : (buildIpcRelations iterateOwners iterateInfos (capture.snapshot base)).2 = false)
    (hviews : ∀ id, ∀ entry ∈ (capture.view (orders id) (capturedAt id) (warnings id) id).entries,
      ¬AtLimit entry) :
    let views := fun id => capture.view (orders id) (capturedAt id) (warnings id) id
    peerPairs views = unsharedPairs
        (buildIpcRelations iterateOwners iterateInfos (capture.snapshot base)).1.fdRelations ∧
      ∀ d ∈ capture.scan, ∀ p ∈ capture.scan, d.resource.key = p.resource.key →
        d.fdKey ≠ p.fdKey → s(d.fdKey, p.fdKey) ∉ peerPairs views →
        ListsHolder views d p ∧ ListsHolder views p d := by
  intro views
  have hpairs : peerPairs views = capture.talkingPairs := peerPairs_eq hviews
  rw [hpairs, unsharedPairs_eq hiterate hiterateInfos hsystem]
  refine ⟨rfl, ?_⟩
  have hlists : ∀ d ∈ capture.scan, ∀ p ∈ capture.scan, d.resource.key = p.resource.key →
      d.fdKey ≠ p.fdKey → s(d.fdKey, p.fdKey) ∉ capture.talkingPairs → ListsHolder views d p := by
    intro d hd p hp hsame hne hnone
    have hentry : viewEntry (orders d.processId) capture.sockets capture.scan d ∈
        (views d.processId).entries := mem_processView.mpr ⟨d, hd, rfl, rfl⟩
    have hlimit := hviews d.processId _ hentry
    have htalks : ¬Talks capture.sockets d p := fun h => hnone ⟨d, hd, p, hp, h, rfl⟩
    obtain ⟨holder, hholder, hkey⟩ := List.mem_map.mp
      (mem_holders capture.descriptors hd hlimit hp hsame.symm hne.symm htalks)
    exact ⟨_, hentry, (viewEntry_adds capture.descriptors hd hlimit).fd, holder, hholder, hkey⟩
  intro d hd p hp hsame hne hnone
  have hnone' : s(p.fdKey, d.fdKey) ∉ capture.talkingPairs := by
    rwa [Sym2.eq_swap]
  exact ⟨hlists d hd p hp hsame hne hnone, hlists p hp d hd hsame.symm hne.symm hnone'⟩

/-! ### An example -/

def pipeDescriptor (pid : Int32) (fd : UInt32) (mode : UInt32) : Descriptor :=
  ⟨⟨pid, 1⟩, "sh", fd, ⟨.pipe, 14, 7⟩, "pipe:[7]", some mode, none, .unknown⟩

def socketDescriptor (pid : Int32) (fd : UInt32) (inode : UInt64) : Descriptor :=
  ⟨⟨pid, 1⟩, "sh", fd, ⟨.socket, 8, inode⟩, "socket:[8]", some 2, some 8, .unknown⟩

/-- A socket that is its own peer, and the two ends of a connection. -/
def capturedSockets : OrderedMap UInt64 SocketInfo :=
  .ofList [(8, unixInfo 8), (9, tcpInfo serverAddr clientAddr), (10, tcpInfo clientAddr serverAddr)]

theorem capturedSockets_cases {inode : UInt64} {info : SocketInfo}
    (h : capturedSockets.get? inode = some info) : (inode, info) = (8, unixInfo 8) ∨
      (inode, info) = (9, tcpInfo serverAddr clientAddr) ∨
      (inode, info) = (10, tcpInfo clientAddr serverAddr) := by
  have hmem := OrderedMap.mem_of_mem_entries_ofList (OrderedMap.get?_eq_some_iff.mp h)
  rw [List.mem_cons, List.mem_cons, List.mem_singleton] at hmem
  exact hmem

/-- A pipe with a writer and two readers, a socket that is its own peer with two owners, and a
connection. -/
def capturedFds : FdCapture where
  scan := [pipeDescriptor 2 1 1, pipeDescriptor 3 0 0, pipeDescriptor 3 3 0, socketDescriptor 4 5 8,
    socketDescriptor 4 6 8, socketDescriptor 5 5 9, socketDescriptor 6 5 10]
  sockets := capturedSockets
  namespaces := .ofList [(9, (4, 1)), (10, (4, 1))]
  networkNamespace := (4, 1)
  descriptors := by decide
  resources := by decide
  unixPeers := by
    intro inode info hget hpeer
    rcases capturedSockets_cases hget with hcase | hcase | hcase
    · cases hcase
      exact ⟨_, rfl⟩
    · cases hcase
      cases hpeer
    · cases hcase
      cases hpeer
  connected := by
    intro inode info hget hprotocol localAddr remoteAddr hlocal hremote
    rcases capturedSockets_cases hget with hcase | hcase | hcase
    · cases hcase
      cases hprotocol
    · cases hcase
      cases hremote
      decide
    · cases hcase
      cases hremote
      decide
  oneNamespace := by
    intro inode info hget hprotocol
    rcases capturedSockets_cases hget with hcase | hcase | hcase
    · cases hcase
      cases hprotocol
    · cases hcase
      rfl
    · cases hcase
      rfl

/-- The hash maps in the order in which they were filled. -/
def Orders.standard : Orders := ⟨⟨id, List.Perm.refl⟩, ⟨id, List.Perm.refl⟩, ⟨id, List.Perm.refl⟩⟩

/-- The views of the processes and of the system agree, and the two readers of the pipe list each
other as holders. -/
theorem peerPairs_eq_unsharedPairs_capturedFds :
    let views := fun id => capturedFds.view .standard 0 [] id
    peerPairs views =
        unsharedPairs (buildIpcRelations id id (capturedFds.snapshot capturedSnapshot)).1.fdRelations ∧
      ListsHolder views (pipeDescriptor 3 0 0) (pipeDescriptor 3 3 0) := by
  have hviews : ∀ d ∈ capturedFds.scan,
      ¬AtLimit (viewEntry .standard capturedFds.sockets capturedFds.scan d) := by decide +kernel
  obtain ⟨hpairs, hholders⟩ := peerPairs_eq_unsharedPairs (fun l => List.Perm.refl l)
    (fun l => List.Perm.refl l) capturedFds capturedSnapshot (fun _ => .standard) (fun _ => 0)
    (fun _ => []) (by decide +kernel) fun id entry hentry => by
      obtain ⟨d, hd, -, rfl⟩ := mem_processView.mp hentry
      exact hviews d hd
  have hpeers : ∀ d ∈ capturedFds.scan,
      ∀ p ∈ (viewEntry .standard capturedFds.sockets capturedFds.scan d).peers,
        s((pipeDescriptor 3 0 0).fdKey, (pipeDescriptor 3 3 0).fdKey) ≠ s((d.processId,
          (viewEntry .standard capturedFds.sockets capturedFds.scan d).fd), p.fdKey) := by
    decide +kernel
  refine ⟨hpairs, (hholders (pipeDescriptor 3 0 0) ?_ (pipeDescriptor 3 3 0) ?_ rfl (by decide)
    ?_).1⟩
  · exact List.mem_cons_of_mem _ List.mem_cons_self
  · exact List.mem_cons_of_mem _ (List.mem_cons_of_mem _ List.mem_cons_self)
  · rintro ⟨id, entry, hentry, peer, hpeer, hpair⟩
    obtain ⟨d, hd, rfl, rfl⟩ := mem_processView.mp hentry
    exact hpeers d hd peer hpeer hpair

end Procinsh.Analysis
