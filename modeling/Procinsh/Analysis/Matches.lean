import Procinsh.Analysis.Relations

/-!
# What the maps and the matches contain

Membership in the owners of the resources, in the owners of a socket with an inode, and in the peers
that are found for an endpoint, as the sources say it.
-/

namespace Procinsh

namespace Ipc

/-- The process and the descriptor. -/
def FdEndpoint.key (endpoint : FdEndpoint) : ProcessId × UInt32 := (endpoint.processId, endpoint.fd)

variable {a b : FdEndpoint}

theorem FdEndpoint.key_eq_iff : a.key = b.key ↔ a.processId = b.processId ∧ a.fd = b.fd :=
  Prod.ext_iff

theorem FdEndpoint.position_eq_iff : a.position = b.position ↔ a.key = b.key := by
  obtain ⟨⟨pid, start⟩, fd, _, _, _, _, _⟩ := a
  obtain ⟨⟨pid', start'⟩, fd', _, _, _, _, _⟩ := b
  simp [FdEndpoint.position, FdEndpoint.key, Int32.toInt_inj, UInt64.toNat_inj, UInt32.toNat_inj,
    and_assoc]

end Ipc

namespace Analysis

open Ipc

/-! ## Owners -/

/-- Owners that may differ in the connection status only. -/
structure SameFd (a b : FdEndpoint) : Prop where
  key : a.key = b.key
  fdCount : a.fdCount = b.fdCount
  resource : a.resource = b.resource
  kind : a.kind = b.kind
  access : a.access = b.access

/-- The owners of a resource as the maps have them. -/
def preparedOwners (snapshot : SystemSnapshot) (owner : IpcIdentity × List FdEndpoint) :
    IpcIdentity × List FdEndpoint :=
  (owner.1, sortByKey FdEndpoint.position (withStatus (OrderedMap.ofList snapshot.rawSockets)
    (OrderedMap.ofList snapshot.rawConnections) owner.1 owner.2))

section Owners

variable {iterateOwners : List (IpcIdentity × List FdEndpoint) → List (IpcIdentity × List FdEndpoint)}
  {snapshot : SystemSnapshot}

/-- The owners are those of the snapshot, in the order of the hash map. -/
theorem entries_owners (hiterate : ∀ l, (iterateOwners l).Perm l) :
    (observationsOf iterateOwners snapshot).owners.entries =
      (iterateOwners (OrderedMap.ofList snapshot.rawOwners).entries).map
        (preparedOwners snapshot) := by
  refine OrderedMap.entries_ofList ?_
  rw [List.map_map]
  exact ((hiterate _).map Prod.fst).nodup_iff.mpr (OrderedMap.ofList snapshot.rawOwners).nodup

/-- Owners that the maps have are owners that were captured. -/
theorem exists_of_mem_withStatus {infos : OrderedMap UInt64 SocketInfo}
    {metadata : OrderedMap IpcIdentity SocketConnectionStatus} {resource : IpcIdentity}
    {endpoints : List FdEndpoint} {e : FdEndpoint}
    (h : e ∈ withStatus infos metadata resource endpoints) : ∃ raw ∈ endpoints, SameFd e raw := by
  unfold withStatus at h
  split at h
  · exact ⟨e, h, rfl, rfl, rfl, rfl, rfl⟩
  · obtain ⟨raw, hraw, rfl⟩ := List.mem_map.mp h
    exact ⟨raw, hraw, rfl, rfl, rfl, rfl, rfl⟩

theorem exists_mem_withStatus (infos : OrderedMap UInt64 SocketInfo)
    (metadata : OrderedMap IpcIdentity SocketConnectionStatus) (resource : IpcIdentity)
    {endpoints : List FdEndpoint} {raw : FdEndpoint} (h : raw ∈ endpoints) :
    ∃ e ∈ withStatus infos metadata resource endpoints, SameFd e raw := by
  unfold withStatus
  split
  · exact ⟨raw, h, rfl, rfl, rfl, rfl, rfl⟩
  · exact ⟨_, List.mem_map_of_mem h, rfl, rfl, rfl, rfl, rfl⟩

theorem map_key_withStatus {infos : OrderedMap UInt64 SocketInfo}
    {metadata : OrderedMap IpcIdentity SocketConnectionStatus} {resource : IpcIdentity}
    {endpoints : List FdEndpoint} :
    (withStatus infos metadata resource endpoints).map FdEndpoint.key =
      endpoints.map FdEndpoint.key := by
  unfold withStatus
  split
  · rfl
  · rw [List.map_map]
    rfl

/-- The owners of a resource are prepared from captured ones. -/
theorem mem_owners (hiterate : ∀ l, (iterateOwners l).Perm l) {owner : IpcIdentity × List FdEndpoint} :
    owner ∈ (observationsOf iterateOwners snapshot).owners.entries ↔
      ∃ raw ∈ (OrderedMap.ofList snapshot.rawOwners).entries, preparedOwners snapshot raw = owner := by
  rw [entries_owners hiterate, List.mem_map]
  simp only [(hiterate _).mem_iff]

/-- The captured owner behind an owner of a resource. -/
theorem exists_raw_of_mem_prepared {raw : IpcIdentity × List FdEndpoint} {e : FdEndpoint}
    (h : e ∈ (preparedOwners snapshot raw).2) : ∃ r ∈ raw.2, SameFd e r :=
  exists_of_mem_withStatus (mem_sortByKey.mp h)

/-- The owner of a resource behind a captured one. -/
theorem exists_prepared_of_mem_raw {raw : IpcIdentity × List FdEndpoint} {r : FdEndpoint}
    (h : r ∈ raw.2) : ∃ e ∈ (preparedOwners snapshot raw).2, SameFd e r := by
  obtain ⟨e, he, hsame⟩ := exists_mem_withStatus (OrderedMap.ofList snapshot.rawSockets)
    (OrderedMap.ofList snapshot.rawConnections) raw.1 h
  exact ⟨e, mem_sortByKey.mpr he, hsame⟩

theorem perm_key_prepared (raw : IpcIdentity × List FdEndpoint) :
    ((preparedOwners snapshot raw).2.map FdEndpoint.key).Perm (raw.2.map FdEndpoint.key) := by
  have hperm := (List.perm_insertionSort (fun x y : FdEndpoint => x.position ≤ y.position)
    (withStatus (OrderedMap.ofList snapshot.rawSockets) (OrderedMap.ofList snapshot.rawConnections)
      raw.1 raw.2)).map FdEndpoint.key
  rwa [map_key_withStatus] at hperm

end Owners

/-! ## Sockets by inode -/

variable {observations : Observations} {reverse : OrderedMap Tuple (List UInt64)}

/-- The owners of a socket with an inode own a socket with the inode. -/
theorem exists_of_mem_inodeOwners {inode : UInt64} {o : FdEndpoint}
    (h : o ∈ inodeOwners observations inode) : ∃ owner ∈ observations.owners.entries,
      owner.1.kind = .socket ∧ owner.1.inode = inode ∧ o ∈ owner.2 := by
  unfold inodeOwners at h
  cases hresource : (byInode observations.owners).get? inode with
  | none =>
    rw [hresource] at h
    cases h
  | some resource =>
    rw [hresource, Option.bind_some] at h
    cases howners : observations.owners.get? resource with
    | none =>
      rw [howners] at h
      cases h
    | some endpoints =>
      rw [howners] at h
      have hentry := OrderedMap.mem_of_mem_entries_ofList (OrderedMap.get?_eq_some_iff.mp hresource)
      obtain ⟨owner, -, howner⟩ := List.mem_filterMap.mp hentry
      split at howner
      · next hkind =>
        cases howner
        exact ⟨(owner.1, endpoints), OrderedMap.get?_eq_some_iff.mp howners, hkind, rfl, h⟩
      · cases howner

/-- The inodes of the sockets. -/
def socketInodes (owners : List (IpcIdentity × List FdEndpoint)) : List UInt64 :=
  (owners.filter fun owner => owner.1.kind = .socket).map fun owner => owner.1.inode

/-- When the inodes of the sockets are distinct, the owners of a socket are found by its inode. -/
theorem inodeOwners_eq (h : (socketInodes observations.owners.entries).Nodup)
    {owner : IpcIdentity × List FdEndpoint} (howner : owner ∈ observations.owners.entries)
    (hkind : owner.1.kind = .socket) : inodeOwners observations owner.1.inode = owner.2 := by
  have hkeys : ((observations.owners.entries.filterMap fun entry =>
      if entry.1.kind = .socket then some (entry.1.inode, entry.1) else none).map
        Prod.fst) = socketInodes observations.owners.entries := by
    unfold socketInodes
    rw [List.map_filterMap, ← List.filterMap_eq_map, List.filterMap_filter]
    refine List.filterMap_congr fun entry _ => ?_
    by_cases hentry : entry.1.kind = .socket
    · simp [hentry]
    · simp [hentry]
  have hget : (byInode observations.owners).get? owner.1.inode = some owner.1 := by
    refine OrderedMap.get?_setAll_of_mem (hkeys ▸ h) (List.mem_filterMap.mpr ⟨owner, howner, ?_⟩) _
    rw [if_pos hkind]
  have howners : observations.owners.get? owner.1 = some owner.2 :=
    OrderedMap.get?_eq_some_iff.mpr howner
  rw [inodeOwners, hget, Option.bind_some, howners]
  rfl

/-! ## Matches -/

/-- The peers among the owners of the same resource. -/
theorem mem_resourceMatches {endpoints : List FdEndpoint} {index : ℕ} {e : FdEndpoint} {m : Match} :
    m ∈ resourceMatches endpoints index e ↔ ∃ peerIndex : ℕ, endpoints[peerIndex]? = some m.peer ∧
      e.key ≠ m.peer.key ∧ m.candidate = false ∧
      m.shared = (decide (e.kind = .socket) || !e.access.opposite m.peer.access) ∧
      m.label = e.kind.display ∧ ¬(m.shared = true ∧ index ≠ 0 ∧ peerIndex ≠ 0) := by
  unfold resourceMatches
  rw [List.mem_filterMap]
  constructor
  · rintro ⟨⟨peer, peerIndex⟩, hpeer, hm⟩
    rw [List.mem_zipIdx_iff_getElem?] at hpeer
    dsimp only at hm
    split at hm
    · cases hm
    · next hkey =>
      split at hm
      · cases hm
      · next hshared =>
        cases hm
        exact ⟨peerIndex, hpeer, fun h => hkey (FdEndpoint.key_eq_iff.mp h), rfl, rfl, rfl, hshared⟩
  · rintro ⟨peerIndex, hpeer, hkey, hcandidate, hshared, hlabel, hstar⟩
    refine ⟨(m.peer, peerIndex), List.mem_zipIdx_iff_getElem?.mpr hpeer, ?_⟩
    obtain ⟨peer, candidate, shared, label⟩ := m
    dsimp only at *
    subst hcandidate hshared hlabel
    rw [if_neg fun h => hkey (FdEndpoint.key_eq_iff.mpr h), if_neg hstar]

/-- The peers among the owners of the sockets at the other end. -/
theorem mem_socketMatches {inode : UInt64} {info : SocketInfo} {m : Match} :
    m ∈ socketMatches observations reverse inode info ↔ ∃ peer,
      (peer, m.candidate) ∈ peerInodes observations reverse inode info ∧
      m.peer ∈ inodeOwners observations peer ∧ m.shared = false ∧
      m.label = info.protocol.display := by
  unfold socketMatches
  rw [List.mem_flatMap]
  constructor
  · rintro ⟨⟨peer, candidate⟩, hpeer, hm⟩
    obtain ⟨owner, howner, rfl⟩ := List.mem_map.mp hm
    exact ⟨peer, hpeer, howner, rfl, rfl⟩
  · rintro ⟨peer, hpeer, howner, hshared, hlabel⟩
    refine ⟨(peer, m.candidate), hpeer, List.mem_map.mpr ⟨m.peer, howner, ?_⟩⟩
    obtain ⟨owner, candidate, shared, label⟩ := m
    dsimp only at *
    rw [hshared, hlabel]

/-- All peers of an endpoint. -/
theorem mem_endpointMatches {resource : IpcIdentity} {endpoints : List FdEndpoint} {index : ℕ}
    {e : FdEndpoint} {m : Match} :
    m ∈ endpointMatches observations reverse resource endpoints index e ↔
      m ∈ resourceMatches endpoints index e ∨ ∃ info, e.kind = .socket ∧
        observations.infos.get? resource.inode = some info ∧
        m ∈ socketMatches observations reverse resource.inode info := by
  unfold endpointMatches socketInfo
  rw [List.mem_append]
  refine or_congr_right ?_
  by_cases hkind : e.kind = .socket
  · rw [if_pos hkind]
    cases hinfo : observations.infos.get? resource.inode with
    | none => simp
    | some info => simp [hkind]
  · rw [if_neg hkind]
    simp [hkind]

/-! ## Sockets at the other end -/

/-- What makes a socket one that is found from the other end. -/
theorem reverseEntry_eq_some {namespaces : OrderedMap UInt64 (UInt64 × UInt64)} {inode id : UInt64}
    {info : SocketInfo} {t : Tuple} : reverseEntry namespaces (inode, info) = some (t, id) ↔
      id = inode ∧ ∃ localAddr remoteAddr, info.localAddr = some localAddr ∧
        info.remoteAddr = some remoteAddr ∧ info.protocol.isTcpOrUdp = true ∧
        remoteAddr.isSpecified = true ∧ info.state ≠ some .listen ∧
        t = (namespaces.get? inode, info.protocol.isTcp, localAddr, remoteAddr) := by
  unfold reverseEntry
  dsimp only
  constructor
  · intro h
    split at h
    · next localAddr remoteAddr hlocal hremote =>
      split at h
      · next hguard =>
        simp only [Bool.and_eq_true, decide_eq_true_eq] at hguard
        cases h
        exact ⟨rfl, localAddr, remoteAddr, hlocal, hremote, hguard.1.1, hguard.1.2, hguard.2, rfl⟩
      · cases h
    · cases h
  · rintro ⟨rfl, localAddr, remoteAddr, hlocal, hremote, hprotocol, hspecified, hstate, rfl⟩
    simp [hlocal, hremote, hprotocol, hspecified, hstate]

/-- The inodes under a tuple are those of the sockets that are found by it. -/
theorem mem_reverseOf {iterateInfos : List (UInt64 × SocketInfo) → List (UInt64 × SocketInfo)}
    (hiterate : ∀ l, (iterateInfos l).Perm l) {t : Tuple} {inode : UInt64} :
    inode ∈ ((reverseOf iterateInfos observations).get? t).getD [] ↔ ∃ info,
      observations.infos.get? inode = some info ∧
        reverseEntry observations.namespaces (inode, info) = some (t, inode) := by
  rw [reverseOf, getD_get?_group, mem_valuesOf, List.mem_filterMap]
  constructor
  · rintro ⟨⟨id, info⟩, hentry, hreverse⟩
    obtain ⟨rfl, -⟩ := reverseEntry_eq_some.mp hreverse
    exact ⟨info, OrderedMap.get?_eq_some_iff.mpr ((hiterate _).mem_iff.mp hentry), hreverse⟩
  · rintro ⟨info, hinfo, hreverse⟩
    exact ⟨(inode, info), (hiterate _).mem_iff.mpr (OrderedMap.get?_eq_some_iff.mp hinfo), hreverse⟩

/-- The peers of a socket: the one that was recorded, or else those found by its addresses. -/
theorem mem_peerInodes {inode peer : UInt64} {info : SocketInfo} {candidate : Bool} :
    (peer, candidate) ∈ peerInodes observations reverse inode info ↔
      (candidate = false ∧ info.peerInode = some peer) ∨
      (candidate = true ∧ info.peerInode = none ∧ ∃ localAddr remoteAddr,
        info.localAddr = some localAddr ∧ info.remoteAddr = some remoteAddr ∧
        info.protocol.isTcpOrUdp = true ∧ peer ≠ inode ∧
        peer ∈ (reverse.get? (observations.namespaces.get? inode, info.protocol.isTcp, remoteAddr,
          localAddr)).getD []) := by
  unfold peerInodes
  cases hpeer : info.peerInode with
  | some p =>
    dsimp only
    rw [List.mem_singleton, Prod.mk.injEq, Option.some_inj]
    constructor
    · rintro ⟨rfl, rfl⟩
      exact .inl ⟨rfl, rfl⟩
    · rintro (⟨rfl, rfl⟩ | ⟨-, hnone, -⟩)
      · exact ⟨rfl, rfl⟩
      · cases hnone
  | none =>
    cases hlocal : info.localAddr with
    | none => simp
    | some localAddr =>
      cases hremote : info.remoteAddr with
      | none => simp
      | some remoteAddr =>
        by_cases hprotocol : info.protocol.isTcpOrUdp = true
        · simp only [hprotocol, if_true, List.mem_map, List.mem_filter, decide_eq_true_eq,
            Prod.mk.injEq]
          constructor
          · rintro ⟨p, ⟨hp, hne⟩, rfl, rfl⟩
            exact .inr ⟨rfl, trivial, localAddr, remoteAddr, rfl, rfl, trivial, hne, hp⟩
          · rintro (⟨-, h⟩ | ⟨rfl, -, l, r, hl, hr, -, hne, hp⟩)
            · cases h
            · cases hl
              cases hr
              exact ⟨peer, ⟨hp, hne⟩, rfl, rfl⟩
        · simp [hprotocol]

end Analysis

end Procinsh
