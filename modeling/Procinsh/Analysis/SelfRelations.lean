import Procinsh.Analysis.OrderIndependence

/-!
# Descriptors that are related to themselves

Fellow owners and sockets found by their addresses exclude the endpoint that is visited, but the
owners of a recorded peer do not: a UNIX socket that is connected to itself has its own inode as its
peer, and then each of its owners is found as its own peer.  Whether a descriptor is related to
itself is decided by whether such a socket is among those captured.
-/

namespace Procinsh.Analysis

open Ipc

/-- A snapshot as the acquisition fills it: as captured, with owners for every resource, and with
sockets as the owners of sockets. -/
structure Acquired (snapshot : SystemSnapshot) : Prop extends Captured snapshot where
  owned : ∀ owner ∈ snapshot.rawOwners, owner.2 ≠ []
  kinds : ∀ owner ∈ snapshot.rawOwners, ∀ e ∈ owner.2, e.kind = .socket ↔ owner.1.kind = .socket

/-- A relation of a descriptor of a process with itself. -/
def SelfRelated (r : FdRelation) : Prop := ∃ peer, r.peer = some peer ∧ r.endpoint.key = peer.key

/-- A socket that was captured as its own peer. -/
def SelfPeer (snapshot : SystemSnapshot) (resource : IpcIdentity) : Prop :=
  resource.kind = .socket ∧
    ∃ info, capturedInfo snapshot resource = some info ∧ info.peerInode = some resource.inode

variable {iterateOwners : List (IpcIdentity × List FdEndpoint) → List (IpcIdentity × List FdEndpoint)}
  {iterateInfos : List (UInt64 × SocketInfo) → List (UInt64 × SocketInfo)}
  {snapshot : SystemSnapshot} {limits : Limits} {observations : Observations}
  {reverse : OrderedMap Tuple (List UInt64)}

/-! ## Where a match with itself comes from -/

section Found

variable (h : Captured snapshot) (hiterate : ∀ l, (iterateOwners l).Perm l)
include h hiterate

/-- An endpoint finds itself only if its socket is its own peer. -/
theorem selfPeer_of_mem_found {v : Visit} (hv : v ∈ allVisits iterateOwners snapshot) {m : Match}
    (hm : m ∈ v.found (observationsOf iterateOwners snapshot) reverse)
    (hkey : v.endpoint.key = m.peer.key) :
    ∃ owner ∈ snapshot.rawOwners, SelfPeer snapshot owner.1 := by
  obtain ⟨owner, howner, hvisit⟩ := List.mem_flatMap.mp hv
  obtain ⟨hresource, -, hindex⟩ := mem_visits.mp hvisit
  rcases Visit.source hm with hfellow | ⟨info, peer, hkind, hinfo, hpeer, hinodeOwner, -⟩
  · obtain ⟨-, -, hne, -⟩ := mem_resourceMatches.mp hfellow
    exact absurd hkey hne
  · obtain ⟨owner', howner', hsocket, rfl, ho⟩ := exists_of_mem_inodeOwners hinodeOwner
    obtain ⟨rfl, -⟩ :=
      h.owner_unique hiterate howner howner' (List.mem_of_getElem? hindex) ho hkey
    obtain ⟨raw, hraw, hrawResource, -⟩ := exists_raw_of_mem_owners hiterate howner
    rw [hresource] at hinfo hpeer
    rcases mem_peerInodes.mp hpeer with ⟨-, hrecorded⟩ | ⟨-, -, _, _, -, -, -, hne, -⟩
    · exact ⟨raw, hraw, hrawResource ▸ ⟨hsocket, info, hinfo, hrecorded⟩⟩
    · exact absurd rfl hne

/-- The first match of an owner of a socket that is its own peer is the first owner. -/
theorem sortMatches_found_selfPeer (reverse : OrderedMap Tuple (List UInt64))
    {owner : IpcIdentity × List FdEndpoint}
    (howner : owner ∈ (observationsOf iterateOwners snapshot).owners.entries)
    (hself : SelfPeer snapshot owner.1) (v : Visit) (hv : v ∈ visits owner)
    (hkind : v.endpoint.kind = .socket) {first : FdEndpoint} {others : List FdEndpoint}
    (hfirst : owner.2 = first :: others) :
    ∃ m ms, sortMatches (v.found (observationsOf iterateOwners snapshot) reverse) = m :: ms ∧
      m.peer = first ∧ m.shared = false := by
  obtain ⟨hsocket, info, hinfo, hpeer⟩ := hself
  obtain ⟨hresource, hendpoints, -⟩ := mem_visits.mp hv
  have hfellows : ((resourceMatches v.endpoints v.index v.endpoint).filter fun m => !m.shared) =
      [] := by
    refine List.filter_eq_nil_iff.mpr fun m hm => ?_
    obtain ⟨-, -, -, -, hshared, -⟩ := mem_resourceMatches.mp hm
    simp [hshared, hkind]
  have hmatches : socketMatches (observationsOf iterateOwners snapshot) reverse v.resource.inode
      info = owner.2.map fun e => ⟨e, false, false, info.protocol.display⟩ := by
    have howners := inodeOwners_eq (h.nodup_inodes hiterate) howner hsocket
    rw [socketMatches, peerInodes, hpeer, hresource]
    dsimp only
    rw [List.flatMap_singleton, howners]
  have hsocketInfo : socketInfo (observationsOf iterateOwners snapshot) v.resource v.endpoint =
      some info := by
    rw [socketInfo, if_pos hkind, hresource]
    exact hinfo
  rw [sortMatches, Visit.found, endpointMatches, hsocketInfo, Option.map_some, Option.getD_some,
    hmatches, hfirst, List.filter_append, hfellows, List.map_cons, List.nil_append,
    List.filter_cons_of_pos rfl]
  exact ⟨_, _, rfl, rfl, rfl⟩

end Found

/-! ## What is kept stays -/

theorem subset_of_visited {todo : List Visit} {before after : Progress}
    (h : Visited limits observations reverse todo before after) :
    before.relations ⊆ after.relations := by
  obtain ⟨made, -, hkept, -⟩ := h
  have hrelations : after.relations = (pushAll relationKey before.kept (made.flatMap fun v =>
    v.relationsWithin observations reverse limits.matchesPerEndpoint)).1 := congrArg Prod.fst hkept
  rw [hrelations]
  exact subset_pushAll relationKey before.kept _

/-- The first match of the first visit gets its relation. -/
theorem joinedRelation_mem_relateEndpoint {v : Visit} {progress : Progress} {m : Match}
    {ms : List Match} (hseen : progress.seen = []) (hlimit : 0 < limits.matchesPerEndpoint)
    (hfound : sortMatches (v.found observations reverse) = m :: ms) (hshared : m.shared = false) :
    joinedRelation (v.info observations) v.endpoint m ∈ (relateEndpoint limits observations reverse
      v.resource v.endpoints v.index v.endpoint progress).relations := by
  have hm : m ∈ v.found observations reverse := mem_sortMatches.mp (hfound ▸ List.mem_cons_self)
  have hexternal : v.external observations reverse = [] := by
    rw [Visit.external, if_neg]
    rw [hasExternal, Bool.or_eq_true, not_or, Bool.and_eq_true, not_and]
    refine ⟨fun hempty => ?_, fun _ hall => ?_⟩
    · rw [List.isEmpty_iff.mp hempty] at hm
      cases hm
    · have hmshared := List.all_eq_true.mp hall m hm
      rw [hshared] at hmshared
      cases hmshared
  obtain ⟨n, hn⟩ := Nat.exists_eq_succ_of_ne_zero hlimit.ne'
  have hwithin : v.relationsWithin observations reverse limits.matchesPerEndpoint =
      joinedRelation (v.info observations) v.endpoint m ::
        (ms.take n).map (joinedRelation (v.info observations) v.endpoint) := by
    rw [Visit.relationsWithin, hexternal, hfound, hn, List.take_succ_cons]
    rfl
  have hkept := congrArg Prod.fst (relateEndpoint_spec limits observations reverse v progress).1
  have hpush : push relationKey progress.kept (joinedRelation (v.info observations) v.endpoint m) =
      (progress.relations ++ [joinedRelation (v.info observations) v.endpoint m],
        [(joinedRelation (v.info observations) v.endpoint m).id]) := by
    rw [push, relationKey_joined, Progress.kept, hseen]
    rfl
  rw [hwithin, pushAll, List.foldl_cons, hpush] at hkept
  change _ ∈ (Progress.kept _).1
  rw [hkept]
  exact subset_pushAll relationKey _ _ (List.mem_append_right _ List.mem_cons_self)

variable (limits) in
/-- What the first visit of all relates stays. -/
theorem joinedRelation_mem_relateOwners {resource : IpcIdentity} {first : FdEndpoint}
    {others : List FdEndpoint} (progress : Progress) {m : Match} {ms : List Match}
    (hseen : progress.seen = []) (hlimit : 0 < limits.matchesPerEndpoint)
    (hfound : sortMatches (Visit.found observations reverse
      ⟨resource, first :: others, 0, first⟩) = m :: ms) (hshared : m.shared = false)
    (rest : List (IpcIdentity × List FdEndpoint)) :
    joinedRelation (socketInfo observations resource first) first m ∈
      (relateOwners limits observations reverse ((resource, first :: others) :: rest)
        progress).relations := by
  have hvisit := joinedRelation_mem_relateEndpoint hseen hlimit hfound hshared
  have hendpoints : joinedRelation (socketInfo observations resource first) first m ∈
      (relateEndpoints limits observations reverse resource (first :: others)
        (first :: others).zipIdx progress).relations := by
    rw [List.zipIdx_cons, relateEndpoints]
    split
    · exact hvisit
    · exact subset_of_visited (visited_relateEndpoints limits observations reverse resource
        (first :: others) _ _) hvisit
  rw [relateOwners]
  split
  · exact hendpoints
  · exact subset_of_visited (visited_relateOwners limits observations reverse rest _) hendpoints

/-! ## Exactly the self-connected sockets -/

/-- The order of a map in which an owner comes first. -/
def ownerFirst (owner : IpcIdentity × List FdEndpoint) (l : List (IpcIdentity × List FdEndpoint)) :
    List (IpcIdentity × List FdEndpoint) :=
  if owner ∈ l then owner :: l.erase owner else l

theorem perm_ownerFirst (owner : IpcIdentity × List FdEndpoint)
    (l : List (IpcIdentity × List FdEndpoint)) : (ownerFirst owner l).Perm l := by
  rw [ownerFirst]
  split
  · next hmem => exact (List.perm_cons_erase hmem).symm
  · exact List.Perm.refl l

/-- A socket that was captured has a first owner. -/
theorem Acquired.exists_first (h : Acquired snapshot) {raw : IpcIdentity × List FdEndpoint}
    (hraw : raw ∈ snapshot.rawOwners) (hsocket : raw.1.kind = .socket) :
    ∃ first others, preparedOwners snapshot raw = (raw.1, first :: others) ∧
      first.kind = .socket := by
  obtain ⟨x, hx⟩ := List.exists_mem_of_ne_nil _ (h.owned raw hraw)
  have hne : (preparedOwners snapshot raw).2 ≠ [] := by
    obtain ⟨e, he, -⟩ := exists_prepared_of_mem_raw hx
    exact List.ne_nil_of_mem he
  obtain ⟨first, others, hfirst⟩ := List.exists_cons_of_ne_nil hne
  have hmem : first ∈ (preparedOwners snapshot raw).2 := hfirst ▸ List.mem_cons_self
  obtain ⟨y, hy, hsame⟩ := exists_raw_of_mem_prepared hmem
  refine ⟨first, others, Prod.ext rfl hfirst, ?_⟩
  rw [hsame.kind, h.kinds raw hraw y hy]
  exact hsocket

/-- A socket that is its own peer relates a descriptor with itself when its owners are visited
first. -/
theorem exists_selfRelated (h : Acquired snapshot) {raw : IpcIdentity × List FdEndpoint}
    (hraw : raw ∈ snapshot.rawOwners) (hself : SelfPeer snapshot raw.1) :
    ∃ r ∈ (buildIpcRelations (ownerFirst raw) id snapshot).1.fdRelations, SelfRelated r := by
  have hiterate := perm_ownerFirst raw
  obtain ⟨first, others, howners, hkind⟩ := h.exists_first hraw hself.1
  have hentries : (observationsOf (ownerFirst raw) snapshot).owners.entries =
      (raw.1, first :: others) ::
        (snapshot.rawOwners.erase raw).map (preparedOwners snapshot) := by
    rw [entries_owners hiterate, OrderedMap.entries_ofList h.resources, ownerFirst, if_pos hraw,
      List.map_cons, howners]
  have howner : (raw.1, first :: others) ∈
      (observationsOf (ownerFirst raw) snapshot).owners.entries := hentries ▸ List.mem_cons_self
  obtain ⟨m, ms, hfound, hpeer, hshared⟩ := sortMatches_found_selfPeer h.toCaptured hiterate
    (reverseOf id (observationsOf (ownerFirst raw) snapshot)) howner hself
    ⟨raw.1, first :: others, 0, first⟩ (mem_visits.mpr ⟨rfl, rfl, rfl⟩) hkind rfl
  have hmem := joinedRelation_mem_relateOwners .standard ⟨snapshot.fdRelations, [], false⟩ rfl
    (by decide) hfound hshared ((snapshot.rawOwners.erase raw).map (preparedOwners snapshot))
  obtain ⟨enrich, hsame, hresult⟩ := exists_enrich (ownerFirst raw) id .standard snapshot
  have hrelation := List.mem_map_of_mem (f := enrich) hmem
  rw [hentries] at hresult
  rw [← hresult] at hrelation
  refine ⟨_, hrelation, m.peer, (hsame _).peer, ?_⟩
  rw [(hsame _).endpoint, hpeer]
  rfl

/-- When nothing is left out, a socket that is its own peer relates a descriptor with itself. -/
theorem exists_selfRelated_of_complete (h : Acquired snapshot)
    (hiterate : ∀ l, (iterateOwners l).Perm l)
    (hcomplete : (buildIpcRelations iterateOwners iterateInfos snapshot).2 = false)
    {raw : IpcIdentity × List FdEndpoint} (hraw : raw ∈ snapshot.rawOwners)
    (hself : SelfPeer snapshot raw.1) :
    ∃ r ∈ (buildIpcRelations iterateOwners iterateInfos snapshot).1.fdRelations,
      SelfRelated r := by
  obtain ⟨kept, enrich, hkeeps, hsame, hresult⟩ :=
    exists_keeps iterateOwners iterateInfos .standard snapshot
  have hstart : snapshot.fdRelations.length < Limits.standard.relations := by
    rw [h.start]
    decide
  have hall := hkeeps.complete hstart hcomplete
  obtain ⟨first, others, howners, hkind⟩ := h.exists_first hraw hself.1
  have howner : (raw.1, first :: others) ∈
      (observationsOf iterateOwners snapshot).owners.entries :=
    howners ▸ h.mem_owners hiterate hraw
  have hvisit : (⟨raw.1, first :: others, 0, first⟩ : Visit) ∈ visits (raw.1, first :: others) :=
    mem_visits.mpr ⟨rfl, rfl, rfl⟩
  obtain ⟨m, ms, hfound, hpeer, -⟩ := sortMatches_found_selfPeer h.toCaptured hiterate
    (reverseOf iterateInfos (observationsOf iterateOwners snapshot)) howner hself _ hvisit hkind rfl
  obtain ⟨r, hr, peer, hrpeer, hkeys⟩ := exists_joins hall
    (List.mem_flatMap.mpr ⟨_, howner, hvisit⟩) (mem_sortMatches.mp (hfound ▸ List.mem_cons_self))
  have hrelation := List.mem_map_of_mem (f := enrich) (List.mem_append_right snapshot.fdRelations hr)
  rw [← hresult] at hrelation
  refine ⟨_, hrelation, peer, (hsame r).peer.trans hrpeer, ?_⟩
  rw [hpeer] at hkeys
  rw [(hsame r).endpoint]
  rcases Sym2.eq_iff.mp hkeys with ⟨ha, hb⟩ | ⟨ha, hb⟩
  · exact ha.trans hb.symm
  · exact ha.trans hb.symm

/-- A relation of a descriptor with itself comes from a socket that is its own peer. -/
theorem selfPeer_of_selfRelated (h : Captured snapshot) (hiterate : ∀ l, (iterateOwners l).Perm l)
    {r : FdRelation}
    (hr : r ∈ (buildIpcRelations iterateOwners iterateInfos snapshot).1.fdRelations)
    (hself : SelfRelated r) : ∃ owner ∈ snapshot.rawOwners, SelfPeer snapshot owner.1 := by
  obtain ⟨kept, enrich, hkeeps, hsame, hresult⟩ :=
    exists_keeps iterateOwners iterateInfos .standard snapshot
  rw [buildIpcRelations, hresult, h.start, List.nil_append] at hr
  obtain ⟨s, hs, rfl⟩ := List.mem_map.mp hr
  obtain ⟨peer, hpeer, hkey⟩ := hself
  rw [(hsame s).peer] at hpeer
  rw [(hsame s).endpoint] at hkey
  obtain ⟨v, hv, hfound⟩ := List.mem_flatMap.mp (hkeeps.sublist.subset hs)
  rcases Visit.mem_relations.mp hfound with ⟨-, rfl⟩ | ⟨m, hm, rfl⟩
  · cases hpeer
  · cases hpeer
    exact selfPeer_of_mem_found h hiterate hv hm hkey

/-- Whatever the orders of the hash maps, no descriptor is related to itself, exactly when no owned
socket was captured as its own peer; and when nothing is left out, that decides it in every order. -/
theorem not_selfRelated_iff (h : Acquired snapshot) :
    ((∀ iterateOwners iterateInfos, (∀ l, (iterateOwners l).Perm l) →
        (∀ l, (iterateInfos l).Perm l) →
        ∀ r ∈ (buildIpcRelations iterateOwners iterateInfos snapshot).1.fdRelations,
          ¬SelfRelated r) ↔
      ∀ owner ∈ snapshot.rawOwners, ¬SelfPeer snapshot owner.1) ∧
    ∀ iterateOwners iterateInfos, (∀ l, (iterateOwners l).Perm l) →
      (∀ l, (iterateInfos l).Perm l) →
      (buildIpcRelations iterateOwners iterateInfos snapshot).2 = false →
      ((∀ r ∈ (buildIpcRelations iterateOwners iterateInfos snapshot).1.fdRelations,
          ¬SelfRelated r) ↔
        ∀ owner ∈ snapshot.rawOwners, ¬SelfPeer snapshot owner.1) := by
  have hnone : (∀ owner ∈ snapshot.rawOwners, ¬SelfPeer snapshot owner.1) →
      ∀ iterateOwners iterateInfos, (∀ l, (iterateOwners l).Perm l) →
        ∀ r ∈ (buildIpcRelations iterateOwners iterateInfos snapshot).1.fdRelations,
          ¬SelfRelated r := by
    intro hall iterateOwners iterateInfos hiterate r hr hself
    obtain ⟨owner, howner, hpeer⟩ := selfPeer_of_selfRelated h.toCaptured hiterate hr hself
    exact hall owner howner hpeer
  constructor
  · constructor
    · intro hall owner howner hself
      obtain ⟨r, hr, hrself⟩ := exists_selfRelated h howner hself
      exact hall (ownerFirst owner) id (perm_ownerFirst owner) List.Perm.refl r hr hrself
    · intro hall iterateOwners iterateInfos hiterate _
      exact hnone hall iterateOwners iterateInfos hiterate
  · intro iterateOwners iterateInfos hiterate hiterateInfos hcomplete
    refine ⟨fun hall owner howner hself => ?_, fun hall =>
      hnone hall iterateOwners iterateInfos hiterate⟩
    obtain ⟨r, hr, hrself⟩ := exists_selfRelated_of_complete h hiterate hcomplete howner hself
    exact hall r hr hrself

/-! ### An example -/

/-- A UNIX datagram socket that is connected to itself. -/
def selfConnectedSnapshot : SystemSnapshot :=
  { capturedSnapshot with
    rawOwners := [(unixResource 8, [owner 2 5 (unixResource 8) .socket .readWrite])]
    rawSockets := [(8, ⟨.unix .dgram, some .connected, none, none, none, some 8⟩)] }

theorem selfRelated_selfConnectedSnapshot : Acquired selfConnectedSnapshot ∧
    ∃ r ∈ (buildIpcRelations id id selfConnectedSnapshot).1.fdRelations, SelfRelated r := by
  refine ⟨⟨⟨by decide, by decide, by decide, rfl⟩, by decide, by decide⟩, ?_⟩
  have hfind : ((buildIpcRelations id id selfConnectedSnapshot).1.fdRelations.find? fun r =>
      r.peer.any fun peer => r.endpoint.key = peer.key).isSome = true := by decide +kernel
  obtain ⟨r, hr⟩ := Option.isSome_iff_exists.mp hfind
  have hany := List.find?_some hr
  obtain ⟨peer, hpeer, hkey⟩ := (Option.any_eq_true _ _).mp hany
  exact ⟨r, List.mem_of_find?_eq_some hr, peer, hpeer, of_decide_eq_true hkey⟩

/-- No descriptor of the pipe and of the pair of sockets is related to itself. -/
theorem not_selfRelated_capturedSnapshot :
    ¬∃ r ∈ (buildIpcRelations id id capturedSnapshot).1.fdRelations, SelfRelated r := by
  have hacquired : Acquired capturedSnapshot :=
    ⟨⟨by decide, by decide, by decide, rfl⟩, by decide, by decide⟩
  have hpeers : ∀ owner ∈ capturedSnapshot.rawOwners,
      (capturedInfo capturedSnapshot owner.1).bind SocketInfo.peerInode ≠ some owner.1.inode := by
    decide
  rintro ⟨r, hr, hself⟩
  refine (not_selfRelated_iff hacquired).1.mpr ?_ id id List.Perm.refl List.Perm.refl r hr hself
  rintro owner howner ⟨-, info, hinfo, hpeer⟩
  exact hpeers owner howner (by rw [hinfo, Option.bind_some, hpeer])

end Procinsh.Analysis
