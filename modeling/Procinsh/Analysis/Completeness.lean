import Procinsh.Analysis.Kept

/-!
# Completeness of the relations

Unless the analysis says that it left relations out, every captured owner is in a relation, every
reader of a pipe is related to every writer, every owner to the first owner of its resource, and
every owner of a socket to all owners of the socket that was recorded as its peer.
-/

namespace Procinsh.Analysis

open Ipc

variable {iterateOwners : List (IpcIdentity × List FdEndpoint) → List (IpcIdentity × List FdEndpoint)}
  {iterateInfos : List (UInt64 × SocketInfo) → List (UInt64 × SocketInfo)}
  {limits limits' : Limits} {snapshot : SystemSnapshot} {kept : List FdRelation}

/-- A snapshot as it is captured: a resource is listed once, an inode belongs to one socket, a
descriptor of a process is owned once, and there are no relations yet. -/
structure Captured (snapshot : SystemSnapshot) : Prop where
  resources : (snapshot.rawOwners.map Prod.fst).Nodup
  inodes : (socketInodes snapshot.rawOwners).Nodup
  descriptors : (snapshot.rawOwners.flatMap fun owner => owner.2.map FdEndpoint.key).Nodup
  start : snapshot.fdRelations = []

/-- A relation between two endpoints, from either side. -/
def Joins (r : FdRelation) (a b : FdEndpoint) : Prop :=
  ∃ peer, r.peer = some peer ∧ s(r.endpoint.key, peer.key) = s(a.key, b.key)

/-- An endpoint on either side of a relation. -/
def Occurs (r : FdRelation) (e : FdEndpoint) : Prop :=
  r.endpoint.key = e.key ∨ ∃ peer, r.peer = some peer ∧ peer.key = e.key

/-- The first owner of a resource, in the order of pid, start time and descriptor. -/
def IsFirst (first : FdEndpoint) (endpoints : List FdEndpoint) : Prop :=
  first ∈ endpoints ∧ ∀ e ∈ endpoints, first.position ≤ e.position

theorem Joins.occurs {r : FdRelation} {a b : FdEndpoint} (h : Joins r a b) : Occurs r a := by
  obtain ⟨peer, hpeer, hkeys⟩ := h
  rcases Sym2.eq_iff.mp hkeys with ⟨ha, -⟩ | ⟨-, ha⟩
  · exact .inl ha
  · exact .inr ⟨peer, hpeer, ha⟩

/-! ## Owners and visits -/

/-- The captured owners are listed once, so that the map has them as they were captured. -/
theorem Captured.mem_owners (h : Captured snapshot) (hiterate : ∀ l, (iterateOwners l).Perm l)
    {raw : IpcIdentity × List FdEndpoint} (hraw : raw ∈ snapshot.rawOwners) :
    preparedOwners snapshot raw ∈ (observationsOf iterateOwners snapshot).owners.entries := by
  rw [Analysis.mem_owners hiterate, OrderedMap.entries_ofList h.resources]
  exact ⟨raw, hraw, rfl⟩

theorem Captured.perm_owners (h : Captured snapshot) (hiterate : ∀ l, (iterateOwners l).Perm l) :
    (observationsOf iterateOwners snapshot).owners.entries.Perm
      (snapshot.rawOwners.map (preparedOwners snapshot)) := by
  rw [entries_owners hiterate]
  refine ((hiterate _).map _).trans ?_
  rw [OrderedMap.entries_ofList h.resources]

/-- Every descriptor is visited once. -/
theorem Captured.nodup_keys (h : Captured snapshot) (hiterate : ∀ l, (iterateOwners l).Perm l) :
    ((allVisits iterateOwners snapshot).map fun v => v.endpoint.key).Nodup := by
  have hkeys : ((allVisits iterateOwners snapshot).map fun v => v.endpoint.key) =
      (observationsOf iterateOwners snapshot).owners.entries.flatMap
        fun owner => owner.2.map FdEndpoint.key := by
    rw [allVisits, List.map_flatMap]
    refine List.flatMap_congr fun owner _ => ?_
    have hendpoints := congrArg (List.map FdEndpoint.key) (map_endpoint_visits owner)
    rwa [List.map_map] at hendpoints
  rw [hkeys]
  refine (List.Perm.nodup_iff ?_).mpr h.descriptors
  refine ((h.perm_owners hiterate).flatMap_right _).trans ?_
  rw [List.flatMap_map]
  exact List.Perm.flatMap_left _ fun raw _ => perm_key_prepared raw

theorem Captured.nodup_inodes (h : Captured snapshot) (hiterate : ∀ l, (iterateOwners l).Perm l) :
    (socketInodes (observationsOf iterateOwners snapshot).owners.entries).Nodup := by
  have hinodes : socketInodes (snapshot.rawOwners.map (preparedOwners snapshot)) =
      socketInodes snapshot.rawOwners := by
    unfold socketInodes
    rw [List.filter_map, List.map_map]
    rfl
  have hperm : (socketInodes (observationsOf iterateOwners snapshot).owners.entries).Perm
      (socketInodes snapshot.rawOwners) := by
    rw [← hinodes]
    exact ((h.perm_owners hiterate).filter _).map _
  exact hperm.nodup_iff.mpr h.inodes

/-- Every owner is visited. -/
theorem exists_visit {owner : IpcIdentity × List FdEndpoint}
    (howner : owner ∈ (observationsOf iterateOwners snapshot).owners.entries) {e : FdEndpoint}
    (he : e ∈ owner.2) : ∃ v ∈ allVisits iterateOwners snapshot,
      v.resource = owner.1 ∧ v.endpoints = owner.2 ∧ v.endpoint = e := by
  obtain ⟨index, hindex⟩ := List.mem_iff_getElem?.mp he
  exact ⟨⟨owner.1, owner.2, index, e⟩, List.mem_flatMap.mpr ⟨owner, howner,
    mem_visits.mpr ⟨rfl, rfl, hindex⟩⟩, rfl, rfl, rfl⟩

/-- An endpoint is an owner of one resource, and only once. -/
theorem Captured.owner_unique (h : Captured snapshot) (hiterate : ∀ l, (iterateOwners l).Perm l)
    {owner owner' : IpcIdentity × List FdEndpoint}
    (howner : owner ∈ (observationsOf iterateOwners snapshot).owners.entries)
    (howner' : owner' ∈ (observationsOf iterateOwners snapshot).owners.entries) {e e' : FdEndpoint}
    (he : e ∈ owner.2) (he' : e' ∈ owner'.2) (hkey : e.key = e'.key) : owner = owner' ∧ e = e' := by
  obtain ⟨v, hv, hresource, hendpoints, rfl⟩ := exists_visit howner he
  obtain ⟨w, hw, hresource', hendpoints', rfl⟩ := exists_visit howner' he'
  obtain rfl : v = w := List.inj_on_of_nodup_map (h.nodup_keys hiterate) hv hw hkey
  exact ⟨Prod.ext (hresource.symm.trans hresource') (hendpoints.symm.trans hendpoints'), rfl⟩

/-! ## Distinct ids -/

theorem relationKey_joined (info : Option SocketInfo) (e : FdEndpoint) (m : Match) :
    relationKey (joinedRelation info e m) = some (joinedId e m.peer) := rfl

/-- What is found is an external relation of a visit or a relation of a visit with a peer. -/
theorem mem_foundRelations {r : FdRelation} (h : r ∈ foundRelations iterateOwners iterateInfos snapshot) :
    ∃ v ∈ allVisits iterateOwners snapshot, ∃ info,
      r = externalRelation info v.endpoint ∨ ∃ m, r = joinedRelation info v.endpoint m := by
  obtain ⟨v, hv, hr⟩ := List.mem_flatMap.mp h
  refine ⟨v, hv, v.info (observationsOf iterateOwners snapshot), ?_⟩
  rcases Visit.mem_relations.mp hr with ⟨-, rfl⟩ | ⟨m, -, rfl⟩
  · exact .inl rfl
  · exact .inr ⟨m, rfl⟩

variable (iterateInfos) in
/-- The external relations are those of different endpoints. -/
theorem Captured.external_pairwise (h : Captured snapshot)
    (hiterate : ∀ l, (iterateOwners l).Perm l) :
    (foundRelations iterateOwners iterateInfos snapshot).Pairwise fun r s =>
      relationKey r = none → relationKey s = none → r.id ≠ s.id := by
  refine List.pairwise_flatMap.mpr ⟨fun v _ => ?_, ?_⟩
  · -- a visit finds at most one
    refine List.pairwise_append.mpr ⟨?_, ?_, ?_⟩
    · unfold Visit.external
      split
      · exact List.pairwise_singleton _ _
      · exact List.Pairwise.nil
    · refine List.pairwise_map.mpr (List.pairwise_of_forall fun m m' hnone => ?_)
      cases hnone
    · intro r _ s hs _ hnone
      obtain ⟨m, -, rfl⟩ := List.mem_map.mp hs
      cases hnone
  · refine (List.pairwise_map.mp (h.nodup_keys hiterate)).imp fun {v w} hkeys r hr s hs hr' hs' => ?_
    rcases Visit.mem_relations.mp hr with ⟨-, rfl⟩ | ⟨m, -, rfl⟩
    · rcases Visit.mem_relations.mp hs with ⟨-, rfl⟩ | ⟨m, -, rfl⟩
      · exact fun hid => hkeys (externalId_eq_iff.mp hid)
      · cases hs'
    · cases hr'

/-- The relations that a run keeps have distinct ids. -/
theorem Keeps.nodup_ids (hkept : Keeps iterateOwners iterateInfos limits snapshot kept)
    (h : Captured snapshot) (hiterate : ∀ l, (iterateOwners l).Perm l) :
    (kept.map FdRelation.id).Nodup := by
  have hexternal := (h.external_pairwise iterateInfos hiterate).sublist
    hkept.sublist
  refine List.pairwise_map.mpr ((hkept.pairwise.and hexternal).imp_of_mem fun {r s} hr hs hrs => ?_)
  obtain ⟨v, -, info, hr'⟩ := mem_foundRelations (hkept.sublist.subset hr)
  obtain ⟨w, -, info', hs'⟩ := mem_foundRelations (hkept.sublist.subset hs)
  rcases hr' with rfl | ⟨m, rfl⟩
  · rcases hs' with rfl | ⟨m', rfl⟩
    · exact hrs.2 rfl rfl
    · exact externalId_ne_joinedId
  · rcases hs' with rfl | ⟨m', rfl⟩
    · exact externalId_ne_joinedId.symm
    · exact fun hid => hrs.1 _ rfl (congrArg some hid.symm)

/-! ## Pairs that are joined -/

/-- The first relation of every id is kept, in a list whose first relations are those found. -/
abbrev KeepsAll (iterateOwners : List (IpcIdentity × List FdEndpoint) →
      List (IpcIdentity × List FdEndpoint))
    (iterateInfos : List (UInt64 × SocketInfo) → List (UInt64 × SocketInfo))
    (snapshot : SystemSnapshot) (kept : List FdRelation) : Prop :=
  FirstOfKey relationKey (foundRelations iterateOwners iterateInfos snapshot) kept

/-- An endpoint is joined with every peer that is found for it. -/
theorem exists_joins (h : KeepsAll iterateOwners iterateInfos snapshot kept) {v : Visit}
    (hv : v ∈ allVisits iterateOwners snapshot) {m : Match}
    (hm : m ∈ v.found (observationsOf iterateOwners snapshot)
      (reverseOf iterateInfos (observationsOf iterateOwners snapshot))) :
    ∃ r ∈ kept, Joins r v.endpoint m.peer := by
  have hfound : joinedRelation (v.info (observationsOf iterateOwners snapshot)) v.endpoint m ∈
      foundRelations iterateOwners iterateInfos snapshot :=
    List.mem_flatMap.mpr ⟨v, hv, Visit.mem_relations.mpr (.inr ⟨m, hm, rfl⟩)⟩
  obtain ⟨r, hr, hkey⟩ := h.exists_mem hfound (relationKey_joined _ _ _)
  refine ⟨r, hr, ?_⟩
  obtain ⟨w, -, info, rfl | ⟨m', rfl⟩⟩ := mem_foundRelations (h.sublist.subset hr)
  · cases hkey
  · exact ⟨m'.peer, rfl, joinedId_eq_iff.mp (Option.some.inj hkey)⟩

/-- Every endpoint that is visited is in a relation. -/
theorem exists_occurs (h : KeepsAll iterateOwners iterateInfos snapshot kept) {v : Visit}
    (hv : v ∈ allVisits iterateOwners snapshot) : ∃ r ∈ kept, Occurs r v.endpoint := by
  cases hfound : v.found (observationsOf iterateOwners snapshot)
      (reverseOf iterateInfos (observationsOf iterateOwners snapshot)) with
  | nil =>
    have hexternal : externalRelation (v.info (observationsOf iterateOwners snapshot)) v.endpoint ∈
        foundRelations iterateOwners iterateInfos snapshot := by
      refine List.mem_flatMap.mpr ⟨v, hv, Visit.mem_relations.mpr (.inl ⟨?_, rfl⟩)⟩
      rw [hfound]
      rfl
    exact ⟨_, h.mem_of_key_eq_none _ hexternal rfl, .inl rfl⟩
  | cons m found =>
    obtain ⟨r, hr, hjoins⟩ := exists_joins h hv (hfound ▸ List.mem_cons_self)
    exact ⟨r, hr, hjoins.occurs⟩

section Joined

variable (hiterate : ∀ l, (iterateOwners l).Perm l) (hcaptured : Captured snapshot)
  (h : KeepsAll iterateOwners iterateInfos snapshot kept)
include hiterate hcaptured h

/-- What one end of a pipe writes the other can read. -/
theorem exists_joins_opposite {raw : IpcIdentity × List FdEndpoint} (hraw : raw ∈ snapshot.rawOwners)
    {a b : FdEndpoint} (ha : a ∈ raw.2) (hb : b ∈ raw.2) (hne : a.key ≠ b.key)
    (hkind : a.kind ≠ .socket) (hopposite : a.access.opposite b.access = true) :
    ∃ r ∈ kept, Joins r a b := by
  have howner := hcaptured.mem_owners hiterate hraw
  obtain ⟨e, he, hea⟩ := exists_prepared_of_mem_raw  ha
  obtain ⟨p, hp, hpb⟩ := exists_prepared_of_mem_raw  hb
  obtain ⟨v, hv, -, hendpoints, rfl⟩ := exists_visit howner he
  obtain ⟨index, hindex⟩ := List.mem_iff_getElem?.mp hp
  have hm : (⟨p, false, false, v.endpoint.kind.display⟩ : Match) ∈
      resourceMatches v.endpoints v.index v.endpoint := by
    refine mem_resourceMatches.mpr ⟨index, hendpoints ▸ hindex, ?_, rfl, ?_, rfl, fun hs => ?_⟩
    · rw [hea.key, hpb.key]
      exact hne
    · dsimp only
      rw [hea.kind, hea.access, hpb.access, hopposite, decide_eq_false hkind]
      rfl
    · cases hs.1
  obtain ⟨r, hr, peer, hpeer, hkeys⟩ := exists_joins h hv (mem_endpointMatches.mpr (.inl hm))
  exact ⟨r, hr, peer, hpeer, by rw [hkeys, hea.key, hpb.key]⟩

/-- Every owner of a resource is joined with the first one. -/
theorem exists_joins_first {raw : IpcIdentity × List FdEndpoint} (hraw : raw ∈ snapshot.rawOwners)
    {e first : FdEndpoint} (he : e ∈ raw.2) (hfirst : IsFirst first raw.2)
    (hne : e.key ≠ first.key) : ∃ r ∈ kept, Joins r e first := by
  have howner := hcaptured.mem_owners hiterate hraw
  obtain ⟨e', he', hee⟩ := exists_prepared_of_mem_raw  he
  obtain ⟨f, hf, hff⟩ := exists_prepared_of_mem_raw  hfirst.1
  obtain ⟨v, hv, -, hendpoints, rfl⟩ := exists_visit howner he'
  -- the owner at the head of the sorted list is the first one
  obtain ⟨head, rest, hlist⟩ := List.exists_cons_of_ne_nil (List.ne_nil_of_mem hf)
  have hhead : head.key = first.key := by
    have hmem : head ∈ (preparedOwners snapshot raw).2 := hlist ▸ List.mem_cons_self
    obtain ⟨r, hr, hhr⟩ := exists_raw_of_mem_prepared hmem
    have hle : first.position ≤ head.position := by
      rw [FdEndpoint.position_eq_iff.mpr hhr.key]
      exact hfirst.2 r hr
    have hsorted : (head :: rest).Pairwise fun x y => x.position ≤ y.position :=
      hlist ▸ sortByKey_sorted
    have hge : head.position ≤ first.position := by
      rw [← FdEndpoint.position_eq_iff.mpr hff.key]
      rcases List.mem_cons.mp (hlist ▸ hf) with rfl | hf
      · exact le_rfl
      · exact (List.pairwise_cons.mp hsorted).1 f hf
    exact FdEndpoint.position_eq_iff.mp (le_antisymm hge hle)
  have hm : (⟨head, false, decide (v.endpoint.kind = .socket) ||
      !v.endpoint.access.opposite head.access, v.endpoint.kind.display⟩ : Match) ∈
      resourceMatches v.endpoints v.index v.endpoint := by
    refine mem_resourceMatches.mpr ⟨0, ?_, ?_, rfl, rfl, rfl, fun hs => hs.2.2 rfl⟩
    · rw [hendpoints, hlist]
      rfl
    · rw [hee.key, hhead]
      exact hne
  obtain ⟨r, hr, peer, hpeer, hkeys⟩ := exists_joins h hv (mem_endpointMatches.mpr (.inl hm))
  exact ⟨r, hr, peer, hpeer, by rw [hkeys, hee.key, hhead]⟩

/-- The owners of a socket are joined with the owners of its peer. -/
theorem exists_joins_peer {raw peer : IpcIdentity × List FdEndpoint}
    (hraw : raw ∈ snapshot.rawOwners) (hpeer : peer ∈ snapshot.rawOwners) {e o : FdEndpoint}
    (he : e ∈ raw.2) (hkind : e.kind = .socket) {info : SocketInfo}
    (hinfo : (OrderedMap.ofList snapshot.rawSockets).get? raw.1.inode = some info)
    (hinode : info.peerInode = some peer.1.inode) (hsocket : peer.1.kind = .socket)
    (ho : o ∈ peer.2) : ∃ r ∈ kept, Joins r e o := by
  have howner := hcaptured.mem_owners hiterate hraw
  have hpeerOwner := hcaptured.mem_owners hiterate hpeer
  obtain ⟨e', he', hee⟩ := exists_prepared_of_mem_raw  he
  obtain ⟨o', ho', hoo⟩ := exists_prepared_of_mem_raw  ho
  obtain ⟨v, hv, hresource, -, rfl⟩ := exists_visit howner he'
  have hm : (⟨o', false, false, info.protocol.display⟩ : Match) ∈
      socketMatches (observationsOf iterateOwners snapshot)
        (reverseOf iterateInfos (observationsOf iterateOwners snapshot)) v.resource.inode info := by
    refine mem_socketMatches.mpr ⟨peer.1.inode, ?_, ?_, rfl, rfl⟩
    · unfold peerInodes
      rw [hinode]
      exact List.mem_singleton_self _
    · have howners := inodeOwners_eq (hcaptured.nodup_inodes hiterate) hpeerOwner hsocket
      exact howners.symm ▸ ho'
  have hsocketInfo : (observationsOf iterateOwners snapshot).infos.get? v.resource.inode = some info := by
    rw [hresource]
    exact hinfo
  obtain ⟨r, hr, p, hp, hkeys⟩ := exists_joins h hv
    (mem_endpointMatches.mpr (.inr ⟨info, hee.kind.trans hkind, hsocketInfo, hm⟩))
  exact ⟨r, hr, p, hp, by rw [hkeys, hee.key, hoo.key]⟩

end Joined

/-! ## Completeness -/

/-- An analysis that leaves nothing out does the same with larger limits. -/
theorem buildWithin_of_atLeast (hlimits : limits'.AtLeast limits)
    (hstart : snapshot.fdRelations.length < limits.relations)
    (h : (buildWithin iterateOwners iterateInfos limits snapshot).2 = false) :
    buildWithin iterateOwners iterateInfos limits' snapshot =
      buildWithin iterateOwners iterateInfos limits snapshot := by
  have hsame : ∀ progress : Progress, progress.relations = snapshot.fdRelations →
      (relateOwners limits (observationsOf iterateOwners snapshot)
        (reverseOf iterateInfos (observationsOf iterateOwners snapshot))
        (observationsOf iterateOwners snapshot).owners.entries progress).truncated = false →
      relateOwners limits' (observationsOf iterateOwners snapshot)
        (reverseOf iterateInfos (observationsOf iterateOwners snapshot))
        (observationsOf iterateOwners snapshot).owners.entries progress =
      relateOwners limits (observationsOf iterateOwners snapshot)
        (reverseOf iterateInfos (observationsOf iterateOwners snapshot))
        (observationsOf iterateOwners snapshot).owners.entries progress :=
    fun progress hprogress hfalse =>
      relateOwners_of_atLeast hlimits _ progress (hprogress ▸ hstart) hfalse
  unfold buildWithin
  dsimp only
  rw [hsame _ rfl h]

/-- The enrichment of the result does not change which endpoints are joined. -/
theorem SameEnds.joins {r s : FdRelation} (h : SameEnds r s) {a b : FdEndpoint} (hs : Joins s a b) :
    Joins r a b := by
  obtain ⟨peer, hpeer, hkeys⟩ := hs
  exact ⟨peer, h.peer.trans hpeer, by rw [h.endpoint, hkeys]⟩

theorem SameEnds.occurs {r s : FdRelation} (h : SameEnds r s) {e : FdEndpoint} (hs : Occurs s e) :
    Occurs r e := by
  rcases hs with hs | ⟨peer, hpeer, hkey⟩
  · exact .inl (by rw [h.endpoint, hs])
  · exact .inr ⟨peer, h.peer.trans hpeer, hkey⟩

/-- The ids of the relations are distinct.  Unless the analysis says that it left relations out,
every captured owner is in a relation; two owners of one pipe with opposite access are joined, and
so are every owner and the first owner of its resource, and every owner of a socket and all owners
of the socket that was recorded as its peer; and no limit has left a relation out, since the result
is that with any larger limits. -/
theorem buildIpcRelations_complete (hcaptured : Captured snapshot)
    (hiterate : ∀ l, (iterateOwners l).Perm l) :
    let result := buildIpcRelations iterateOwners iterateInfos snapshot
    (result.1.fdRelations.map FdRelation.id).Nodup ∧
      (result.2 = false →
        (∀ owner ∈ snapshot.rawOwners, ∀ e ∈ owner.2, ∃ r ∈ result.1.fdRelations, Occurs r e) ∧
        (∀ owner ∈ snapshot.rawOwners, ∀ a ∈ owner.2, ∀ b ∈ owner.2, a.key ≠ b.key →
          a.kind ≠ .socket → a.access.opposite b.access = true →
          ∃ r ∈ result.1.fdRelations, Joins r a b) ∧
        (∀ owner ∈ snapshot.rawOwners, ∀ first, IsFirst first owner.2 → ∀ e ∈ owner.2,
          e.key ≠ first.key → ∃ r ∈ result.1.fdRelations, Joins r e first) ∧
        (∀ owner ∈ snapshot.rawOwners, ∀ e ∈ owner.2, e.kind = .socket → ∀ info,
          (OrderedMap.ofList snapshot.rawSockets).get? owner.1.inode = some info →
          ∀ peer ∈ snapshot.rawOwners, peer.1.kind = .socket →
          info.peerInode = some peer.1.inode → ∀ o ∈ peer.2,
          ∃ r ∈ result.1.fdRelations, Joins r e o) ∧
        ∀ limits : Limits, limits.AtLeast .standard →
          buildWithin iterateOwners iterateInfos limits snapshot = result) := by
  intro result
  obtain ⟨kept, enrich, hkeeps, hsame, hrelations⟩ :=
    exists_keeps iterateOwners iterateInfos .standard snapshot
  have hresult : result.1.fdRelations = kept.map enrich := by
    refine hrelations.trans ?_
    rw [hcaptured.start, List.nil_append]
  rw [hresult]
  constructor
  · have hids : (kept.map enrich).map FdRelation.id = kept.map FdRelation.id := by
      rw [List.map_map]
      exact List.map_congr_left fun r _ => (hsame r).id
    rw [hids]
    exact hkeeps.nodup_ids hcaptured hiterate
  · intro hfalse
    have hstart : snapshot.fdRelations.length < Limits.standard.relations := by
      rw [hcaptured.start]
      decide
    have hall : KeepsAll iterateOwners iterateInfos snapshot kept := hkeeps.complete hstart hfalse
    have hjoins : ∀ {a b : FdEndpoint}, (∃ r ∈ kept, Joins r a b) →
        ∃ r ∈ kept.map enrich, Joins r a b := by
      rintro a b ⟨r, hr, hab⟩
      exact ⟨enrich r, List.mem_map_of_mem hr, (hsame r).joins hab⟩
    refine ⟨fun owner howner e he => ?_, fun owner howner a ha b hb hne hkind hopposite => ?_,
      fun owner howner first hfirst e he hne => ?_,
      fun owner howner e he hkind info hinfo peer hpeer hsocket hinode o ho => ?_,
      fun limits hlimits => buildWithin_of_atLeast hlimits hstart hfalse⟩
    · obtain ⟨e', he', hee⟩ := exists_prepared_of_mem_raw  he
      obtain ⟨v, hv, -, -, rfl⟩ := exists_visit (hcaptured.mem_owners hiterate howner) he'
      obtain ⟨r, hr, hoccurs⟩ := exists_occurs hall hv
      refine ⟨enrich r, List.mem_map_of_mem hr, (hsame r).occurs ?_⟩
      unfold Occurs at hoccurs ⊢
      rwa [← hee.key]
    · exact hjoins (exists_joins_opposite hiterate hcaptured hall howner ha hb hne hkind hopposite)
    · exact hjoins (exists_joins_first hiterate hcaptured hall howner he hfirst hne)
    · exact hjoins (exists_joins_peer hiterate hcaptured hall howner hpeer he hkind hinfo hinode
        hsocket ho)

/-! ### An example -/

/-- An owner with one descriptor. -/
def owner (pid : Int32) (fd : UInt32) (resource : IpcIdentity) (kind : FdKind) (access : FdAccess) :
    FdEndpoint :=
  ⟨⟨pid, 1⟩, fd, 1, resource, kind, access, none⟩

def pipeResource : IpcIdentity := ⟨.pipe, ⟨0, 14⟩, 7⟩

def unixResource (inode : UInt64) : IpcIdentity := ⟨.socket, ⟨0, 8⟩, inode⟩

def unixInfo (peer : UInt64) : SocketInfo := ⟨.unix .stream, some .connected, none, none, none, peer⟩

/-- A pipe with a writer and two readers, and a pair of UNIX sockets. -/
def capturedSnapshot : SystemSnapshot where
  capturedAt := 0
  processes := []
  fdRelations := []
  rdmaPorts := []
  rdmaRelations := []
  hardwareDevices := []
  hardwarePaths := []
  deviceHandles := []
  warnings := []
  inspectedProcesses := 0
  inspectedFds := 0
  rawOwners := [
    (pipeResource, [owner 3 1 pipeResource .pipe .write, owner 4 0 pipeResource .pipe .read,
      owner 2 0 pipeResource .pipe .read]),
    (unixResource 8, [owner 2 5 (unixResource 8) .socket .readWrite]),
    (unixResource 9, [owner 3 5 (unixResource 9) .socket .readWrite,
      owner 3 6 (unixResource 9) .socket .read])]
  rawSockets := [(8, unixInfo 9), (9, unixInfo 8)]
  rawNamespaces := []
  rawConnections := []
  rawDeviceHandles := []
  rawNeighbors := none
  rawHardware := ⟨false, [], [], []⟩
  rawHostnames := []

/-- A writer and a reader of the pipe, two readers of it, and the two sockets are joined. -/
theorem buildIpcRelations_capturedSnapshot :
    let relations := (buildIpcRelations id id capturedSnapshot).1.fdRelations
    (relations.map FdRelation.id).Nodup ∧
      (∃ r ∈ relations, Joins r (owner 3 1 pipeResource .pipe .write)
        (owner 4 0 pipeResource .pipe .read)) ∧
      (∃ r ∈ relations, Joins r (owner 4 0 pipeResource .pipe .read)
        (owner 2 0 pipeResource .pipe .read)) ∧
      ∃ r ∈ relations, Joins r (owner 2 5 (unixResource 8) .socket .readWrite)
        (owner 3 6 (unixResource 9) .socket .read) := by
  have hcaptured : Captured capturedSnapshot := ⟨by decide, by decide, by decide, rfl⟩
  obtain ⟨hids, hcomplete⟩ := @buildIpcRelations_complete id id capturedSnapshot hcaptured
    fun l => List.Perm.refl l
  obtain ⟨-, hopposite, hfirst, hpeer, -⟩ := hcomplete (by decide +kernel)
  refine ⟨hids, ?_, ?_, ?_⟩
  · exact hopposite _ List.mem_cons_self _ List.mem_cons_self _
      (List.mem_cons_of_mem _ List.mem_cons_self) (by decide) (by decide) (by decide)
  · refine hfirst _ List.mem_cons_self _ ⟨?_, ?_⟩ _ (List.mem_cons_of_mem _ List.mem_cons_self)
      (by decide)
    · exact List.mem_cons_of_mem _ (List.mem_cons_of_mem _ List.mem_cons_self)
    · decide
  · exact hpeer _ (List.mem_cons_of_mem _ List.mem_cons_self) _ List.mem_cons_self rfl _ rfl _
      (List.mem_cons_of_mem _ (List.mem_cons_of_mem _ List.mem_cons_self)) rfl rfl _
      (List.mem_cons_of_mem _ List.mem_cons_self)

end Procinsh.Analysis
