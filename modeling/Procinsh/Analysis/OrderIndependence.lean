import Procinsh.Analysis.Completeness
import Procinsh.Analysis.Justification

/-!
# Independence of the order

The hash maps, and the lists that they are read from, may be traversed in any order: which pairs are
joined, and with which flags, is the same.  The first relation of a pair decides about its flags.
All matches of a visit with the same `shared` flag agree on the other one; two owners of one resource
are visited in the same order always; and if owners of different resources find each other, they agree
on how, since the peer inode of a UNIX socket is recorded and that of a TCP or UDP socket is not.
-/

namespace Procinsh.Analysis

open Ipc

/-- A snapshot as it is captured, with its sockets: an inode is listed once, and peer inodes are
recorded for UNIX sockets only. -/
structure CapturedSockets (snapshot : SystemSnapshot) : Prop extends Captured snapshot where
  sockets : (snapshot.rawSockets.map Prod.fst).Nodup
  namespaces : (snapshot.rawNamespaces.map Prod.fst).Nodup
  unixPeers : ∀ entry ∈ snapshot.rawSockets, entry.2.peerInode.isSome = true →
    entry.2.protocol.isTcpOrUdp = false

/-- Snapshots whose captured lists differ in their order only. -/
structure Reordered (snapshot snapshot' : SystemSnapshot) : Prop where
  owners : snapshot.rawOwners.Perm snapshot'.rawOwners
  sockets : snapshot.rawSockets.Perm snapshot'.rawSockets
  namespaces : snapshot.rawNamespaces.Perm snapshot'.rawNamespaces
  connections : snapshot.rawConnections = snapshot'.rawConnections
  start : snapshot.fdRelations = snapshot'.fdRelations

/-- The pairs that are joined, with the flags of their relations. -/
def joinedPairs (relations : List FdRelation) : Set (Sym2 FdEndpoint × Bool × Bool) :=
  {t | ∃ r ∈ relations, ∃ peer, r.peer = some peer ∧
    t = (s(r.endpoint, peer), r.candidate, r.shared)}

variable {iterateOwners iterateOwners' :
    List (IpcIdentity × List FdEndpoint) → List (IpcIdentity × List FdEndpoint)}
  {iterateInfos iterateInfos' : List (UInt64 × SocketInfo) → List (UInt64 × SocketInfo)}
  {snapshot snapshot' : SystemSnapshot} {observations : Observations}
  {reverse : OrderedMap Tuple (List UInt64)}

/-! ## What the order does not change -/

theorem CapturedSockets.of_reordered (h : CapturedSockets snapshot)
    (hreordered : Reordered snapshot snapshot') : CapturedSockets snapshot' where
  resources := (hreordered.owners.map _).nodup_iff.mp h.resources
  inodes := ((hreordered.owners.filter _).map _).nodup_iff.mp h.inodes
  descriptors := (hreordered.owners.flatMap_right _).nodup_iff.mp h.descriptors
  start := hreordered.start ▸ h.start
  sockets := (hreordered.sockets.map _).nodup_iff.mp h.sockets
  namespaces := (hreordered.namespaces.map _).nodup_iff.mp h.namespaces
  unixPeers entry hentry := h.unixPeers entry (hreordered.sockets.mem_iff.mpr hentry)

section Orders

variable (h : CapturedSockets snapshot) (hreordered : Reordered snapshot snapshot')
include h hreordered

theorem get?_infos_reordered (inode : UInt64) :
    (observationsOf iterateOwners snapshot).infos.get? inode =
      (observationsOf iterateOwners' snapshot').infos.get? inode :=
  OrderedMap.get?_ofList_of_perm hreordered.sockets h.sockets inode

theorem get?_namespaces_reordered (inode : UInt64) :
    (observationsOf iterateOwners snapshot).namespaces.get? inode =
      (observationsOf iterateOwners' snapshot').namespaces.get? inode :=
  OrderedMap.get?_ofList_of_perm hreordered.namespaces h.namespaces inode

theorem preparedOwners_reordered : preparedOwners snapshot = preparedOwners snapshot' := by
  funext owner
  unfold preparedOwners withStatus socketStatus
  rw [OrderedMap.get?_ofList_of_perm hreordered.sockets h.sockets, hreordered.connections]

variable (hiterate : ∀ l, (iterateOwners l).Perm l) (hiterate' : ∀ l, (iterateOwners' l).Perm l)
include hiterate hiterate'

/-- The maps have the same owners. -/
theorem owners_reordered :
    (observationsOf iterateOwners snapshot).owners.entries.Perm
      (observationsOf iterateOwners' snapshot').owners.entries := by
  refine (h.perm_owners hiterate).trans (List.Perm.trans ?_
    ((h.of_reordered hreordered).perm_owners hiterate').symm)
  rw [preparedOwners_reordered h hreordered]
  exact hreordered.owners.map _

/-- An inode leads to the same owners. -/
theorem inodeOwners_reordered (inode : UInt64) :
    inodeOwners (observationsOf iterateOwners snapshot) inode =
      inodeOwners (observationsOf iterateOwners' snapshot') inode := by
  have hperm := owners_reordered h hreordered hiterate hiterate'
  have hinodes := h.nodup_inodes hiterate
  have hinodes' := (h.of_reordered hreordered).nodup_inodes hiterate'
  by_cases hsocket : ∃ owner ∈ (observationsOf iterateOwners snapshot).owners.entries,
      owner.1.kind = .socket ∧ owner.1.inode = inode
  · obtain ⟨owner, howner, hkind, rfl⟩ := hsocket
    rw [inodeOwners_eq hinodes howner hkind,
      inodeOwners_eq hinodes' (hperm.mem_iff.mp howner) hkind]
  · have hnone : inodeOwners (observationsOf iterateOwners snapshot) inode = [] := by
      refine List.eq_nil_iff_forall_not_mem.mpr fun o ho => hsocket ?_
      obtain ⟨owner, howner, hkind, hinode, -⟩ := exists_of_mem_inodeOwners ho
      exact ⟨owner, howner, hkind, hinode⟩
    have hnone' : inodeOwners (observationsOf iterateOwners' snapshot') inode = [] := by
      refine List.eq_nil_iff_forall_not_mem.mpr fun o ho => hsocket ?_
      obtain ⟨owner, howner, hkind, hinode, -⟩ := exists_of_mem_inodeOwners ho
      exact ⟨owner, hperm.mem_iff.mpr howner, hkind, hinode⟩
    rw [hnone, hnone']

variable (hiterateInfos : ∀ l, (iterateInfos l).Perm l)
  (hiterateInfos' : ∀ l, (iterateInfos' l).Perm l)
include hiterateInfos hiterateInfos'

omit hiterate hiterate' in
/-- A tuple leads to the same inodes, in some order. -/
theorem reverseOf_reordered (t : Tuple) :
    (((reverseOf iterateInfos (observationsOf iterateOwners snapshot)).get? t).getD []).Perm
      (((reverseOf iterateInfos' (observationsOf iterateOwners' snapshot')).get? t).getD []) := by
  have hentries : (iterateInfos (observationsOf iterateOwners snapshot).infos.entries).Perm
      (iterateInfos' (observationsOf iterateOwners' snapshot').infos.entries) := by
    refine (hiterateInfos _).trans (List.Perm.trans ?_ (hiterateInfos' _).symm)
    exact OrderedMap.perm_of_get?_eq (get?_infos_reordered h hreordered)
  have hentry : reverseEntry (observationsOf iterateOwners snapshot).namespaces =
      reverseEntry (observationsOf iterateOwners' snapshot').namespaces := by
    funext ⟨inode, info⟩
    unfold reverseEntry
    dsimp only
    rw [get?_namespaces_reordered h hreordered inode]
  unfold reverseOf
  rw [getD_get?_group, getD_get?_group, hentry]
  exact ((hentries.filterMap _).filter _).map _

/-- A visit finds the same peers, in some order. -/
theorem found_reordered (v : Visit) :
    (v.found (observationsOf iterateOwners snapshot)
      (reverseOf iterateInfos (observationsOf iterateOwners snapshot))).Perm
    (v.found (observationsOf iterateOwners' snapshot')
      (reverseOf iterateInfos' (observationsOf iterateOwners' snapshot'))) := by
  have hinfo : socketInfo (observationsOf iterateOwners snapshot) v.resource v.endpoint =
      socketInfo (observationsOf iterateOwners' snapshot') v.resource v.endpoint := by
    unfold socketInfo
    rw [get?_infos_reordered h hreordered v.resource.inode]
  have hpeers : ∀ inode info, (peerInodes (observationsOf iterateOwners snapshot)
      (reverseOf iterateInfos (observationsOf iterateOwners snapshot)) inode info).Perm
      (peerInodes (observationsOf iterateOwners' snapshot')
      (reverseOf iterateInfos' (observationsOf iterateOwners' snapshot')) inode info) := by
    intro inode info
    unfold peerInodes
    split
    · exact List.Perm.refl _
    · split
      · split
        · rw [get?_namespaces_reordered h hreordered inode]
          exact ((reverseOf_reordered h hreordered hiterateInfos hiterateInfos' _).filter _).map _
        · exact List.Perm.refl _
      · exact List.Perm.refl _
  unfold Visit.found endpointMatches
  refine List.Perm.append_left _ ?_
  rw [hinfo]
  cases socketInfo (observationsOf iterateOwners' snapshot') v.resource v.endpoint with
  | none => exact List.Perm.refl _
  | some info =>
    refine ((hpeers v.resource.inode info).flatMap_right _).trans ?_
    refine List.Perm.flatMap_left _ fun peer _ => ?_
    dsimp only
    rw [inodeOwners_reordered h hreordered hiterate hiterate']

end Orders

/-! ## The flags that a visit finds -/

/-- The flags of a relation with an id. -/
def flagsOf (id : String) (r : FdRelation) : Option (Bool × Bool) :=
  if relationKey r = some id then some (r.candidate, r.shared) else none

/-- The flags of a match whose relation has an id. -/
def matchFlags (e : FdEndpoint) (id : String) (m : Match) : Option (Bool × Bool) :=
  if joinedId e m.peer = id then some (m.candidate, m.shared) else none

theorem matchFlags_eq_some {e : FdEndpoint} {id : String} {m : Match} {flags : Bool × Bool} :
    matchFlags e id m = some flags ↔ joinedId e m.peer = id ∧ flags = (m.candidate, m.shared) := by
  unfold matchFlags
  split
  · next hid => simp [hid, eq_comm]
  · next hid => simp [hid]

/-- The first flags of an id are those of the first match with the peer. -/
theorem findSome?_relations (id : String) (v : Visit) :
    (v.relations observations reverse).findSome? (flagsOf id) =
      (sortMatches (v.found observations reverse)).findSome? (matchFlags v.endpoint id) := by
  have hexternal : (v.external observations reverse).findSome? (flagsOf id) = none := by
    rw [List.findSome?_eq_none_iff]
    intro r hr
    unfold Visit.external at hr
    split at hr
    · rw [List.mem_singleton.mp hr]
      rfl
    · cases hr
  have hjoined : flagsOf id ∘ joinedRelation (v.info observations) v.endpoint =
      matchFlags v.endpoint id := by
    funext m
    unfold flagsOf matchFlags
    rw [Function.comp_apply, relationKey_joined]
    simp only [Option.some_inj]
    rfl
  rw [Visit.relations, List.findSome?_append, hexternal, Option.none_or, List.findSome?_map, hjoined]

/-- Matches of one visit that agree on whether they are shared agree on whether they are candidates:
a pipe has fellow owners only, and the unshared matches of a socket are either its recorded peer or
all candidates. -/
theorem candidate_eq_of_mem_found {v : Visit} {m m' : Match}
    (hm : m ∈ v.found observations reverse) (hm' : m' ∈ v.found observations reverse)
    (hshared : m.shared = m'.shared) : m.candidate = m'.candidate := by
  have hfellow : ∀ {m : Match}, m ∈ resourceMatches v.endpoints v.index v.endpoint →
      m.candidate = false ∧ (v.endpoint.kind = .socket → m.shared = true) := by
    intro m hm
    obtain ⟨_, -, -, hcandidate, hvalue, -, -⟩ := mem_resourceMatches.mp hm
    refine ⟨hcandidate, fun hkind => ?_⟩
    rw [hvalue, decide_eq_true hkind, Bool.true_or]
  rcases Visit.source hm with hf | ⟨info, peer, hkind, hinfo, hpeer, -, hunshared⟩
  · rcases Visit.source hm' with hf' | ⟨info', peer', hkind', -, -, -, hunshared'⟩
    · rw [(hfellow hf).1, (hfellow hf').1]
    · rw [(hfellow hf).2 hkind', hunshared'] at hshared
      cases hshared
  · rcases Visit.source hm' with hf' | ⟨info', peer', -, hinfo', hpeer', -, -⟩
    · rw [(hfellow hf').2 hkind, hunshared] at hshared
      cases hshared
    · obtain rfl : info = info' := Option.some.inj (hinfo.symm.trans hinfo')
      rcases mem_peerInodes.mp hpeer with ⟨hc, hp⟩ | ⟨hc, hp, -⟩
      · rcases mem_peerInodes.mp hpeer' with ⟨hc', -⟩ | ⟨-, hp', -⟩
        · rw [hc, hc']
        · rw [hp'] at hp
          cases hp
      · rcases mem_peerInodes.mp hpeer' with ⟨-, hp'⟩ | ⟨hc', -, -⟩
        · rw [hp] at hp'
          cases hp'
        · rw [hc, hc']

/-- The first flags do not depend on the order of the matches. -/
theorem findSome?_sortMatches_of_perm {found found' : List Match} (hperm : found.Perm found')
    (hagree : ∀ m ∈ found, ∀ m' ∈ found, m.shared = m'.shared → m.candidate = m'.candidate)
    (e : FdEndpoint) (id : String) :
    (sortMatches found).findSome? (matchFlags e id) =
      (sortMatches found').findSome? (matchFlags e id) := by
  have hpart : ∀ (b : Bool) (p : Match → Bool), (∀ m, p m = true → m.shared = b) →
      (found.filter p).findSome? (matchFlags e id) =
        (found'.filter p).findSome? (matchFlags e id) := by
    intro b p hp
    refine findSome?_eq_of_perm (hperm.filter p) fun m hm m' hm' flags flags' hflags hflags' => ?_
    obtain ⟨hmem, hb⟩ := List.mem_filter.mp hm
    obtain ⟨hmem', hb'⟩ := List.mem_filter.mp hm'
    have hshared : m.shared = m'.shared := (hp m hb).trans (hp m' hb').symm
    rw [(matchFlags_eq_some.mp hflags).2, (matchFlags_eq_some.mp hflags').2, hshared,
      hagree m hmem m' hmem' hshared]
  unfold sortMatches
  rw [List.findSome?_append, List.findSome?_append]
  rw [hpart false (fun m => !m.shared) fun m hm => by simpa using hm,
    hpart true (fun m => m.shared) fun m hm => hm]

/-! ## The flags that the visits to all owners find -/

/-- A socket that is found by its addresses has no recorded peer. -/
theorem peerInode_eq_none_of_mem (hcaptured : CapturedSockets snapshot)
    (hiterateInfos : ∀ l, (iterateInfos l).Perm l) {inode : UInt64} {info : SocketInfo} {t : Tuple}
    (hinfo : (observationsOf iterateOwners snapshot).infos.get? inode = some info)
    (hmem : inode ∈ ((reverseOf iterateInfos (observationsOf iterateOwners snapshot)).get? t).getD []) :
    info.peerInode = none := by
  obtain ⟨info', hinfo', hreverse⟩ := (mem_reverseOf hiterateInfos).mp hmem
  obtain rfl : info = info' := Option.some.inj (hinfo.symm.trans hinfo')
  obtain ⟨-, _, _, -, -, hprotocol, -⟩ := reverseEntry_eq_some.mp hreverse
  have hentry := OrderedMap.mem_of_mem_entries_ofList (OrderedMap.get?_eq_some_iff.mp hinfo)
  cases hpeer : info.peerInode with
  | none => rfl
  | some peer =>
    have hunix := hcaptured.unixPeers _ hentry (by rw [hpeer]; rfl)
    rw [hprotocol] at hunix
    cases hunix

section Owners

variable (hcaptured : CapturedSockets snapshot) (hiterate : ∀ l, (iterateOwners l).Perm l)
include hcaptured hiterate

/-- Owners of different resources that find each other are owners of sockets, of which the one has
the inode that the other has found. -/
theorem Visit.source_of_other {v : Visit} {m : Match} {owner owner' : IpcIdentity × List FdEndpoint}
    (howner : owner ∈ (observationsOf iterateOwners snapshot).owners.entries)
    (howner' : owner' ∈ (observationsOf iterateOwners snapshot).owners.entries)
    (hv : v ∈ visits owner) (hm : m ∈ v.found (observationsOf iterateOwners snapshot) reverse)
    {e : FdEndpoint} (he : e ∈ owner'.2) (hkey : m.peer.key = e.key) (hne : owner ≠ owner') :
    m.shared = false ∧ ∃ info,
      (observationsOf iterateOwners snapshot).infos.get? owner.1.inode = some info ∧
      (owner'.1.inode, m.candidate) ∈
        peerInodes (observationsOf iterateOwners snapshot) reverse owner.1.inode info := by
  obtain ⟨hresource, hendpoints, -⟩ := mem_visits.mp hv
  rcases Visit.source hm with hfellow | ⟨info, inode, hkind, hinfo, hpeer, hinodeOwner, hunshared⟩
  · obtain ⟨index, hpeer, -⟩ := mem_resourceMatches.mp hfellow
    have hmem : m.peer ∈ owner.2 := List.mem_of_getElem? (hendpoints ▸ hpeer)
    exact absurd (hcaptured.owner_unique hiterate howner howner' hmem he hkey).1 hne
  · obtain ⟨owner'', howner'', -, rfl, ho⟩ := exists_of_mem_inodeOwners hinodeOwner
    obtain ⟨rfl, -⟩ := hcaptured.owner_unique hiterate howner'' howner' ho he hkey
    rw [hresource] at hinfo hpeer
    exact ⟨hunshared, info, hinfo, hpeer⟩

variable (hiterateInfos : ∀ l, (iterateInfos l).Perm l)
include hiterateInfos

/-- Whichever owners find a pair first, its flags are the same. -/
theorem flags_agree {id : String} {owner owner' : IpcIdentity × List FdEndpoint}
    (howner : owner ∈ (observationsOf iterateOwners snapshot).owners.entries)
    (howner' : owner' ∈ (observationsOf iterateOwners snapshot).owners.entries) {v w : Visit}
    (hv : v ∈ visits owner) (hw : w ∈ visits owner') (hne : owner ≠ owner') {m m' : Match}
    (hm : m ∈ v.found (observationsOf iterateOwners snapshot)
      (reverseOf iterateInfos (observationsOf iterateOwners snapshot)))
    (hm' : m' ∈ w.found (observationsOf iterateOwners snapshot)
      (reverseOf iterateInfos (observationsOf iterateOwners snapshot)))
    (hid : joinedId v.endpoint m.peer = id) (hid' : joinedId w.endpoint m'.peer = id) :
    (m.candidate, m.shared) = (m'.candidate, m'.shared) := by
  have hve : v.endpoint ∈ owner.2 := List.mem_of_getElem? (mem_visits.mp hv).2.2
  have hwe : w.endpoint ∈ owner'.2 := List.mem_of_getElem? (mem_visits.mp hw).2.2
  rcases Sym2.eq_iff.mp (joinedId_eq_iff.mp (hid.trans hid'.symm)) with ⟨hkey, -⟩ | ⟨hkey', hkey⟩
  · exact absurd (hcaptured.owner_unique hiterate howner howner' hve hwe hkey).1 hne
  · -- each has found the other
    obtain ⟨hshared, info, hinfo, hpeer⟩ :=
      Visit.source_of_other hcaptured hiterate howner howner' hv hm hwe hkey hne
    obtain ⟨hshared', info', hinfo', hpeer'⟩ :=
      Visit.source_of_other hcaptured hiterate howner' howner hw hm' hve hkey'.symm hne.symm
    rw [hshared, hshared']
    rcases mem_peerInodes.mp hpeer with ⟨hc, hp⟩ | ⟨hc, -, _, _, -, -, -, -, hmem⟩
    · rcases mem_peerInodes.mp hpeer' with ⟨hc', -⟩ | ⟨-, -, _, _, -, -, -, -, hmem'⟩
      · rw [hc, hc']
      · rw [peerInode_eq_none_of_mem hcaptured hiterateInfos hinfo hmem'] at hp
        cases hp
    · rcases mem_peerInodes.mp hpeer' with ⟨-, hp'⟩ | ⟨hc', -⟩
      · rw [peerInode_eq_none_of_mem hcaptured hiterateInfos hinfo' hmem] at hp'
        cases hp'
      · rw [hc, hc']

end Owners

/-! ## Independence -/

theorem Reordered.symm (h : Reordered snapshot snapshot') : Reordered snapshot' snapshot :=
  ⟨h.owners.symm, h.sockets.symm, h.namespaces.symm, h.connections.symm, h.start.symm⟩

/-- A relation with a peer has the id of its ends, which are owners. -/
theorem ends_mem_owners {r : FdRelation} {peer : FdEndpoint}
    (hr : r ∈ foundRelations iterateOwners iterateInfos snapshot) (hpeer : r.peer = some peer) :
    r.id = joinedId r.endpoint peer ∧
      (∃ owner ∈ (observationsOf iterateOwners snapshot).owners.entries, r.endpoint ∈ owner.2) ∧
      ∃ owner ∈ (observationsOf iterateOwners snapshot).owners.entries, peer ∈ owner.2 := by
  obtain ⟨v, hv, hr⟩ := List.mem_flatMap.mp hr
  obtain ⟨owner, howner, hvisit⟩ := List.mem_flatMap.mp hv
  obtain ⟨-, hendpoints, hindex⟩ := mem_visits.mp hvisit
  rcases Visit.mem_relations.mp hr with ⟨-, rfl⟩ | ⟨m, hm, rfl⟩
  · cases hpeer
  · cases hpeer
    refine ⟨rfl, ⟨owner, howner, List.mem_of_getElem? hindex⟩, ?_⟩
    rcases Visit.source hm with hfellow | ⟨_, _, -, -, -, hinodeOwner, -⟩
    · obtain ⟨_, hget, -⟩ := mem_resourceMatches.mp hfellow
      exact ⟨owner, howner, List.mem_of_getElem? (hendpoints ▸ hget)⟩
    · obtain ⟨owner', howner', -, -, ho⟩ := exists_of_mem_inodeOwners hinodeOwner
      exact ⟨owner', howner', ho⟩

theorem relationKey_eq_some {r : FdRelation} {id : String} :
    relationKey r = some id ↔ (∃ peer, r.peer = some peer) ∧ r.id = id := by
  unfold relationKey
  cases hpeer : r.peer with
  | none => simp
  | some peer => simp

section Independence

variable (hcaptured : CapturedSockets snapshot) (hreordered : Reordered snapshot snapshot')
  (hiterate : ∀ l, (iterateOwners l).Perm l) (hiterate' : ∀ l, (iterateOwners' l).Perm l)
  (hiterateInfos : ∀ l, (iterateInfos l).Perm l) (hiterateInfos' : ∀ l, (iterateInfos' l).Perm l)
include hcaptured hreordered hiterate hiterate' hiterateInfos hiterateInfos'

/-- The first flags of an id are the same. -/
theorem findSome?_found_reordered (id : String) :
    (foundRelations iterateOwners iterateInfos snapshot).findSome? (flagsOf id) =
      (foundRelations iterateOwners' iterateInfos' snapshot').findSome? (flagsOf id) := by
  have hvisit : ∀ v : Visit, (v.relations (observationsOf iterateOwners snapshot)
      (reverseOf iterateInfos (observationsOf iterateOwners snapshot))).findSome? (flagsOf id) =
      (v.relations (observationsOf iterateOwners' snapshot')
        (reverseOf iterateInfos' (observationsOf iterateOwners' snapshot'))).findSome?
          (flagsOf id) := by
    intro v
    rw [findSome?_relations, findSome?_relations]
    exact findSome?_sortMatches_of_perm
      (found_reordered hcaptured hreordered hiterate hiterate' hiterateInfos hiterateInfos' v)
      (fun m hm m' hm' => candidate_eq_of_mem_found hm hm') v.endpoint id
  unfold foundRelations allVisits
  dsimp only
  rw [findSome?_flatMap, findSome?_flatMap, findSome?_flatMap, findSome?_flatMap, ← funext hvisit]
  refine findSome?_eq_of_perm (owners_reordered hcaptured hreordered hiterate hiterate')
    fun owner howner owner' howner' flags flags' hflags hflags' => ?_
  by_cases hsame : owner = owner'
  · subst hsame
    exact Option.some.inj (hflags.symm.trans hflags')
  · obtain ⟨v, hv, hflags⟩ := List.exists_of_findSome?_eq_some hflags
    obtain ⟨w, hw, hflags'⟩ := List.exists_of_findSome?_eq_some hflags'
    rw [findSome?_relations] at hflags hflags'
    obtain ⟨m, hm, hflags⟩ := List.exists_of_findSome?_eq_some hflags
    obtain ⟨m', hm', hflags'⟩ := List.exists_of_findSome?_eq_some hflags'
    obtain ⟨hid, rfl⟩ := matchFlags_eq_some.mp hflags
    obtain ⟨hid', rfl⟩ := matchFlags_eq_some.mp hflags'
    exact flags_agree hcaptured hiterate hiterateInfos howner howner' hv hw hsame
      (mem_sortMatches.mp hm) (mem_sortMatches.mp hm') hid hid'

/-- What the one run joins the other joins. -/
theorem joinedPairs_subset {kept kept' : List FdRelation}
    (hkept : KeepsAll iterateOwners iterateInfos snapshot kept)
    (hkept' : KeepsAll iterateOwners' iterateInfos' snapshot' kept') :
    joinedPairs kept ⊆ joinedPairs kept' := by
  rintro t ⟨r, hr, peer, hpeer, rfl⟩
  have hfirst := congrArg (Option.map fun r => (r.candidate, r.shared))
    (hkept.find?_of_mem hr (relationKey_eq_some.mpr ⟨⟨peer, hpeer⟩, rfl⟩))
  rw [map_find?_eq_findSome?] at hfirst
  simp only [decide_eq_true_eq] at hfirst
  have hfirst' := (findSome?_found_reordered hcaptured hreordered hiterate hiterate' hiterateInfos
    hiterateInfos' r.id).symm.trans hfirst
  obtain ⟨r', hr', hflags⟩ : ∃ r', (foundRelations iterateOwners' iterateInfos' snapshot').find?
      (fun y => relationKey y = some r.id) = some r' ∧
        (r'.candidate, r'.shared) = (r.candidate, r.shared) := by
    have hmap := map_find?_eq_findSome? (p := fun y => decide (relationKey y = some r.id))
      (g := fun y : FdRelation => (y.candidate, y.shared))
      (l := foundRelations iterateOwners' iterateInfos' snapshot')
    simp only [decide_eq_true_eq] at hmap
    exact Option.map_eq_some_iff.mp (hmap.trans hfirst')
  obtain ⟨⟨peer', hpeer'⟩, hid⟩ := relationKey_eq_some.mp
    (by simpa using List.find?_some hr' : relationKey r' = some r.id)
  -- the ends are the same owners
  have hperm := owners_reordered hcaptured hreordered hiterate hiterate'
  obtain ⟨hidr, ⟨o, ho, he⟩, ⟨p, hp, hpe⟩⟩ := ends_mem_owners (hkept.sublist.subset hr) hpeer
  obtain ⟨hidr', ⟨o', ho', he'⟩, ⟨p', hp', hpe'⟩⟩ :=
    ends_mem_owners (List.mem_of_find?_eq_some hr') hpeer'
  have ho'' := hperm.mem_iff.mpr ho'
  have hp'' := hperm.mem_iff.mpr hp'
  have hends : s(r.endpoint, peer) = s(r'.endpoint, peer') := by
    rw [hidr, hidr', joinedId_eq_iff, Sym2.eq_iff] at hid
    rw [Sym2.eq_iff]
    rcases hid with ⟨h₁, h₂⟩ | ⟨h₁, h₂⟩
    · exact .inl ⟨(hcaptured.owner_unique hiterate ho ho'' he he' h₁.symm).2,
        (hcaptured.owner_unique hiterate hp hp'' hpe hpe' h₂.symm).2⟩
    · exact .inr ⟨(hcaptured.owner_unique hiterate ho hp'' he hpe' h₂.symm).2,
        (hcaptured.owner_unique hiterate hp ho'' hpe he' h₁.symm).2⟩
  refine ⟨r', hkept'.mem_of_find? hr', peer', hpeer', ?_⟩
  rw [hends, (Prod.mk.inj hflags).1, (Prod.mk.inj hflags).2]

/-- The same pairs are joined, with the same flags. -/
theorem joinedPairs_reordered
    (h : (buildIpcRelations iterateOwners iterateInfos snapshot).2 = false)
    (h' : (buildIpcRelations iterateOwners' iterateInfos' snapshot').2 = false) :
    joinedPairs (buildIpcRelations iterateOwners iterateInfos snapshot).1.fdRelations =
      joinedPairs (buildIpcRelations iterateOwners' iterateInfos' snapshot').1.fdRelations := by
  have hpairs : ∀ {kept : List FdRelation} {enrich : FdRelation → FdRelation},
      (∀ r, SameEnds (enrich r) r) → joinedPairs (kept.map enrich) = joinedPairs kept := by
    intro kept enrich hsame
    ext t
    constructor
    · rintro ⟨s, hs, peer, hpeer, rfl⟩
      obtain ⟨r, hr, rfl⟩ := List.mem_map.mp hs
      refine ⟨r, hr, peer, (hsame r).peer.symm.trans hpeer, ?_⟩
      rw [(hsame r).endpoint, (hsame r).candidate, (hsame r).shared]
    · rintro ⟨r, hr, peer, hpeer, rfl⟩
      refine ⟨enrich r, List.mem_map_of_mem hr, peer, (hsame r).peer.trans hpeer, ?_⟩
      rw [(hsame r).endpoint, (hsame r).candidate, (hsame r).shared]
  have hlength : ∀ {s : SystemSnapshot}, s.fdRelations = [] →
      s.fdRelations.length < Limits.standard.relations := by
    intro s hs
    rw [hs]
    decide
  have hcaptured' := hcaptured.of_reordered hreordered
  obtain ⟨kept, enrich, hkeeps, hsame, hrelations⟩ :=
    exists_keeps iterateOwners iterateInfos .standard snapshot
  obtain ⟨kept', enrich', hkeeps', hsame', hrelations'⟩ :=
    exists_keeps iterateOwners' iterateInfos' .standard snapshot'
  have hall := hkeeps.complete (hlength hcaptured.start) h
  have hall' := hkeeps'.complete (hlength hcaptured'.start) h'
  rw [hcaptured.start, List.nil_append] at hrelations
  rw [hcaptured'.start, List.nil_append] at hrelations'
  unfold buildIpcRelations
  rw [hrelations, hrelations', hpairs hsame, hpairs hsame']
  exact Set.Subset.antisymm
    (joinedPairs_subset hcaptured hreordered hiterate hiterate' hiterateInfos hiterateInfos' hall
      hall')
    (joinedPairs_subset hcaptured' hreordered.symm hiterate' hiterate hiterateInfos' hiterateInfos
      hall' hall)

end Independence

/-- Every relation with a peer that is built is accounted for by what was captured.  When the
captured lists have distinct resources, inodes and descriptors, peer inodes are recorded for UNIX
sockets only and nothing is left out, neither the order of the lists nor that of the hash maps
changes which pairs are joined and with which flags. -/
theorem buildIpcRelations_justified (hiterate : ∀ l, (iterateOwners l).Perm l)
    (hiterateInfos : ∀ l, (iterateInfos l).Perm l) :
    (∀ r ∈ (buildIpcRelations iterateOwners iterateInfos snapshot).1.fdRelations.drop
        snapshot.fdRelations.length, ∀ peer, r.peer = some peer → Justified snapshot r peer) ∧
      (CapturedSockets snapshot → ∀ iterateOwners' iterateInfos' snapshot',
        (∀ l, (iterateOwners' l).Perm l) → (∀ l, (iterateInfos' l).Perm l) →
        Reordered snapshot snapshot' →
        (buildIpcRelations iterateOwners iterateInfos snapshot).2 = false →
        (buildIpcRelations iterateOwners' iterateInfos' snapshot').2 = false →
        joinedPairs (buildIpcRelations iterateOwners iterateInfos snapshot).1.fdRelations =
          joinedPairs (buildIpcRelations iterateOwners' iterateInfos' snapshot').1.fdRelations) := by
  constructor
  · intro r hr peer hpeer
    obtain ⟨kept, enrich, hkeeps, hsame, hrelations⟩ :=
      exists_keeps iterateOwners iterateInfos .standard snapshot
    unfold buildIpcRelations at hr
    rw [hrelations, List.map_append, List.drop_left' (List.length_map _)] at hr
    obtain ⟨s, hs, rfl⟩ := List.mem_map.mp hr
    obtain ⟨v, hv, hfound⟩ := List.mem_flatMap.mp (hkeeps.sublist.subset hs)
    rw [(hsame s).peer] at hpeer
    rcases Visit.mem_relations.mp hfound with ⟨-, rfl⟩ | ⟨m, hm, rfl⟩
    · cases hpeer
    · cases hpeer
      exact justified_of_mem_found hiterate hiterateInfos hv hm (hsame _).endpoint
        (hsame _).candidate (hsame _).shared
  · intro hcaptured iterateOwners' iterateInfos' snapshot' hiterate' hiterateInfos' hreordered
    exact joinedPairs_reordered hcaptured hreordered hiterate hiterate' hiterateInfos hiterateInfos'

/-! ### An example -/

def tcpInfo (localAddr remoteAddr : SocketAddr) : SocketInfo :=
  ⟨.tcp .ipv4, some .established, some localAddr, some remoteAddr, none, none⟩

def serverAddr : SocketAddr := .v4 ⟨[127, 0, 0, 1], rfl⟩ 80

def clientAddr : SocketAddr := .v4 ⟨[127, 0, 0, 1], rfl⟩ 50000

def tcpResource (inode : UInt64) : IpcIdentity := ⟨.socket, ⟨0, 8⟩, inode⟩

/-- A connection to a server that shares its socket with a child. -/
def connectedSnapshot : SystemSnapshot :=
  { capturedSnapshot with
    rawOwners := [
      (tcpResource 8, [owner 2 5 (tcpResource 8) .socket .readWrite,
        owner 6 5 (tcpResource 8) .socket .readWrite]),
      (tcpResource 9, [owner 3 5 (tcpResource 9) .socket .readWrite])]
    rawSockets := [(8, tcpInfo serverAddr clientAddr), (9, tcpInfo clientAddr serverAddr)]
    rawNamespaces := [(8, (4, 1)), (9, (4, 1))] }

/-- The connection is a candidate with a reason, in every order of the lists and the maps. -/
theorem buildIpcRelations_connectedSnapshot :
    (∃ r ∈ (buildIpcRelations id id connectedSnapshot).1.fdRelations, r.candidate = true ∧
      ∃ peer, r.peer = some peer ∧ Justified connectedSnapshot r peer) ∧
      joinedPairs (buildIpcRelations id id connectedSnapshot).1.fdRelations =
        joinedPairs (buildIpcRelations List.reverse List.reverse { connectedSnapshot with
          rawOwners := connectedSnapshot.rawOwners.reverse
          rawSockets := connectedSnapshot.rawSockets.reverse }).1.fdRelations := by
  have hcaptured : CapturedSockets connectedSnapshot :=
    ⟨⟨by decide, by decide, by decide, rfl⟩, by decide, by decide, by decide⟩
  obtain ⟨hjustified, horder⟩ := @buildIpcRelations_justified id id connectedSnapshot
    (fun l => List.Perm.refl l) fun l => List.Perm.refl l
  constructor
  · have hfind : ((buildIpcRelations id id connectedSnapshot).1.fdRelations.find? fun r =>
        r.candidate && r.peer.isSome).isSome = true := by decide +kernel
    obtain ⟨r, hr⟩ := Option.isSome_iff_exists.mp hfind
    have hflags := List.find?_some hr
    rw [Bool.and_eq_true] at hflags
    obtain ⟨peer, hpeer⟩ := Option.isSome_iff_exists.mp hflags.2
    have hmem := List.mem_of_find?_eq_some hr
    exact ⟨r, hmem, hflags.1, peer, hpeer, hjustified r hmem peer hpeer⟩
  · refine horder hcaptured List.reverse List.reverse _ List.reverse_perm List.reverse_perm ?_
      (by decide +kernel) (by decide +kernel)
    exact ⟨(List.reverse_perm _).symm, (List.reverse_perm _).symm, List.Perm.refl _, rfl, rfl⟩

end Procinsh.Analysis
