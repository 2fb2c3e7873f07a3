import Procinsh.Analysis.OrderIndependence

/-!
# Unshared relations

A pair that is found unshared from one of its ends is related by an unshared relation, whichever
visit finds it first: a visit puts its unshared matches in front, what is opposite at one end of a
pipe is so at the other, and the owners of a socket that is its own peer all find each other so.
-/

namespace Procinsh.Analysis

open Ipc

variable {iterateOwners : List (IpcIdentity × List FdEndpoint) → List (IpcIdentity × List FdEndpoint)}
  {iterateInfos : List (UInt64 × SocketInfo) → List (UInt64 × SocketInfo)}
  {snapshot : SystemSnapshot} {kept : List FdRelation} {reverse : OrderedMap Tuple (List UInt64)}

theorem FdAccess_opposite_comm (a b : FdAccess) : a.opposite b = b.opposite a := by
  cases a with
  | read => cases b with | _ => rfl
  | write => cases b with | _ => rfl
  | readWrite => cases b with | _ => rfl
  | unknown => cases b with | _ => rfl

/-- When the first match of an id is shared, all matches of the visit with the id are. -/
theorem shared_of_findSome?_sortMatches {found : List Match} {e : FdEndpoint} {id : String}
    {candidate : Bool} (h : (sortMatches found).findSome? (matchFlags e id) = some (candidate, true)) :
    (∃ m ∈ found, joinedId e m.peer = id ∧ m.shared = true) ∧
      ∀ m ∈ found, joinedId e m.peer = id → m.shared = true := by
  obtain ⟨m, hm, hflags⟩ := List.exists_of_findSome?_eq_some h
  obtain ⟨hid, hvalue⟩ := matchFlags_eq_some.mp hflags
  refine ⟨⟨m, mem_sortMatches.mp hm, hid, (Prod.mk.inj hvalue).2.symm⟩, fun m' hm' hid' => ?_⟩
  rw [sortMatches, List.findSome?_append] at h
  cases hfirst : (found.filter fun m => !m.shared).findSome? (matchFlags e id) with
  | none =>
    by_contra hunshared
    have hmem : m' ∈ found.filter fun m => !m.shared :=
      List.mem_filter.mpr ⟨hm', by simpa using hunshared⟩
    have hnone := List.findSome?_eq_none_iff.mp hfirst m' hmem
    rw [matchFlags, if_pos hid'] at hnone
    cases hnone
  | some flags =>
    rw [hfirst, Option.some_or] at h
    cases h
    obtain ⟨m'', hm'', hflags''⟩ := List.exists_of_findSome?_eq_some hfirst
    have hshared := (Prod.mk.inj (matchFlags_eq_some.mp hflags'').2).2
    have hunshared := (List.mem_filter.mp hm'').2
    rw [← hshared] at hunshared
    cases hunshared

/-- A relation that is kept has the first flags of its id. -/
theorem findSome?_flagsOf_of_mem (hkept : KeepsAll iterateOwners iterateInfos snapshot kept)
    {r : FdRelation} (hr : r ∈ kept) {peer : FdEndpoint} (hpeer : r.peer = some peer) :
    (foundRelations iterateOwners iterateInfos snapshot).findSome? (flagsOf r.id) =
      some (r.candidate, r.shared) := by
  have hfirst := congrArg (Option.map fun r => (r.candidate, r.shared))
    (hkept.find?_of_mem hr (relationKey_eq_some.mpr ⟨⟨peer, hpeer⟩, rfl⟩))
  rw [map_find?_eq_findSome?] at hfirst
  simp only [decide_eq_true_eq] at hfirst
  exact hfirst

section Pairs

variable (hcaptured : CapturedSockets snapshot) (hiterate : ∀ l, (iterateOwners l).Perm l)
include hcaptured hiterate

/-- An unshared match with an owner of the same resource: it is opposite, or the socket is its own
peer. -/
theorem opposite_or_self {v : Visit} {m : Match} {owner : IpcIdentity × List FdEndpoint}
    (howner : owner ∈ (observationsOf iterateOwners snapshot).owners.entries) (hv : v ∈ visits owner)
    (hm : m ∈ v.found (observationsOf iterateOwners snapshot) reverse) (hunshared : m.shared = false)
    {e : FdEndpoint} (he : e ∈ owner.2) (hkey : m.peer.key = e.key) :
    (v.endpoint.kind ≠ .socket ∧ v.endpoint.access.opposite e.access = true) ∨
      v.endpoint.kind = .socket ∧ owner.1.kind = .socket ∧ ∃ info,
        (observationsOf iterateOwners snapshot).infos.get? owner.1.inode = some info ∧
        (owner.1.inode, m.candidate) ∈
          peerInodes (observationsOf iterateOwners snapshot) reverse owner.1.inode info := by
  obtain ⟨hresource, hendpoints, -⟩ := mem_visits.mp hv
  rcases Visit.source hm with hfellow | ⟨info, inode, hkind, hinfo, hpeer, hinodeOwner, -⟩
  · obtain ⟨_, hget, -, -, hvalue, -, -⟩ := mem_resourceMatches.mp hfellow
    obtain ⟨-, rfl⟩ := hcaptured.owner_unique hiterate howner howner
      (List.mem_of_getElem? (hendpoints ▸ hget)) he hkey
    rw [hunshared, eq_comm, Bool.or_eq_false_iff, decide_eq_false_iff_not] at hvalue
    exact .inl ⟨hvalue.1, by simpa using hvalue.2⟩
  · obtain ⟨owner', howner', hsocket, rfl, ho⟩ := exists_of_mem_inodeOwners hinodeOwner
    obtain ⟨rfl, -⟩ := hcaptured.owner_unique hiterate howner' howner ho he hkey
    rw [hresource] at hinfo hpeer
    exact .inr ⟨hkind, hsocket, info, hinfo, hpeer⟩

variable (hkinds : ∀ owner ∈ (observationsOf iterateOwners snapshot).owners.entries,
  ∀ a ∈ owner.2, ∀ b ∈ owner.2, a.kind = b.kind)
include hkinds

/-- What one owner of a resource finds unshared at another, the other finds unshared, too, unless it
finds nothing there. -/
theorem unshared_symm {v w : Visit} {m m' : Match} {owner : IpcIdentity × List FdEndpoint}
    (howner : owner ∈ (observationsOf iterateOwners snapshot).owners.entries) (hv : v ∈ visits owner)
    (hw : w ∈ visits owner) (hm : m ∈ v.found (observationsOf iterateOwners snapshot) reverse)
    (hm' : m' ∈ w.found (observationsOf iterateOwners snapshot) reverse)
    (hunshared : m.shared = false) (hkey : m.peer.key = w.endpoint.key)
    (hkey' : m'.peer.key = v.endpoint.key) :
    ∃ m'' ∈ w.found (observationsOf iterateOwners snapshot) reverse,
      m''.peer.key = v.endpoint.key ∧ m''.shared = false := by
  obtain ⟨-, -, hindex⟩ := mem_visits.mp hv
  obtain ⟨hresource', hendpoints', hindex'⟩ := mem_visits.mp hw
  have hve : v.endpoint ∈ owner.2 := List.mem_of_getElem? hindex
  have hwe : w.endpoint ∈ owner.2 := List.mem_of_getElem? hindex'
  have hkind := hkinds owner howner _ hve _ hwe
  rcases opposite_or_self hcaptured hiterate howner hv hm hunshared hwe hkey with
    ⟨hpipe, hopposite⟩ | ⟨hsocketEnd, hsocket, info, hinfo, hpeer⟩
  · refine ⟨m', hm', hkey', ?_⟩
    rcases Visit.source hm' with hfellow | ⟨_, _, -, -, -, -, hfalse⟩
    · obtain ⟨_, hget, -, -, hvalue, -, -⟩ := mem_resourceMatches.mp hfellow
      obtain ⟨-, hsame⟩ := hcaptured.owner_unique hiterate howner howner
        (List.mem_of_getElem? (hendpoints' ▸ hget)) hve hkey'
      rw [hvalue, hsame, ← hkind, decide_eq_false hpipe, FdAccess_opposite_comm, hopposite]
      rfl
    · exact hfalse
  · -- the owners of the socket are the owners at its other end
    have howners := inodeOwners_eq (hcaptured.nodup_inodes hiterate) howner hsocket
    have hmatch : (⟨v.endpoint, m.candidate, false, info.protocol.display⟩ : Match) ∈
        socketMatches (observationsOf iterateOwners snapshot) reverse owner.1.inode info :=
      mem_socketMatches.mpr ⟨owner.1.inode, hpeer, howners.symm ▸ hve, rfl, rfl⟩
    rw [← hresource'] at hinfo hmatch
    exact ⟨_, mem_endpointMatches.mpr (.inr ⟨info, hkind.symm.trans hsocketEnd, hinfo, hmatch⟩), rfl,
      rfl⟩

/-- A pair that is found unshared is not found shared first. -/
theorem not_shared_of_unshared (hiterateInfos : ∀ l, (iterateInfos l).Perm l)
    (hkept : KeepsAll iterateOwners iterateInfos snapshot kept)
    {r : FdRelation} (hr : r ∈ kept) {peer : FdEndpoint} (hpeer : r.peer = some peer) {v : Visit}
    (hv : v ∈ allVisits iterateOwners snapshot) {m : Match}
    (hm : m ∈ v.found (observationsOf iterateOwners snapshot)
      (reverseOf iterateInfos (observationsOf iterateOwners snapshot)))
    (hunshared : m.shared = false) (hid : joinedId v.endpoint m.peer = r.id) : r.shared = false := by
  by_contra hshared
  have hfirst := findSome?_flagsOf_of_mem hkept hr hpeer
  rw [Bool.eq_true_of_not_eq_false hshared, foundRelations, findSome?_flatMap] at hfirst
  obtain ⟨w, hw, hflags⟩ := List.exists_of_findSome?_eq_some hfirst
  rw [findSome?_relations] at hflags
  obtain ⟨⟨m', hm', hid', hshared'⟩, hall⟩ := shared_of_findSome?_sortMatches hflags
  -- the visit that finds the pair first finds no unshared match for it
  have hnone : ∀ m'' ∈ w.found (observationsOf iterateOwners snapshot)
      (reverseOf iterateInfos (observationsOf iterateOwners snapshot)),
      joinedId w.endpoint m''.peer = r.id → m''.shared ≠ false := by
    intro m'' hm'' hid''
    rw [hall m'' hm'' hid'']
    decide
  obtain ⟨owner, howner, hvisit⟩ := List.mem_flatMap.mp hv
  obtain ⟨owner', howner', hvisit'⟩ := List.mem_flatMap.mp hw
  by_cases hsame : owner = owner'
  · subst hsame
    rcases Sym2.eq_iff.mp (joinedId_eq_iff.mp (hid.trans hid'.symm)) with ⟨hkey, -⟩ | ⟨hkey', hkey⟩
    · obtain rfl : v = w := List.inj_on_of_nodup_map (hcaptured.nodup_keys hiterate) hv hw hkey
      exact hnone m hm hid hunshared
    · obtain ⟨m'', hm'', hback, hfalse⟩ := unshared_symm hcaptured hiterate hkinds howner hvisit
        hvisit' hm hm' hunshared hkey hkey'.symm
      refine hnone m'' hm'' ?_ hfalse
      rw [← hid', joinedId_eq_iff, hback, hkey']
  · have hflags := flags_agree hcaptured hiterate hiterateInfos howner howner' hvisit hvisit' hsame
      hm hm' hid hid'
    have hequal := (Prod.mk.inj hflags).2
    rw [hunshared, hshared'] at hequal
    cases hequal

/-- The unshared relations that are kept join the pairs that are found unshared. -/
theorem exists_unshared_iff (hiterateInfos : ∀ l, (iterateInfos l).Perm l)
    (hkept : KeepsAll iterateOwners iterateInfos snapshot kept) {t : Sym2 (ProcessId × UInt32)} :
    (∃ r ∈ kept, ∃ peer, r.peer = some peer ∧ r.shared = false ∧ t = s(r.endpoint.key, peer.key)) ↔
      ∃ v ∈ allVisits iterateOwners snapshot,
        ∃ m ∈ v.found (observationsOf iterateOwners snapshot)
          (reverseOf iterateInfos (observationsOf iterateOwners snapshot)),
          m.shared = false ∧ t = s(v.endpoint.key, m.peer.key) := by
  constructor
  · rintro ⟨r, hr, peer, hpeer, hunshared, rfl⟩
    obtain ⟨v, hv, hfound⟩ := List.mem_flatMap.mp (hkept.sublist.subset hr)
    rcases Visit.mem_relations.mp hfound with ⟨-, rfl⟩ | ⟨m, hm, rfl⟩
    · cases hpeer
    · cases hpeer
      exact ⟨v, hv, m, hm, hunshared, rfl⟩
  · rintro ⟨v, hv, m, hm, hunshared, rfl⟩
    obtain ⟨r, hr, peer, hpeer, hkeys⟩ := exists_joins hkept hv hm
    have hid := (ends_mem_owners (hkept.sublist.subset hr) hpeer).1
    rw [← joinedId_eq_iff] at hkeys
    exact ⟨r, hr, peer, hpeer, not_shared_of_unshared hcaptured hiterate hkinds hiterateInfos hkept
      hr hpeer hv hm hunshared (hkeys.symm.trans hid.symm), (joinedId_eq_iff.mp hkeys).symm⟩

end Pairs

end Procinsh.Analysis
