import Procinsh.Correlation.Rdma
import Procinsh.Correlation.Sockets
import Procinsh.Foundation.Joining
import Procinsh.Space.Qualify

/-!
# Composing hosts

`composeHosts` (`web/src/space/hosts.ts`) puts the qualified snapshots of all hosts together.  Each
cross-host link replaces its two external relations by one whose peer is on the other host.  Links
arrive apart from snapshots, so a link may name relations that are gone, or that another link has
taken.

Nothing is lost and nothing occurs twice: a relation stays as it is or is one side of one joined
relation.  The id of a joined relation is made of the ids of its sides, with a separator in between;
it differs from every other id as long as the hosts do not use the separator in their own ids.
-/

namespace Procinsh.Space

open Correlation (LinkEnd SocketLink RdmaLink)

/-- The links between hosts; servers without RDMA support send no RDMA links. -/
structure CrossHostLinks where
  sockets : List SocketLink
  rdma : Option (List RdmaLink)

/-- The qualified id of the relation at an end of a link. -/
def LinkEnd.id (e : LinkEnd) : String := hostId e.host e.relation

/-- The qualified ids at the ends of a link. -/
def socketLinkIds (link : SocketLink) : String × String := (LinkEnd.id link.a, LinkEnd.id link.b)

def rdmaLinkIds (link : RdmaLink) : String × String := (LinkEnd.id link.a, LinkEnd.id link.b)

/-- One relation in place of the two ends of a socket link. -/
def joinFd : SocketLink × FdRelation × FdRelation → FdRelation
  | (link, a, b) =>
    { a with
      id := a.id ++ "|" ++ b.id
      peer := some b.endpoint
      label := a.label ++ " ↔ " ++ link.b.host
      candidate := false
      shared := false }

/-- One relation in place of the two ends of an RDMA link. -/
def joinRdma : RdmaLink × RdmaRelation × RdmaRelation → RdmaRelation
  | (link, a, b) =>
    { a with
      id := a.id ++ "|" ++ b.id
      peer := some b.endpoint
      label := "RDMA " ++ link.a.host ++ " QP " ++ toString a.endpoint.qpn ++ " ↔ " ++
        link.b.host ++ " QP " ++ toString b.endpoint.qpn }

/-- The relations of all snapshots by their ids. -/
def fdById (all : List SystemSnapshot) : OrderedMap String FdRelation :=
  .ofList (all.flatMap fun s => s.fdRelations.map fun r => (r.id, r))

def rdmaById (all : List SystemSnapshot) : OrderedMap String RdmaRelation :=
  .ofList (all.flatMap fun s => (s.rdmaRelations.getD []).map fun r => (r.id, r))

/-- The relations that no socket link has taken, and those that links have taken. -/
def takeFd (all : List SystemSnapshot) (sockets : List SocketLink) :
    OrderedMap String FdRelation × List (SocketLink × FdRelation × FdRelation) :=
  (fdById all).takePairs FdRelation.id socketLinkIds sockets

/-- The relations that no RDMA link has taken, and those that links have taken. -/
def takeRdma (all : List SystemSnapshot) (rdma : List RdmaLink) :
    OrderedMap String RdmaRelation × List (RdmaLink × RdmaRelation × RdmaRelation) :=
  (rdmaById all).takePairs RdmaRelation.id rdmaLinkIds rdma

/-- Concatenates qualified host snapshots in layer order. -/
def composeHosts (snapshots : OrderedMap String SystemSnapshot) (links : CrossHostLinks) :
    SystemSnapshot :=
  let all := snapshots.values
  let (rdma, joinedRdma) := takeRdma all (links.rdma.getD [])
  let (fd, joined) := takeFd all links.sockets
  { processes := all.flatMap SystemSnapshot.processes
    fdRelations := fd.values ++ joined.map joinFd
    rdmaRelations := some (rdma.values ++ joinedRdma.map joinRdma)
    rdmaPorts := some (all.flatMap fun s => s.rdmaPorts.getD [])
    hardwareDevices := some (all.flatMap fun s => s.hardwareDevices.getD [])
    hardwarePaths := some (all.flatMap fun s => s.hardwarePaths.getD [])
    deviceHandles := some (all.flatMap fun s => s.deviceHandles.getD [])
    sequence := none }

/-- The qualified snapshots of hosts in layer order. -/
def qualifyHosts (hosts : List (String × SystemSnapshot)) : OrderedMap String SystemSnapshot :=
  .ofList (hosts.map fun h => (h.1, qualifySnapshot h.1 h.2))

/-! ## Joined relations -/

section Joined

variable {R L : Type} {id : R → String} {ids : L → String × String} {join : L × R × R → R}
  {all result : List R} {links : List L}

/-- Relations that are kept or joined: each of them occurs once in the result, as it is or as one
side of a joined relation. -/
def Joined (id : R → String) (ids : L → String × String) (join : L × R × R → R) (all : List R)
    (links : List L) (result : List R) : Prop :=
  ∃ (kept : List R) (pairs : List (L × R × R)), result = kept ++ pairs.map join ∧
    (kept ++ pairs.flatMap OrderedMap.sides).Perm all ∧
    ∀ pair ∈ pairs, pair.1 ∈ links ∧ id pair.2.1 = (ids pair.1).1 ∧ id pair.2.2 = (ids pair.1).2

/-- Qualified ids whose local part does not have the separator. -/
def Separated (id : R → String) (all : List R) : Prop :=
  ∀ r ∈ all, ∃ host value, id r = hostId host value ∧ '@' ∉ host.toList ∧ '|' ∉ value.toList

/-- The two ids of a joined id are found again. -/
theorem join_inj {a b a' b' : String} {host value host' value' : String} (ha : a = hostId host value)
    (ha' : a' = hostId host' value') (hhost : '@' ∉ host.toList) (hhost' : '@' ∉ host'.toList)
    (hvalue : '|' ∉ value.toList) (hvalue' : '|' ∉ value'.toList)
    (h : a ++ "|" ++ b = a' ++ "|" ++ b') : a = a' := by
  have hlists := congrArg String.toList h
  have hsplit : ∀ x y : String, (x ++ "|" ++ y).toList = x.toList ++ '|' :: y.toList := fun x y => by
    rw [String.toList_append, String.toList_append, List.append_assoc]
    rfl
  rw [hsplit, hsplit, ha, ha', toList_hostId, toList_hostId, List.append_assoc, List.append_assoc,
    List.cons_append, List.cons_append] at hlists
  obtain ⟨hhosts, hrest⟩ := append_cons_inj_of_notMem hhost hhost' hlists
  obtain ⟨hvalues, -⟩ := append_cons_inj_of_notMem hvalue hvalue' hrest
  rw [ha, ha', String.toList_inj.mp hhosts, String.toList_inj.mp hvalues]

/-- A joined id is not a qualified id without the separator. -/
theorem join_ne {a b c : String} {host value host' value' : String} (ha : a = hostId host value)
    (hc : c = hostId host' value') (hhost : '@' ∉ host.toList) (hhost' : '@' ∉ host'.toList)
    (hvalue' : '|' ∉ value'.toList) : a ++ "|" ++ b ≠ c := by
  intro h
  have hlists := congrArg String.toList h
  rw [String.toList_append, String.toList_append, ha, hc, toList_hostId, toList_hostId,
    List.append_assoc, List.append_assoc, List.cons_append] at hlists
  obtain ⟨-, hrest⟩ := append_cons_inj_of_notMem hhost hhost' hlists
  refine hvalue' (hrest ▸ ?_)
  exact List.mem_append_right _ (List.mem_append_left _ (List.mem_singleton_self _))

/-- Kept and joined relations have distinct ids. -/
theorem Joined.nodup (h : Joined id ids join all links result)
    (hjoin : ∀ pair, id (join pair) = id pair.2.1 ++ "|" ++ id pair.2.2)
    (hall : (all.map id).Nodup) (hseparated : Separated id all) : (result.map id).Nodup := by
  obtain ⟨kept, pairs, rfl, hperm, -⟩ := h
  have hnodup : ((kept ++ pairs.flatMap OrderedMap.sides).map id).Nodup :=
    (hperm.map id).nodup_iff.mpr hall
  have hmem : ∀ r, r ∈ kept ∨ (∃ pair ∈ pairs, r ∈ OrderedMap.sides pair) → r ∈ all := by
    intro r hr
    refine hperm.mem_iff.mp (List.mem_append.mpr (hr.imp_right List.mem_flatMap.mpr))
  rw [List.map_append, List.nodup_append] at hnodup ⊢
  obtain ⟨hkept, hsides, -⟩ := hnodup
  refine ⟨hkept, ?_, ?_⟩
  · -- the first sides are different relations
    have hfirst : (pairs.map fun pair => id pair.2.1).Nodup := by
      refine hsides.sublist ?_
      rw [List.map_flatMap]
      clear hperm hmem hsides
      induction pairs with
      | nil => exact List.Sublist.refl _
      | cons pair pairs ih =>
        rw [List.map_cons, List.flatMap_cons]
        exact List.Sublist.cons_cons _ (List.Sublist.cons _ ih)
    rw [List.map_map]
    refine List.pairwise_map.mpr ((List.pairwise_map.mp hfirst).imp_of_mem ?_)
    intro pair pair' hpair hpair' hne hsame
    obtain ⟨host, value, ha, hhost, hvalue⟩ :=
      hseparated pair.2.1 (hmem _ (.inr ⟨pair, hpair, List.mem_cons_self⟩))
    obtain ⟨host', value', ha', hhost', hvalue'⟩ :=
      hseparated pair'.2.1 (hmem _ (.inr ⟨pair', hpair', List.mem_cons_self⟩))
    rw [Function.comp_apply, Function.comp_apply, hjoin, hjoin] at hsame
    exact hne (join_inj ha ha' hhost hhost' hvalue hvalue' hsame)
  · intro x hx y hy hxy
    obtain ⟨r, hr, rfl⟩ := List.mem_map.mp hx
    rw [List.map_map] at hy
    obtain ⟨pair, hpair, rfl⟩ := List.mem_map.mp hy
    obtain ⟨host, value, ha, hhost, -⟩ :=
      hseparated pair.2.1 (hmem _ (.inr ⟨pair, hpair, List.mem_cons_self⟩))
    obtain ⟨host', value', hc, hhost', hvalue'⟩ := hseparated r (hmem r (.inl hr))
    rw [Function.comp_apply, hjoin] at hxy
    exact join_ne ha hc hhost hhost' hvalue' hxy.symm

/-- The ids of a result are those of relations, or joined ones. -/
theorem Joined.id_cases (h : Joined id ids join all links result)
    (hjoin : ∀ pair, id (join pair) = id pair.2.1 ++ "|" ++ id pair.2.2) {x : String}
    (hx : x ∈ result.map id) :
    ∃ r ∈ all, x = id r ∨ ∃ b ∈ all, x = id r ++ "|" ++ id b := by
  obtain ⟨kept, pairs, rfl, hperm, -⟩ := h
  obtain ⟨r, hr, rfl⟩ := List.mem_map.mp hx
  rcases List.mem_append.mp hr with hkept | hjoined
  · exact ⟨r, hperm.mem_iff.mp (List.mem_append_left _ hkept), .inl rfl⟩
  · obtain ⟨pair, hpair, rfl⟩ := List.mem_map.mp hjoined
    have hside : ∀ side ∈ OrderedMap.sides pair, side ∈ all := fun side hside =>
      hperm.mem_iff.mp (List.mem_append_right _ (List.mem_flatMap.mpr ⟨pair, hpair, hside⟩))
    refine ⟨pair.2.1, hside _ List.mem_cons_self, .inr ⟨pair.2.2, ?_, hjoin pair⟩⟩
    exact hside _ (List.mem_cons_of_mem _ (List.mem_singleton_self _))

/-- Results of two kinds of relations have no id in common when the relations have none. -/
theorem Joined.disjoint {R' L' : Type} {id' : R' → String} {ids' : L' → String × String}
    {join' : L' × R' × R' → R'} {all' result' : List R'} {links' : List L'}
    (h : Joined id ids join all links result) (h' : Joined id' ids' join' all' links' result')
    (hjoin : ∀ pair, id (join pair) = id pair.2.1 ++ "|" ++ id pair.2.2)
    (hjoin' : ∀ pair, id' (join' pair) = id' pair.2.1 ++ "|" ++ id' pair.2.2)
    (hseparated : Separated id all) (hseparated' : Separated id' all')
    (hall : (all.map id).Disjoint (all'.map id')) : (result.map id).Disjoint (result'.map id') := by
  intro x hx hx'
  obtain ⟨r, hr, hcases⟩ := h.id_cases hjoin hx
  obtain ⟨r', hr', hcases'⟩ := h'.id_cases hjoin' hx'
  have hne : id r ≠ id' r' := fun heq =>
    hall (List.mem_map_of_mem hr) (heq ▸ List.mem_map_of_mem hr')
  obtain ⟨host, value, ha, hhost, hvalue⟩ := hseparated r hr
  obtain ⟨host', value', ha', hhost', hvalue'⟩ := hseparated' r' hr'
  rcases hcases with hx | ⟨b, -, hx⟩
  · rcases hcases' with hx' | ⟨b', -, hx'⟩
    · exact hne (hx.symm.trans hx')
    · exact join_ne ha' ha hhost' hhost hvalue (hx'.symm.trans hx)
  · rcases hcases' with hx' | ⟨b', -, hx'⟩
    · exact join_ne ha ha' hhost hhost' hvalue' (hx.symm.trans hx')
    · exact hne (join_inj ha ha' hhost hhost' hvalue hvalue' (hx.symm.trans hx'))

end Joined

/-- A link that names a relation which is not there, or which one of the pairs has taken. -/
def PassedOver {R L : Type} (id : R → String) (ids : L → String × String) (all : List R)
    (pairs : List (L × R × R)) (link : L) : Prop :=
  ∃ x, (x = (ids link).1 ∨ x = (ids link).2) ∧
    (x ∉ all.map id ∨ ∃ pair ∈ pairs, ∃ r ∈ OrderedMap.sides pair, id r = x)

section Taken

variable {R L : Type} {id : R → String} {ids : L → String × String} {all : List R}

/-- Taking pairs keeps or joins every relation. -/
theorem joined_takePairs (join : L × R × R → R) {links : List L} (hall : (all.map id).Nodup)
    (hends : ∀ link ∈ links, (ids link).1 ≠ (ids link).2) :
    Joined id ids join all links
      (((OrderedMap.ofList (all.map fun r => (id r, r))).takePairs id ids links).1.values ++
        ((OrderedMap.ofList (all.map fun r => (id r, r))).takePairs id ids links).2.map join) := by
  have hkeyed := OrderedMap.keyed_ofList hall
  refine ⟨_, _, rfl, ?_, fun pair hpair => OrderedMap.mem_takePairs hkeyed hpair⟩
  have hperm := OrderedMap.takePairs_perm hkeyed hends
  rw [OrderedMap.values_ofList hall] at hperm
  exact hperm

/-- A link that is passed over takes nothing. -/
theorem takePairs_of_passedOver {before after : List L} {link : L} (hall : (all.map id).Nodup)
    (h : PassedOver id ids all
      ((OrderedMap.ofList (all.map fun r => (id r, r))).takePairs id ids before).2 link) :
    (OrderedMap.ofList (all.map fun r => (id r, r))).takePairs id ids (before ++ link :: after) =
      (OrderedMap.ofList (all.map fun r => (id r, r))).takePairs id ids (before ++ after) := by
  have hkeyed := OrderedMap.keyed_ofList hall
  obtain ⟨x, hx, habsent⟩ := h
  have hnone : ((OrderedMap.ofList (all.map fun r => (id r, r))).takePairs id ids before).1.get? x =
      none := by
    refine (OrderedMap.get?_takePairs_eq_none hkeyed).mpr (habsent.imp_left fun habsent => ?_)
    have hkeys : ((all.map fun r => (id r, r)).map Prod.fst).Nodup := by
      rw [List.map_map]
      exact hall
    rw [OrderedMap.get?_eq_none_iff, OrderedMap.entries_ofList hkeys, List.map_map]
    exact habsent
  rcases hx with rfl | rfl
  · exact OrderedMap.takePairs_skip (.inl hnone)
  · exact OrderedMap.takePairs_skip (.inr hnone)

end Taken

/-! ## Composed hosts -/

/-- Hosts with distinct names without `@`, each with distinct ids in both collections of relations. -/
structure ValidHosts (hosts : List (String × SystemSnapshot)) : Prop where
  names : (hosts.map Prod.fst).Nodup
  noAt : ∀ h ∈ hosts, '@' ∉ h.1.toList
  fdIds : ∀ h ∈ hosts, (h.2.fdRelations.map FdRelation.id).Nodup
  rdmaIds : ∀ h ∈ hosts, ((h.2.rdmaRelations.getD []).map RdmaRelation.id).Nodup

/-- The ids at the two ends of each link differ. -/
structure EndsDiffer (links : CrossHostLinks) : Prop where
  sockets : ∀ link ∈ links.sockets, (socketLinkIds link).1 ≠ (socketLinkIds link).2
  rdma : ∀ link ∈ links.rdma.getD [], (rdmaLinkIds link).1 ≠ (rdmaLinkIds link).2

/-- The qualified snapshots, in host order. -/
def qualified (hosts : List (String × SystemSnapshot)) : List SystemSnapshot :=
  hosts.map fun h => qualifySnapshot h.1 h.2

/-- The qualified relations of all hosts. -/
def fdOf (all : List SystemSnapshot) : List FdRelation := all.flatMap SystemSnapshot.fdRelations

def rdmaOf (all : List SystemSnapshot) : List RdmaRelation :=
  all.flatMap fun s => s.rdmaRelations.getD []

variable {hosts : List (String × SystemSnapshot)} {links : CrossHostLinks}

theorem values_qualifyHosts (h : ValidHosts hosts) : (qualifyHosts hosts).values = qualified hosts := by
  have hkeys : ((hosts.map fun h => (h.1, qualifySnapshot h.1 h.2)).map Prod.fst).Nodup := by
    rw [List.map_map]
    exact h.names
  rw [qualifyHosts, OrderedMap.values, OrderedMap.entries_ofList hkeys, List.map_map]
  rfl

theorem fdById_eq (all : List SystemSnapshot) :
    fdById all = .ofList ((fdOf all).map fun r => (r.id, r)) := by
  rw [fdById, fdOf, List.map_flatMap]

theorem rdmaById_eq (all : List SystemSnapshot) :
    rdmaById all = .ofList ((rdmaOf all).map fun r => (r.id, r)) := by
  rw [rdmaById, rdmaOf, List.map_flatMap]

/-- Qualified ids of all hosts are distinct when those of each host are. -/
private theorem nodup_qualified {R : Type} {id : R → String} {get : SystemSnapshot → List R}
    (hget : ∀ host s, (get (qualifySnapshot host s)).map id = ((get s).map id).map (hostId host))
    (h : ValidHosts hosts) (hids : ∀ x ∈ hosts, ((get x.2).map id).Nodup) :
    (((qualified hosts).flatMap get).map id).Nodup := by
  unfold qualified
  rw [List.flatMap_map, List.map_flatMap, List.nodup_flatMap]
  constructor
  · intro x hx
    rw [hget]
    refine (hids x hx).map fun v w hvw => ?_
    exact ((hostId_inj (h.noAt x hx) (h.noAt x hx)).mp hvw).2
  · refine (List.pairwise_map.mp h.names).imp_of_mem fun {x y} hx hy hne => ?_
    change ((get (qualifySnapshot x.1 x.2)).map id).Disjoint
      ((get (qualifySnapshot y.1 y.2)).map id)
    rw [hget, hget]
    exact disjoint_map_hostId (h.noAt x hx) (h.noAt y hy) hne _ _

/-- Qualified ids are separated when the hosts do not use the separator. -/
private theorem separated_qualified {R : Type} {id : R → String} {get : SystemSnapshot → List R}
    (hget : ∀ host s, (get (qualifySnapshot host s)).map id = ((get s).map id).map (hostId host))
    (h : ValidHosts hosts) (hids : ∀ x ∈ hosts, ∀ value ∈ (get x.2).map id, '|' ∉ value.toList) :
    Separated id ((qualified hosts).flatMap get) := by
  intro r hr
  obtain ⟨s, hs, hr⟩ := List.mem_flatMap.mp hr
  obtain ⟨x, hx, rfl⟩ := List.mem_map.mp hs
  have hid : id r ∈ ((get x.2).map id).map (hostId x.1) := by
    rw [← hget]
    exact List.mem_map_of_mem hr
  obtain ⟨value, hvalue, heq⟩ := List.mem_map.mp hid
  exact ⟨x.1, value, heq.symm, h.noAt x hx, hids x hx value hvalue⟩

private theorem fdIds_qualify (host : String) (s : SystemSnapshot) :
    (qualifySnapshot host s).fdRelations.map FdRelation.id =
      (s.fdRelations.map FdRelation.id).map (hostId host) := by
  simp [qualifySnapshot, FdRelation.qualify]

private theorem rdmaIds_qualify (host : String) (s : SystemSnapshot) :
    ((qualifySnapshot host s).rdmaRelations.getD []).map RdmaRelation.id =
      ((s.rdmaRelations.getD []).map RdmaRelation.id).map (hostId host) := by
  unfold qualifySnapshot
  cases s.rdmaRelations with
  | none => rfl
  | some l => simp [RdmaRelation.qualify]

/-- The ids of the two kinds of relations have nothing in common when those of each host have not. -/
private theorem disjoint_qualified (h : ValidHosts hosts)
    (hids : ∀ x ∈ hosts, (x.2.fdRelations.map FdRelation.id).Disjoint
      ((x.2.rdmaRelations.getD []).map RdmaRelation.id)) :
    ((fdOf (qualified hosts)).map FdRelation.id).Disjoint
      ((rdmaOf (qualified hosts)).map RdmaRelation.id) := by
  intro v hv hv'
  unfold fdOf qualified at hv
  unfold rdmaOf qualified at hv'
  rw [List.flatMap_map, List.map_flatMap] at hv hv'
  obtain ⟨x, hx, hv⟩ := List.mem_flatMap.mp hv
  obtain ⟨y, hy, hv'⟩ := List.mem_flatMap.mp hv'
  rw [fdIds_qualify] at hv
  rw [rdmaIds_qualify] at hv'
  obtain ⟨id, hid, rfl⟩ := List.mem_map.mp hv
  obtain ⟨id', hid', heq⟩ := List.mem_map.mp hv'
  obtain ⟨hname, rfl⟩ := (hostId_inj (h.noAt y hy) (h.noAt x hx)).mp heq
  obtain rfl : y = x := List.inj_on_of_nodup_map h.names hy hx hname
  exact hids y hy hid hid'

theorem nodup_fdOf (h : ValidHosts hosts) : ((fdOf (qualified hosts)).map FdRelation.id).Nodup :=
  nodup_qualified fdIds_qualify h h.fdIds

theorem nodup_rdmaOf (h : ValidHosts hosts) :
    ((rdmaOf (qualified hosts)).map RdmaRelation.id).Nodup :=
  nodup_qualified rdmaIds_qualify h h.rdmaIds

/-- Every relation is kept or joined. -/
theorem joined_composeHosts (h : ValidHosts hosts) (hends : EndsDiffer links) :
    Joined FdRelation.id socketLinkIds joinFd (fdOf (qualified hosts)) links.sockets
        (composeHosts (qualifyHosts hosts) links).fdRelations ∧
      Joined RdmaRelation.id rdmaLinkIds joinRdma (rdmaOf (qualified hosts)) (links.rdma.getD [])
        ((composeHosts (qualifyHosts hosts) links).rdmaRelations.getD []) := by
  have hfd := joined_takePairs joinFd (nodup_fdOf h) hends.sockets
  have hrdma := joined_takePairs joinRdma (nodup_rdmaOf h) hends.rdma
  rw [← fdById_eq] at hfd
  rw [← rdmaById_eq] at hrdma
  unfold composeHosts
  rw [values_qualifyHosts h]
  exact ⟨hfd, hrdma⟩

/-- Links that are passed over change nothing. -/
theorem composeHosts_of_passedOver (h : ValidHosts hosts) {before after : List SocketLink}
    {link : SocketLink} (hlinks : links.sockets = before ++ link :: after)
    (hlink : PassedOver FdRelation.id socketLinkIds (fdOf (qualified hosts))
      (takeFd (qualified hosts) before).2 link) :
    composeHosts (qualifyHosts hosts) links =
      composeHosts (qualifyHosts hosts) { links with sockets := before ++ after } := by
  have htake : takeFd (qualified hosts) (before ++ link :: after) =
      takeFd (qualified hosts) (before ++ after) := by
    unfold takeFd at hlink ⊢
    rw [fdById_eq] at hlink ⊢
    exact takePairs_of_passedOver (nodup_fdOf h) hlink
  unfold composeHosts
  rw [values_qualifyHosts h, hlinks]
  dsimp only
  rw [htake]

theorem composeHosts_of_passedOver_rdma (h : ValidHosts hosts) {before after : List RdmaLink}
    {link : RdmaLink} (hlinks : links.rdma = some (before ++ link :: after))
    (hlink : PassedOver RdmaRelation.id rdmaLinkIds (rdmaOf (qualified hosts))
      (takeRdma (qualified hosts) before).2 link) :
    composeHosts (qualifyHosts hosts) links =
      composeHosts (qualifyHosts hosts) { links with rdma := some (before ++ after) } := by
  have htake : takeRdma (qualified hosts) (before ++ link :: after) =
      takeRdma (qualified hosts) (before ++ after) := by
    unfold takeRdma at hlink ⊢
    rw [rdmaById_eq] at hlink ⊢
    exact takePairs_of_passedOver (nodup_rdmaOf h) hlink
  unfold composeHosts
  rw [values_qualifyHosts h, hlinks]
  dsimp only [Option.getD_some]
  rw [htake]

/-- An external relation of a process. -/
def externalRelation (id : String) (pid : ℤ) : FdRelation where
  id := id
  endpoint := ⟨⟨pid, 1, none⟩, .null⟩
  peer := none
  label := "tcp"
  candidate := false
  shared := false
  rest := .null

/-- A snapshot of one process with external relations. -/
def externalSnapshot (pid : ℤ) (ids : List String) : SystemSnapshot where
  processes := [⟨⟨pid, 1, none⟩, none, .null⟩]
  fdRelations := ids.map fun id => externalRelation id pid
  rdmaRelations := none
  rdmaPorts := none
  hardwareDevices := none
  hardwarePaths := none
  deviceHandles := none
  sequence := none

/-- Two hosts with the same process identity. -/
def linkedHosts : List (String × SystemSnapshot) :=
  [("g", externalSnapshot 7 ["7:1:3:external"]),
    ("h", externalSnapshot 7 ["7:1:3:external", "7:1:4:external"])]

/-- A link between them, and one that is stale. -/
def staleLinks : CrossHostLinks where
  sockets := [⟨⟨"g", "7:1:3:external"⟩, ⟨"h", "7:1:4:external"⟩⟩,
    ⟨⟨"g", "7:1:3:external"⟩, ⟨"h", "7:1:3:external"⟩⟩]
  rdma := none

private theorem linkedHosts_valid : ValidHosts linkedHosts where
  names := by decide
  noAt := by decide +kernel
  fdIds := by decide +kernel
  rdmaIds := by decide +kernel

private theorem staleLinks_differ : EndsDiffer staleLinks where
  sockets := by decide +kernel
  rdma := fun link hlink => absurd hlink List.not_mem_nil

/-- A host whose relation has an id with the separator. -/
def separatorHosts : List (String × SystemSnapshot) :=
  [("g", externalSnapshot 7 ["y"]), ("h", externalSnapshot 7 ["x", "x|g@y"])]

/-- A link of two of their relations. -/
def separatorLinks : CrossHostLinks := ⟨[⟨⟨"h", "x"⟩, ⟨"g", "y"⟩⟩], none⟩

/-- A host with two relations, and a link of one of them to itself whose second end is named by another
host. -/
def aliasHosts : List (String × SystemSnapshot) := [("a", externalSnapshot 7 ["b@c", "d"])]

def aliasLinks : CrossHostLinks := ⟨[⟨⟨"a", "b@c"⟩, ⟨"a@b", "c"⟩⟩], none⟩

end Procinsh.Space
