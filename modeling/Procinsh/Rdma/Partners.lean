import Procinsh.Rdma.Relations

/-!
# Partners

When two queue pairs are the two ends of one connection, and that the search through the queue pairs
with the remote number finds exactly the partner that is the only one.  Being the only partner of each
other is a one-to-one relation.
-/

namespace Procinsh.Rdma

open Ipc

/-! ## Evidence -/

section Evidence

variable (context : RdmaContext) (a b : Endpoint)

/-- The GID that one end has for the other is the one of its port. -/
def GidConfirms : Prop := ∃ gid, a.remoteGid = some gid ∧ localGid context b = some gid

/-- The GID that one end has for the other is not the one of its port. -/
def GidContradicts : Prop :=
  ∃ remote gid, a.remoteGid = some remote ∧ localGid context b = some gid ∧ remote ≠ gid

/-- The source and the destination of the connection manager. -/
def cmAddresses (e : Endpoint) : Option (RdmaAddress × RdmaAddress) :=
  e.cm.bind fun cm => cm.source.bind fun source => cm.destination.map fun destination =>
    (source, destination)

/-- The connection manager addresses are swapped. -/
def CmConfirms : Prop := ∃ x y, cmAddresses a = some x ∧ cmAddresses b = some y ∧ x = y.swap

/-- The connection manager addresses are known and not swapped. -/
def CmContradicts : Prop :=
  ∃ x y, cmAddresses a = some x ∧ cmAddresses b = some y ∧ x ≠ y.swap

/-- An address contradicts the connection. -/
def Contradicted : Prop :=
  GidContradicts context a b ∨ GidContradicts context b a ∨ CmContradicts a b

/-- An address is evidence for the connection. -/
def Confirmed : Prop := GidConfirms context a b ∨ GidConfirms context b a ∨ CmConfirms a b

end Evidence

section Search

variable {context : RdmaContext} {a b c : Endpoint} {endpoints : List Endpoint}

theorem gidMatch_eq_some_true_iff : gidMatch context a b = some true ↔ GidConfirms context a b := by
  unfold gidMatch GidConfirms
  cases a.remoteGid <;> cases localGid context b <;> simp [eq_comm]

theorem gidMatch_eq_some_false_iff :
    gidMatch context a b = some false ↔ GidContradicts context a b := by
  unfold gidMatch GidContradicts
  cases a.remoteGid <;> cases localGid context b <;> simp

theorem cmMatch_eq (a b : Endpoint) : cmMatch a b =
    (cmAddresses a).bind fun x => (cmAddresses b).map fun y => decide (x = y.swap) := by
  unfold cmMatch cmAddresses
  cases a.cm with
  | none => rfl
  | some x =>
    cases b.cm with
    | none => simp
    | some y =>
      dsimp only [Option.bind_some]
      cases x.source <;> cases x.destination <;> cases y.source <;> cases y.destination <;>
        simp [Prod.ext_iff]

theorem cmMatch_eq_some_true_iff : cmMatch a b = some true ↔ CmConfirms a b := by
  rw [cmMatch_eq]
  unfold CmConfirms
  cases cmAddresses a <;> cases cmAddresses b <;> simp

theorem cmMatch_eq_some_false_iff : cmMatch a b = some false ↔ CmContradicts a b := by
  rw [cmMatch_eq]
  unfold CmContradicts
  cases cmAddresses a <;> cases cmAddresses b <;> simp

/-- Two endpoints are taken for the ends of one connection if no address contradicts it and they are
on one device or an address is evidence. -/
theorem sameConnection_iff : sameConnection context a b ↔
    ¬ Contradicted context a b ∧ (a.entry.device = b.entry.device ∨ Confirmed context a b) := by
  have hfalse : [gidMatch context a b, gidMatch context b a, cmMatch a b].any (· = some false) ↔
      Contradicted context a b := by
    simp only [List.any_cons, List.any_nil, Bool.or_false, Bool.or_eq_true, decide_eq_true_iff,
      gidMatch_eq_some_false_iff, cmMatch_eq_some_false_iff]
    rfl
  have htrue : [gidMatch context a b, gidMatch context b a, cmMatch a b].any (· = some true) ↔
      Confirmed context a b := by
    simp only [List.any_cons, List.any_nil, Bool.or_false, Bool.or_eq_true, decide_eq_true_iff,
      gidMatch_eq_some_true_iff, cmMatch_eq_some_true_iff]
    rfl
  unfold sameConnection
  dsimp only
  split
  · next h => exact iff_of_false Bool.false_ne_true fun hnot => hnot.1 (hfalse.mp h)
  · next h =>
    rw [Bool.or_eq_true, decide_eq_true_iff, htrue]
    exact ⟨fun hevident => ⟨mt hfalse.mpr h, hevident⟩, And.right⟩

/-! ## Partners -/

/-- Two queue pairs that can be the two ends of one connection. -/
structure Partner (context : RdmaContext) (a b : Endpoint) : Prop where
  ne : a ≠ b
  left_connected : isConnected a.entry.qpType
  right_connected : isConnected b.entry.qpType
  left_remote : a.entry.remoteQpn = some b.entry.qpn
  right_remote : b.entry.remoteQpn = some a.entry.qpn
  not_contradicted : ¬ Contradicted context a b
  evident : a.entry.device = b.entry.device ∨ Confirmed context a b

/-- A partner that is the only one. -/
def IsOnlyPartner (context : RdmaContext) (endpoints : List Endpoint) (a b : Endpoint) : Prop :=
  b ∈ endpoints ∧ Partner context a b ∧ ∀ c ∈ endpoints, Partner context a c → c = b

/-- Two queue pairs each of which is the only partner of the other. -/
def Paired (context : RdmaContext) (endpoints : List Endpoint) (a b : Endpoint) : Prop :=
  IsOnlyPartner context endpoints a b ∧ IsOnlyPartner context endpoints b a

/-- Each end is the only one for the other. -/
theorem oneToOne_paired (context : RdmaContext) (endpoints : List Endpoint) :
    OneToOne (Paired context endpoints) where
  symm _ _ := And.symm
  unique _ _ c hab hac := (hab.1.2.2 c hac.1.1 hac.1.2.1).symm

/-! ## The search -/

/-- Endpoints with different identifiers are different at different places. -/
theorem get_inj (hids : (endpoints.map Endpoint.id).Nodup) {i j : Fin endpoints.length} :
    endpoints.get i = endpoints.get j ↔ i = j :=
  ⟨fun h => List.nodup_iff_injective_get.mp (List.Nodup.of_map _ hids) h, congrArg _⟩

theorem numbered_eq_some_iff {i j : Fin endpoints.length} {qpn : UInt32} :
    numbered endpoints i = some (qpn, j) ↔ i = j ∧ isConnected (endpoints.get i).entry.qpType ∧
      (endpoints.get i).entry.remoteQpn.isSome ∧ (endpoints.get i).entry.qpn = qpn := by
  unfold numbered
  dsimp only
  split
  · next h =>
    obtain ⟨hconnected, hremote⟩ := Bool.and_eq_true_iff.mp h
    rw [Option.some_inj, Prod.mk.injEq]
    exact ⟨fun hij => ⟨hij.2, hconnected, hremote, hij.1⟩, fun hij => ⟨hij.2.2.2, hij.1⟩⟩
  · next h =>
    exact iff_of_false (Option.some_ne_none _).symm fun hij =>
      h (Bool.and_eq_true_iff.mpr ⟨hij.2.1, hij.2.2.1⟩)

/-- The places that have a number. -/
theorem mem_byQpn {qpn : UInt32} {i : Fin endpoints.length} :
    i ∈ ((byQpn endpoints).get? qpn).getD [] ↔ isConnected (endpoints.get i).entry.qpType ∧
      (endpoints.get i).entry.remoteQpn.isSome ∧ (endpoints.get i).entry.qpn = qpn := by
  rw [byQpn, getD_get?_group, mem_valuesOf, List.mem_filterMap]
  constructor
  · rintro ⟨j, -, hj⟩
    obtain ⟨rfl, hat⟩ := numbered_eq_some_iff.mp hj
    exact hat
  · exact fun hat => ⟨i, List.mem_finRange i, numbered_eq_some_iff.mpr ⟨rfl, hat⟩⟩

theorem nodup_byQpn (endpoints : List Endpoint) (qpn : UInt32) : (((byQpn endpoints).get? qpn).getD []).Nodup := by
  rw [byQpn, getD_get?_group]
  refine nodup_valuesOf ?_ qpn
  rw [List.map_filterMap]
  refine List.Nodup.filterMap (fun i j k hi hj => ?_) (List.nodup_finRange _)
  obtain ⟨⟨_, _⟩, hik, rfl⟩ := Option.map_eq_some_iff.mp hi
  obtain ⟨⟨_, _⟩, hjk, hk⟩ := Option.map_eq_some_iff.mp hj
  rw [(numbered_eq_some_iff.mp hik).1, (numbered_eq_some_iff.mp hjk).1]
  exact hk.symm

/-- What can be the other end of a connected endpoint with a remote number. -/
theorem mem_matchesAmong (hids : (endpoints.map Endpoint.id).Nodup) {i j : Fin endpoints.length}
    {remote : UInt32} (hconnected : isConnected (endpoints.get i).entry.qpType)
    (hremote : (endpoints.get i).entry.remoteQpn = some remote) :
    j ∈ matchesAmong context endpoints i (((byQpn endpoints).get? remote).getD []) ↔
      Partner context (endpoints.get i) (endpoints.get j) := by
  rw [matchesAmong, List.mem_filter, mem_byQpn, Bool.and_eq_true, Bool.and_eq_true,
    decide_eq_true_iff, decide_eq_true_iff, sameConnection_iff]
  constructor
  · rintro ⟨⟨hconnected', -, hqpn⟩, ⟨hne, hback⟩, hnot, hevident⟩
    exact ⟨fun heq => hne ((get_inj hids).mp heq).symm, hconnected, hconnected', hqpn ▸ hremote,
      hback, hnot, hevident⟩
  · rintro ⟨hne, -, hconnected', hleft, hright, hnot, hevident⟩
    refine ⟨⟨hconnected', ?_, ?_⟩, ⟨fun heq => hne (congrArg _ heq.symm), hright⟩, hnot, hevident⟩
    · rw [hright]
      rfl
    · exact Option.some.inj (hleft.symm.trans hremote)

theorem peerOf_of_remoteQpn {i : Fin endpoints.length} {remote : UInt32}
    (hconnected : isConnected (endpoints.get i).entry.qpType)
    (hremote : (endpoints.get i).entry.remoteQpn = some remote) (j : Fin endpoints.length) :
    peerOf context endpoints i = some j ↔
      matchesAmong context endpoints i (((byQpn endpoints).get? remote).getD []) = [j] := by
  unfold peerOf
  dsimp only
  rw [hconnected, hremote, Bool.not_true, if_neg Bool.false_ne_true]
  dsimp only [bind, Option.bind]
  cases (byQpn endpoints).get? remote with
  | none => exact iff_of_false (Option.some_ne_none j).symm (List.cons_ne_nil j []).symm
  | some indices =>
    dsimp only [Option.getD]
    split
    · next b hone => rw [hone, Option.some_inj, List.cons.injEq, and_iff_left rfl]
    · next hnot => exact iff_of_false (Option.some_ne_none j).symm (hnot j)

/-- What the search finds is the only partner. -/
theorem peerOf_eq_some_iff (hids : (endpoints.map Endpoint.id).Nodup)
    {i j : Fin endpoints.length} : peerOf context endpoints i = some j ↔
      IsOnlyPartner context endpoints (endpoints.get i) (endpoints.get j) := by
  by_cases hend : isConnected (endpoints.get i).entry.qpType ∧
      (endpoints.get i).entry.remoteQpn.isSome
  · obtain ⟨hconnected, hsome⟩ := hend
    obtain ⟨remote, hremote⟩ := Option.isSome_iff_exists.mp hsome
    have hnodup : (matchesAmong context endpoints i
        (((byQpn endpoints).get? remote).getD [])).Nodup := (nodup_byQpn endpoints remote).filter _
    rw [peerOf_of_remoteQpn hconnected hremote, eq_singleton_iff hnodup,
      mem_matchesAmong hids hconnected hremote]
    constructor
    · rintro ⟨hpartner, hall⟩
      refine ⟨List.get_mem endpoints j, hpartner, fun c hc hpartner' => ?_⟩
      obtain ⟨k, rfl⟩ := List.mem_iff_get.mp hc
      exact congrArg _ (hall k ((mem_matchesAmong hids hconnected hremote).mpr hpartner'))
    · rintro ⟨-, hpartner, hall⟩
      refine ⟨hpartner, fun k hk => (get_inj hids).mp ?_⟩
      exact hall _ (List.get_mem endpoints k) ((mem_matchesAmong hids hconnected hremote).mp hk)
  · refine iff_of_false (fun hpeer => hend ?_) fun honly => hend ⟨honly.2.1.left_connected, ?_⟩
    · unfold peerOf at hpeer
      dsimp only at hpeer
      split at hpeer
      · cases hpeer
      · next hconnected =>
        obtain ⟨remote, hremote, -⟩ := Option.bind_eq_some_iff.mp hpeer
        rw [Bool.not_eq_true', Bool.not_eq_false] at hconnected
        exact ⟨hconnected, Option.isSome_iff_exists.mpr ⟨remote, hremote⟩⟩
    · rw [honly.2.1.left_remote]
      rfl

/-- What each end finds are the only partners of each other. -/
theorem mutualPeer_eq_some_iff (hids : (endpoints.map Endpoint.id).Nodup)
    {i j : Fin endpoints.length} : mutualPeer context endpoints i = some j ↔
      Paired context endpoints (endpoints.get i) (endpoints.get j) := by
  rw [mutualPeer, Option.filter_eq_some_iff, decide_eq_true_iff, peerOf_eq_some_iff hids,
    peerOf_eq_some_iff hids]
  rfl

end Search

end Procinsh.Rdma
