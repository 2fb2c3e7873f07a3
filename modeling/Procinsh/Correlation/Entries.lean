import Mathlib.Data.Prod.Lex
import Procinsh.Correlation.Address
import Procinsh.Foundation.Json
import Procinsh.Foundation.Lists

/-!
# Entries of snapshots

The records that the correlation of hosts reads from their snapshots
(`src/http_server/hosts/correlate.rs`), and how they are read.  A record is read from an object by
the names of its fields, or from an array of exactly as many items; an optional field may be missing
from an object.  An entry that does not fit is skipped.
-/

namespace Procinsh.Correlation

open Ipc (IpAddr)

/-! ## Ends of links -/

/-- One end of a cross-host link: a host and a relation id in its snapshot. -/
structure LinkEnd where
  host : String
  relation : String
  deriving DecidableEq, Repr

/-- The host and the relation, which are compared in this order. -/
def LinkEnd.key (e : LinkEnd) : String ×ₗ String := toLex (e.host, e.relation)

theorem LinkEnd.key_injective : Function.Injective LinkEnd.key := by
  rintro ⟨host, relation⟩ ⟨host', relation'⟩ h
  cases h
  rfl

instance : LinearOrder LinkEnd := LinearOrder.lift' LinkEnd.key LinkEnd.key_injective

/-! ## Records -/

/-- A tagged value, of which only the tag is read. -/
structure Kind where
  kind : String
  deriving DecidableEq

structure Address where
  ip : IpAddr
  port : UInt16
  deriving DecidableEq

structure Socket where
  protocol : Kind
  localAddr : Option Address
  remoteAddr : Option Address
  networkPeer : Bool

structure FdRelation where
  id : String
  peer : Option Json
  shared : Bool
  socket : Option Socket

structure RdmaEndpoint where
  device : String
  port : Option UInt32
  qpn : UInt32
  qpType : Kind

structure CmInfo where
  source : Option Json
  destination : Option Json

structure RdmaRelation where
  id : String
  endpoint : RdmaEndpoint
  peer : Option Json
  remoteQpn : Option UInt32
  cm : Option CmInfo
  remoteGid : Option String

structure RdmaPort where
  device : String
  port : UInt32
  linkLayer : Option String
  gid : Option String

/-! ## Reading records -/

/-- The values of the fields of a record. -/
def structFields (names : List String) : Json → Option (List (Option Json))
  | .object fields => some (names.map fun name => Json.lookupField name fields)
  | .array items => if items.length = names.length then some (items.map some) else none
  | _ => none

section Fields

variable {α : Type}

/-- A field that must be there. -/
def required (read : Json → Option α) (value : Option Json) : Option α := value.bind read

/-- A field that may be missing or null. -/
def optional (read : Json → Option α) : Option Json → Option (Option α)
  | none => some none
  | some .null => some none
  | some value => (read value).map some

end Fields

def readBool : Json → Option Bool
  | .bool b => some b
  | _ => none

def readU16 (value : Json) : Option UInt16 :=
  value.asInt?.bind fun n =>
    if 0 ≤ n ∧ n < 2 ^ 16 then some (UInt16.ofNat n.toNat) else none

def readU32 (value : Json) : Option UInt32 :=
  value.asInt?.bind fun n =>
    if 0 ≤ n ∧ n < 2 ^ 32 then some (UInt32.ofNat n.toNat) else none

def readIp (value : Json) : Option IpAddr := value.asString?.bind IpAddr.fromStr

def Kind.deserialize (value : Json) : Option Kind := do
  match ← structFields ["kind"] value with
  | [kind] => return ⟨← required Json.asString? kind⟩
  | _ => none

def Address.deserialize (value : Json) : Option Address := do
  match ← structFields ["ip", "port"] value with
  | [ip, port] => return ⟨← required readIp ip, ← required readU16 port⟩
  | _ => none

def Socket.deserialize (value : Json) : Option Socket := do
  match ← structFields ["protocol", "local", "remote", "network_peer"] value with
  | [protocol, localAddr, remoteAddr, networkPeer] =>
    return ⟨← required Kind.deserialize protocol, ← optional Address.deserialize localAddr,
      ← optional Address.deserialize remoteAddr, ← required readBool networkPeer⟩
  | _ => none

def FdRelation.deserialize (value : Json) : Option FdRelation := do
  match ← structFields ["id", "peer", "shared", "socket"] value with
  | [id, peer, shared, socket] =>
    return ⟨← required Json.asString? id, ← optional some peer, ← required readBool shared,
      ← optional Socket.deserialize socket⟩
  | _ => none

def RdmaEndpoint.deserialize (value : Json) : Option RdmaEndpoint := do
  match ← structFields ["device", "port", "qpn", "qp_type"] value with
  | [device, port, qpn, qpType] =>
    return ⟨← required Json.asString? device, ← optional readU32 port, ← required readU32 qpn,
      ← required Kind.deserialize qpType⟩
  | _ => none

def CmInfo.deserialize (value : Json) : Option CmInfo := do
  match ← structFields ["source", "destination"] value with
  | [source, destination] => return ⟨← optional some source, ← optional some destination⟩
  | _ => none

def RdmaRelation.deserialize (value : Json) : Option RdmaRelation := do
  match ← structFields ["id", "endpoint", "peer", "remote_qpn", "cm", "remote_gid"] value with
  | [id, endpoint, peer, remoteQpn, cm, remoteGid] =>
    return ⟨← required Json.asString? id, ← required RdmaEndpoint.deserialize endpoint,
      ← optional some peer, ← optional readU32 remoteQpn, ← optional CmInfo.deserialize cm,
      ← optional Json.asString? remoteGid⟩
  | _ => none

def RdmaPort.deserialize (value : Json) : Option RdmaPort := do
  match ← structFields ["device", "port", "link_layer", "gid"] value with
  | [device, port, linkLayer, gid] =>
    return ⟨← required Json.asString? device, ← required readU32 port,
      ← optional Json.asString? linkLayer, ← optional Json.asString? gid⟩
  | _ => none

/-! ## Collections -/

/-- The items of a collection of a snapshot; none when it is not an array. -/
def items (snapshot : Json) (name : String) : List Json :=
  ((snapshot.field? name).bind Json.asArray?).getD []

/-- The entries of a collection that fit the expected shape. -/
def entries {α : Type} (deserialize : Json → Option α) (snapshot : Json) (name : String) : List α :=
  (items snapshot name).filterMap deserialize

/-- Entries keep their order up to that of the items. -/
theorem entries_perm {α : Type} (deserialize : Json → Option α) {snapshot snapshot' : Json}
    {name : String} (h : (items snapshot name).Perm (items snapshot' name)) :
    (entries deserialize snapshot name).Perm (entries deserialize snapshot' name) :=
  h.filterMap deserialize

/-! ## Hosts -/

/-- The hosts with their snapshots. -/
abbrev Hosts := List (String × Json)

/-- What the entries of a collection give, host by host. -/
def collect {α β : Type} (deserialize : Json → Option α) (name : String)
    (read : String → Json → α → Option β) (hosts : Hosts) : List β :=
  hosts.flatMap fun h => (entries deserialize h.2 name).filterMap (read h.1 h.2)

/-- The same hosts in any order, each with the items of the collections in any order. -/
def SameUpToOrder (names : List String) (hosts hosts' : Hosts) : Prop :=
  ∃ between : Hosts, hosts.Perm between ∧ List.Forall₂ (fun h h' => h.1 = h'.1 ∧
    ∀ name ∈ names, (items h.2 name).Perm (items h'.2 name)) between hosts'

/-- What is collected does not depend on the order of hosts and items. -/
theorem collect_perm {α β : Type} {deserialize : Json → Option α} {name : String}
    {read : String → Json → α → Option β} {names : List String} {hosts hosts' : Hosts}
    (h : SameUpToOrder names hosts hosts') (hname : name ∈ names)
    (hread : ∀ x ∈ hosts, ∀ y : String × Json, x.1 = y.1 →
      (∀ name ∈ names, (items x.2 name).Perm (items y.2 name)) →
        ∀ a, read x.1 x.2 a = read y.1 y.2 a) :
    (collect deserialize name read hosts).Perm (collect deserialize name read hosts') := by
  obtain ⟨between, hperm, hsame⟩ := h
  have hread' : ∀ x ∈ between, ∀ y : String × Json, x.1 = y.1 →
      (∀ name ∈ names, (items x.2 name).Perm (items y.2 name)) →
        ∀ a, read x.1 x.2 a = read y.1 y.2 a := fun x hx => hread x (hperm.mem_iff.mpr hx)
  refine (hperm.flatMap_right _).trans ?_
  clear hperm hread
  induction hsame with
  | nil => exact List.Perm.refl _
  | @cons x y xs ys hxy hrest ih =>
    have hfirst := hread' x List.mem_cons_self y hxy.1 hxy.2
    have hentries : ((entries deserialize x.2 name).filterMap (read x.1 x.2)).Perm
        ((entries deserialize y.2 name).filterMap (read y.1 y.2)) := by
      rw [funext hfirst]
      exact (entries_perm deserialize (hxy.2 name hname)).filterMap _
    rw [List.flatMap_cons, collect, List.flatMap_cons]
    exact hentries.append (ih fun z hz => hread' z (List.mem_cons_of_mem _ hz))

/-- Hosts have distinct names, and each has distinct ids in the collection. -/
structure DistinctIds {α : Type} (deserialize : Json → Option α) (id : α → String) (name : String)
    (hosts : Hosts) : Prop where
  names : (hosts.map Prod.fst).Nodup
  ids : ∀ h ∈ hosts, ((entries deserialize h.2 name).map id).Nodup

/-- What is collected comes from an entry of a host. -/
theorem mem_collect {α β : Type} {deserialize : Json → Option α} {name : String}
    {read : String → Json → α → Option β} {hosts : Hosts} {b : β} :
    b ∈ collect deserialize name read hosts ↔ ∃ host snapshot a, (host, snapshot) ∈ hosts ∧
      a ∈ entries deserialize snapshot name ∧ read host snapshot a = some b := by
  unfold collect
  simp only [List.mem_flatMap, List.mem_filterMap, Prod.exists, exists_and_left]

/-- Ends of distinct entries are distinct. -/
theorem nodup_collect {α β : Type} {deserialize : Json → Option α} {id : α → String} {name : String}
    {read : String → Json → α → Option β} {hosts : Hosts} {toEnd : β → LinkEnd}
    (h : DistinctIds deserialize id name hosts)
    (hread : ∀ host snapshot a b, read host snapshot a = some b → toEnd b = ⟨host, id a⟩) :
    ((collect deserialize name read hosts).map toEnd).Nodup := by
  unfold collect
  rw [List.map_flatMap, List.nodup_flatMap]
  constructor
  · intro x hx
    have hids := List.pairwise_map.mp (h.ids x hx)
    refine List.pairwise_map.mpr (List.pairwise_filterMap.mpr (hids.imp fun hne b hb b' hb' => ?_))
    rw [hread _ _ _ _ hb, hread _ _ _ _ hb']
    exact fun hsame => hne (congrArg LinkEnd.relation hsame)
  · refine (List.pairwise_map.mp h.names).imp fun hne => ?_
    intro e he he'
    obtain ⟨b, hb, rfl⟩ := List.mem_map.mp he
    obtain ⟨b', hb', hsame⟩ := List.mem_map.mp he'
    obtain ⟨a, -, ha⟩ := List.mem_filterMap.mp hb
    obtain ⟨a', -, ha'⟩ := List.mem_filterMap.mp hb'
    rw [hread _ _ _ _ ha, hread _ _ _ _ ha'] at hsame
    exact hne (congrArg LinkEnd.host hsame).symm

/-- Distinct ids stay distinct in another order. -/
theorem DistinctIds.of_sameUpToOrder {α : Type} {deserialize : Json → Option α} {id : α → String}
    {name : String} {names : List String} {hosts hosts' : Hosts}
    (h : DistinctIds deserialize id name hosts) (hname : name ∈ names)
    (hsame : SameUpToOrder names hosts hosts') : DistinctIds deserialize id name hosts' := by
  obtain ⟨between, hperm, hsame⟩ := hsame
  have hnames : between.map Prod.fst = hosts'.map Prod.fst :=
    map_eq_map_of_forall₂ (hsame.imp fun x y hxy => hxy.1)
  constructor
  · rw [← hnames]
    exact (hperm.map Prod.fst).nodup_iff.mp h.names
  · intro y hy
    obtain ⟨x, hx, -, hitems⟩ := exists_left_of_forall₂ hsame hy
    have hids := h.ids x (hperm.mem_iff.mpr hx)
    exact ((entries_perm deserialize (hitems name hname)).map id).nodup_iff.mp hids

end Procinsh.Correlation
