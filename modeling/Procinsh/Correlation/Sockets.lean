import Procinsh.Correlation.Entries
import Procinsh.Foundation.Matching

/-!
# Cross-host socket links

`socket_links` (`src/http_server/hosts/correlate.rs`) groups the external ends of all hosts by their
protocol and addresses and links two of them when each is the only end of its tuple and the tuples
are each other's reversal.  The groups are kept in a hash map; `iterate` is the order in which the
map yields them.
-/

namespace Procinsh.Correlation

/-- The protocol with the local and the remote address. -/
abbrev Tuple := String × Address × Address

/-- The tuple of the other end. -/
def Tuple.reverse (t : Tuple) : Tuple := (t.1, t.2.2, t.2.1)

theorem Tuple.reverse_reverse (t : Tuple) : t.reverse.reverse = t := rfl

structure SocketLink where
  a : LinkEnd
  b : LinkEnd
  deriving DecidableEq, Repr

/-- The two ends, which are compared in this order. -/
def SocketLink.key (link : SocketLink) : LinkEnd ×ₗ LinkEnd := toLex (link.a, link.b)

theorem SocketLink.key_injective : Function.Injective SocketLink.key := by
  rintro ⟨a, b⟩ ⟨a', b'⟩ h
  cases h
  rfl

/-- Whether an address is one that other hosts can reach. -/
def isRoutableAddress (address : Address) : Bool :=
  address.port ≠ 0 && !address.ip.isUnspecified && !address.ip.isLoopback

/-- The tuple and the end of a relation that can be linked. -/
def socketEnd (host : String) (relation : FdRelation) : Option (Tuple × LinkEnd) := do
  let socket ← relation.socket
  if relation.peer.isSome || relation.shared || !socket.networkPeer then none
  else
    let localAddr ← socket.localAddr
    let remoteAddr ← socket.remoteAddr
    if !isRoutableAddress localAddr || !isRoutableAddress remoteAddr then none
    else return ((socket.protocol.kind, localAddr, remoteAddr), ⟨host, relation.id⟩)

/-- The ends of all hosts with their tuples. -/
def socketEnds (hosts : Hosts) : List (Tuple × LinkEnd) :=
  collect FdRelation.deserialize "fd_relations" (fun host _ => socketEnd host) hosts

/-- The ends of each tuple. -/
def byTuple (hosts : Hosts) : OrderedMap Tuple (List LinkEnd) := group (socketEnds hosts)

/-- The link of a tuple: each tuple once, from its smaller end; both sides must be unique. -/
def socketLink (byTuple : OrderedMap Tuple (List LinkEnd)) (entry : Tuple × List LinkEnd) :
    Option SocketLink :=
  match byTuple.get? entry.1.reverse with
  | none => none
  | some reverse =>
    match entry.2, reverse with
    | [x], [y] =>
      if y ≤ x then none else if x.host ≠ y.host then some ⟨x, y⟩ else none
    | _, _ => none

variable (iterate : List (Tuple × List LinkEnd) → List (Tuple × List LinkEnd))

/-- The links between sockets of the hosts. -/
def socketLinks (hosts : Hosts) : List SocketLink :=
  sortByKey SocketLink.key
    ((iterate (byTuple hosts).entries).filterMap (socketLink (byTuple hosts)))

/-! ## Ends that can be linked -/

/-- An end that can be linked: a relation of the host with a routable pair of addresses, an external
peer, and no peer on the host. -/
def EligibleSocket (hosts : Hosts) (t : Tuple) (e : LinkEnd) : Prop :=
  ∃ host snapshot relation socket localAddr remoteAddr, (host, snapshot) ∈ hosts ∧
    relation ∈ entries FdRelation.deserialize snapshot "fd_relations" ∧
    relation.socket = some socket ∧ relation.peer = none ∧ relation.shared = false ∧
    socket.networkPeer = true ∧ socket.localAddr = some localAddr ∧
    socket.remoteAddr = some remoteAddr ∧ isRoutableAddress localAddr = true ∧
    isRoutableAddress remoteAddr = true ∧
    t = (socket.protocol.kind, localAddr, remoteAddr) ∧ e = ⟨host, relation.id⟩

/-- Two ends on different hosts whose tuples are each other's reversal, and which are the only ends
of their tuples. -/
def LinkedSockets (hosts : Hosts) (x y : LinkEnd) : Prop :=
  x.host ≠ y.host ∧ ∃ t : Tuple, EligibleSocket hosts t x ∧ EligibleSocket hosts t.reverse y ∧
    (∀ z, EligibleSocket hosts t z → z = x) ∧ ∀ z, EligibleSocket hosts t.reverse z → z = y

/-- The hosts have distinct names and each has distinct relation ids. -/
abbrev DistinctFdRelations (hosts : Hosts) : Prop :=
  DistinctIds FdRelation.deserialize FdRelation.id "fd_relations" hosts

variable {iterate} {hosts hosts' : Hosts}

/-- What makes a relation an end. -/
theorem socketEnd_eq_some {host : String} {relation : FdRelation} {t : Tuple} {e : LinkEnd} :
    socketEnd host relation = some (t, e) ↔ ∃ socket localAddr remoteAddr,
      relation.socket = some socket ∧ relation.peer = none ∧ relation.shared = false ∧
      socket.networkPeer = true ∧ socket.localAddr = some localAddr ∧
      socket.remoteAddr = some remoteAddr ∧ isRoutableAddress localAddr = true ∧
      isRoutableAddress remoteAddr = true ∧
      t = (socket.protocol.kind, localAddr, remoteAddr) ∧ e = ⟨host, relation.id⟩ := by
  obtain ⟨id, peer, shared, socket⟩ := relation
  constructor
  · intro h
    obtain ⟨s, rfl, h⟩ := Option.bind_eq_some_iff.mp h
    split at h
    · cases h
    · next hguard =>
      obtain ⟨localAddr, hlocal, h⟩ := Option.bind_eq_some_iff.mp h
      obtain ⟨remoteAddr, hremote, h⟩ := Option.bind_eq_some_iff.mp h
      split at h
      · cases h
      · next hroutable =>
        simp only [Bool.or_eq_true, Bool.not_eq_true', not_or, Bool.not_eq_false,
          Option.isSome_iff_ne_none, ne_eq, not_not, Bool.not_eq_true] at hguard hroutable
        obtain ⟨⟨hpeer, hshared⟩, hnetwork⟩ := hguard
        cases h
        exact ⟨s, localAddr, remoteAddr, rfl, hpeer, hshared, hnetwork, hlocal, hremote,
          hroutable.1, hroutable.2, rfl, rfl⟩
  · rintro ⟨s, localAddr, remoteAddr, hsocket, hpeer, hshared, hnetwork, hlocal, hremote, hl, hr, rfl,
      rfl⟩
    cases hsocket
    cases hpeer
    cases hshared
    simp [socketEnd, hnetwork, hlocal, hremote, hl, hr]

/-- The ends that are collected are those that can be linked. -/
theorem mem_socketEnds {t : Tuple} {e : LinkEnd} :
    (t, e) ∈ socketEnds hosts ↔ EligibleSocket hosts t e := by
  rw [socketEnds, mem_collect]
  constructor
  · rintro ⟨host, snapshot, relation, hhost, hrelation, hend⟩
    obtain ⟨socket, localAddr, remoteAddr, h⟩ := socketEnd_eq_some.mp hend
    exact ⟨host, snapshot, relation, socket, localAddr, remoteAddr, hhost, hrelation, h⟩
  · rintro ⟨host, snapshot, relation, socket, localAddr, remoteAddr, hhost, hrelation, h⟩
    exact ⟨host, snapshot, relation, hhost, hrelation,
      socketEnd_eq_some.mpr ⟨socket, localAddr, remoteAddr, h⟩⟩

/-- No end is collected twice. -/
theorem nodup_socketEnds (h : DistinctFdRelations hosts) :
    ((socketEnds hosts).map Prod.snd).Nodup := by
  refine nodup_collect h fun host snapshot relation b hb => ?_
  obtain ⟨t, e⟩ := b
  obtain ⟨socket, localAddr, remoteAddr, -, -, -, -, -, -, -, -, -, he⟩ := socketEnd_eq_some.mp hb
  exact he

/-- The ends of a tuple are one end, exactly if it is the only one. -/
theorem valuesOf_eq_singleton (h : DistinctFdRelations hosts) {t : Tuple} {x : LinkEnd} :
    valuesOf t (socketEnds hosts) = [x] ↔
      EligibleSocket hosts t x ∧ ∀ z, EligibleSocket hosts t z → z = x := by
  rw [eq_singleton_iff (nodup_valuesOf (nodup_socketEnds h) t)]
  simp only [mem_valuesOf, mem_socketEnds]

/-! ## Links -/

/-- The entry of a tuple gives a link when its end and the end of the reversed tuple are unique. -/
theorem socketLink_eq_some {m : OrderedMap Tuple (List LinkEnd)} {entry : Tuple × List LinkEnd}
    {link : SocketLink} : socketLink m entry = some link ↔
      entry.2 = [link.a] ∧ m.get? entry.1.reverse = some [link.b] ∧ link.a < link.b ∧
        link.a.host ≠ link.b.host := by
  obtain ⟨a, b⟩ := link
  unfold socketLink
  constructor
  · intro h
    split at h
    · cases h
    · next reverse hreverse =>
      split at h
      · next x y hx =>
        split at h
        · cases h
        · next hle =>
          split at h
          · next hne =>
            cases h
            exact ⟨hx, hreverse, lt_of_not_ge hle, hne⟩
          · cases h
      · cases h
  · rintro ⟨hends, hreverse, hlt, hne⟩
    rw [hreverse, hends]
    exact (if_neg (not_le_of_gt hlt)).trans (if_pos hne)

/-- The links before they are sorted. -/
private theorem mem_found (h : DistinctFdRelations hosts) (hiterate : ∀ l, (iterate l).Perm l)
    {link : SocketLink} :
    link ∈ (iterate (byTuple hosts).entries).filterMap (socketLink (byTuple hosts)) ↔
      link.a < link.b ∧ LinkedSockets hosts link.a link.b := by
  rw [List.mem_filterMap]
  constructor
  · rintro ⟨⟨t, ends⟩, hentry, hlink⟩
    obtain ⟨hends, hreverse, hlt, hne⟩ := socketLink_eq_some.mp hlink
    have hget := OrderedMap.get?_eq_some_iff.mpr ((hiterate _).mem_iff.mp hentry)
    obtain ⟨hvalues, -⟩ := get?_group_eq_some_iff.mp hget
    obtain ⟨hvalues', -⟩ := get?_group_eq_some_iff.mp hreverse
    have ha := (valuesOf_eq_singleton h).mp (hvalues.symm.trans hends)
    have hb := (valuesOf_eq_singleton h).mp hvalues'.symm
    exact ⟨hlt, hne, t, ha.1, hb.1, ha.2, hb.2⟩
  · rintro ⟨hlt, hne, t, ha, hb, honlya, honlyb⟩
    have hvalues := (valuesOf_eq_singleton h).mpr ⟨ha, honlya⟩
    have hvalues' := (valuesOf_eq_singleton h).mpr ⟨hb, honlyb⟩
    have hentry : (byTuple hosts).get? t = some [link.a] :=
      get?_group_eq_some_iff.mpr ⟨hvalues.symm, List.cons_ne_nil _ _⟩
    have hreverse : (byTuple hosts).get? t.reverse = some [link.b] :=
      get?_group_eq_some_iff.mpr ⟨hvalues'.symm, List.cons_ne_nil _ _⟩
    exact ⟨(t, [link.a]), (hiterate _).mem_iff.mpr (OrderedMap.get?_eq_some_iff.mp hentry),
      socketLink_eq_some.mpr ⟨rfl, hreverse, hlt, hne⟩⟩

/-- No link is found twice. -/
private theorem nodup_found (h : DistinctFdRelations hosts) (hiterate : ∀ l, (iterate l).Perm l) :
    (((iterate (byTuple hosts).entries).filterMap (socketLink (byTuple hosts))).map
      SocketLink.key).Nodup := by
  have hkeys : ((iterate (byTuple hosts).entries).map Prod.fst).Nodup :=
    ((hiterate _).map Prod.fst).nodup_iff.mpr (byTuple hosts).nodup
  have hmem : ∀ entry ∈ iterate (byTuple hosts).entries, ∀ link,
      socketLink (byTuple hosts) entry = some link → (entry.1, link.a) ∈ socketEnds hosts := by
    intro entry hentry link hlink
    have hget := OrderedMap.get?_eq_some_iff.mpr ((hiterate _).mem_iff.mp hentry)
    obtain ⟨hvalues, -⟩ := get?_group_eq_some_iff.mp hget
    rw [← mem_valuesOf, ← hvalues, (socketLink_eq_some.mp hlink).1]
    exact List.mem_singleton_self _
  refine List.pairwise_map.mpr (List.pairwise_filterMap.mpr ?_)
  refine (List.pairwise_map.mp hkeys).imp_of_mem fun hentry hentry' hne link hlink link' hlink' => ?_
  intro hsame
  obtain rfl := SocketLink.key_injective hsame
  exact hne (key_unique (nodup_socketEnds h) (hmem _ hentry _ hlink) (hmem _ hentry' _ hlink'))

/-- An end has at most one partner. -/
theorem linkedSockets_oneToOne (h : DistinctFdRelations hosts) : OneToOne (LinkedSockets hosts) where
  symm := by
    rintro x y ⟨hne, t, hx, hy, honlyx, honlyy⟩
    exact ⟨hne.symm, t.reverse, hy, hx, honlyy, honlyx⟩
  unique := by
    rintro x y z ⟨-, t, hx, hy, -, honlyy⟩ ⟨-, t', hx', hz, -, -⟩
    have ht : t = t' := key_unique (nodup_socketEnds h) (mem_socketEnds.mpr hx)
      (mem_socketEnds.mpr hx')
    subst ht
    exact (honlyy z hz).symm

/-- Hosts that differ in their order only have the same ends. -/
theorem eligibleSocket_of_sameUpToOrder (hsame : SameUpToOrder ["fd_relations"] hosts hosts')
    {t : Tuple} {e : LinkEnd} : EligibleSocket hosts t e ↔ EligibleSocket hosts' t e := by
  have hperm : (socketEnds hosts).Perm (socketEnds hosts') := by
    refine collect_perm hsame (List.mem_singleton_self _) fun x _ y hxy _ relation => ?_
    rw [hxy]
  rw [← mem_socketEnds, ← mem_socketEnds, hperm.mem_iff]

/-! ## Correctness -/

/-- The links are those of linked sockets, each from its smaller end. -/
theorem mem_socketLinks (h : DistinctFdRelations hosts) (hiterate : ∀ l, (iterate l).Perm l)
    {link : SocketLink} : link ∈ socketLinks iterate hosts ↔
      link.a < link.b ∧ LinkedSockets hosts link.a link.b := by
  rw [socketLinks, mem_sortByKey, mem_found h hiterate]

/-- The links are in ascending order, and each occurs once. -/
theorem socketLinks_ascending (h : DistinctFdRelations hosts)
    (hiterate : ∀ l, (iterate l).Perm l) :
    (socketLinks iterate hosts).Pairwise fun x y => x.key < y.key :=
  sortByKey_ascending (nodup_found h hiterate)

/-- The links do not depend on the order of the hosts, of their relations and of the hash map. -/
theorem socketLinks_eq (h : DistinctFdRelations hosts) (hiterate : ∀ l, (iterate l).Perm l)
    {iterate' : List (Tuple × List LinkEnd) → List (Tuple × List LinkEnd)}
    (hiterate' : ∀ l, (iterate' l).Perm l) (hsame : SameUpToOrder ["fd_relations"] hosts hosts') :
    socketLinks iterate' hosts' = socketLinks iterate hosts := by
  have h' : DistinctFdRelations hosts' := h.of_sameUpToOrder (List.mem_singleton_self _) hsame
  refine eq_of_ascending (socketLinks_ascending h' hiterate') (socketLinks_ascending h hiterate)
    fun link => ?_
  rw [mem_socketLinks h hiterate, mem_socketLinks h' hiterate']
  unfold LinkedSockets
  simp only [eligibleSocket_of_sameUpToOrder hsame]

/-- The socket links are exactly the pairs of linked sockets, in order and each once; no end occurs
in two of them, and they do not depend on the order of the hosts, of their relations and of the hash
map. -/
theorem socketLinks_correct (h : DistinctFdRelations hosts) (hiterate : ∀ l, (iterate l).Perm l) :
    (∀ link, link ∈ socketLinks iterate hosts ↔
        link.a < link.b ∧ LinkedSockets hosts link.a link.b) ∧
      ((socketLinks iterate hosts).Pairwise fun x y => x.key < y.key) ∧
      (∀ x ∈ socketLinks iterate hosts, ∀ y ∈ socketLinks iterate hosts,
        (x.a = y.a ∨ x.a = y.b ∨ x.b = y.a ∨ x.b = y.b) → x = y) ∧
      ∀ iterate' hosts', (∀ l, (iterate' l).Perm l) → SameUpToOrder ["fd_relations"] hosts hosts' →
        socketLinks iterate' hosts' = socketLinks iterate hosts := by
  refine ⟨fun link => mem_socketLinks h hiterate, socketLinks_ascending h hiterate, ?_,
    fun iterate' hosts' hiterate' hsame => socketLinks_eq h hiterate hiterate' hsame⟩
  intro x hx y hy hshared
  obtain ⟨hlt, hlinked⟩ := (mem_socketLinks h hiterate).mp hx
  obtain ⟨hlt', hlinked'⟩ := (mem_socketLinks h hiterate).mp hy
  obtain ⟨ha, hb⟩ :=
    (linkedSockets_oneToOne h).eq_of_shared hlinked hlinked' hlt hlt' hshared
  exact SocketLink.key_injective (congrArg toLex (Prod.ext ha hb))

/-- A TCP relation of a snapshot. -/
def tcpRelation (id localIp : String) (localPort : ℤ) (remoteIp : String) (remotePort : ℤ) : Json :=
  .object [("id", .string id), ("peer", .null), ("shared", .bool false), ("socket", .object [
    ("local", .object [("ip", .string localIp), ("port", .int localPort)]),
    ("network_peer", .bool true),
    ("protocol", .object [("family", .string "ipv4"), ("kind", .string "tcp")]),
    ("remote", .object [("ip", .string remoteIp), ("port", .int remotePort)]),
    ("state", .object [("kind", .string "established")])])]

/-- Three hosts with a pair of sockets, a tuple that two hosts have, and loopback connections. -/
def socketHosts : Hosts :=
  [("a", .object [("fd_relations", .array [tcpRelation "x" "10.0.0.1" 5000 "10.0.0.2" 443,
      tcpRelation "dup1" "10.0.0.1" 1 "10.0.0.9" 9])]),
    ("b", .object [("fd_relations", .array [tcpRelation "y" "10.0.0.2" 443 "10.0.0.1" 5000,
      tcpRelation "dup2" "10.0.0.9" 9 "10.0.0.1" 1, tcpRelation "lo" "127.0.0.1" 80 "127.0.0.1" 81])]),
    ("c", .object [("fd_relations", .array [tcpRelation "dup3" "10.0.0.9" 9 "10.0.0.1" 1,
      tcpRelation "lo2" "127.0.0.1" 81 "127.0.0.1" 80])])]

private theorem socketHosts_distinct : DistinctFdRelations socketHosts where
  names := by decide
  ids := by decide +kernel

/-- The pair is the only link, in whatever order the hash map yields the tuples. -/
theorem socketLinks_socketHosts :
    socketLinks List.reverse socketHosts = [⟨⟨"a", "x"⟩, ⟨"b", "y"⟩⟩] ∧
      (∀ link, link ∈ socketLinks List.reverse socketHosts ↔
        link.a < link.b ∧ LinkedSockets socketHosts link.a link.b) :=
  ⟨by decide +kernel, (socketLinks_correct socketHosts_distinct List.reverse_perm).1⟩

end Procinsh.Correlation
