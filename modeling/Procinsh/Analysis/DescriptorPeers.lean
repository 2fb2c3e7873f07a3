import Procinsh.Analysis.Descriptors
import Procinsh.Foundation.Lists

/-!
# What the descriptors of a process list

Unless a limit is reached, the peers of a descriptor are exactly the descriptors that it talks to,
and its holders are the other owners of its resource that it does not talk to.  `Talks` says that in
terms of the scan and the socket table alone; each loop of the resolution is specified by the owners
that it `Adds`.
-/

namespace Procinsh.Analysis

open Ipc

/-! ## Who talks to whom -/

section Talks

variable (sockets : OrderedMap UInt64 SocketInfo)

/-- A socket is at the other end of a socket with the given inode and attributes: it is the recorded
peer, or else another socket with the swapped addresses. -/
inductive OtherEnd (inode : UInt64) (info : SocketInfo) (peer : UInt64) : Prop
  | recorded (hpeer : info.peerInode = some peer)
  | reversed (tcp : Bool) (localAddr remoteAddr : SocketAddr) (other : SocketInfo)
      (hpeer : info.peerInode = none)
      (hkey : connectedSocketKey info = some (tcp, localAddr, remoteAddr))
      (hother : sockets.get? peer = some other)
      (hreversed : connectedSocketKey other = some (tcp, remoteAddr, localAddr))
      (hne : peer ≠ inode)

/-- What is sent to a descriptor may be received at another: they are ends of one pipe with opposite
access, or their sockets are at the two ends of a connection. -/
inductive Talks (d p : Descriptor) : Prop
  | pipe (hkey : p.resource.key = d.resource.key) (hne : p.fdKey ≠ d.fdKey)
      (hkind : d.resource.kind ≠ .socket) (hopposite : pipeOpposite d.mode p.mode = true)
  | socket (info : SocketInfo) (hkind : d.resource.kind = .socket)
      (hinfo : sockets.get? d.resource.inode = some info) (hkind' : p.resource.kind = .socket)
      (hend : OtherEnd sockets d.resource.inode info p.resource.inode)

end Talks

variable {orders : Orders} {sockets : OrderedMap UInt64 SocketInfo}

/-- The inodes of the peers are those of the sockets at the other end. -/
theorem mem_peerInodesOf {inode peer : UInt64} {info : SocketInfo} :
    peer ∈ peerInodesOf orders sockets inode info ↔ OtherEnd sockets inode info peer := by
  unfold peerInodesOf
  cases hpeer : info.peerInode with
  | some p =>
    dsimp only
    rw [List.mem_singleton]
    constructor
    · rintro rfl
      exact .recorded hpeer
    · rintro (hp | ⟨_, _, _, _, hnone, -⟩)
      · exact Option.some.inj (hp.symm.trans hpeer)
      · rw [hpeer] at hnone
        cases hnone
  | none =>
    cases hkey : connectedSocketKey info with
    | none =>
      refine iff_of_false List.not_mem_nil ?_
      rintro (hp | ⟨_, _, _, _, -, hsome, -⟩)
      · rw [hpeer] at hp
        cases hp
      · rw [hkey] at hsome
        cases hsome
    | some key =>
      obtain ⟨tcp, localAddr, remoteAddr⟩ := key
      have hmem : peer ∈ ((reversedInodes orders sockets).get? (tcp, remoteAddr, localAddr)).getD []
          ↔ ∃ other, sockets.get? peer = some other ∧
            connectedSocketKey other = some (tcp, remoteAddr, localAddr) := by
        rw [reversedInodes, getD_get?_group, mem_valuesOf, List.mem_filterMap]
        constructor
        · rintro ⟨⟨inode', other⟩, hentry, hmap⟩
          obtain ⟨key, hother, hpair⟩ := Option.map_eq_some_iff.mp hmap
          cases hpair
          have hget := (orders.sockets.perm _).mem_iff.mp hentry
          exact ⟨other, OrderedMap.get?_eq_some_iff.mpr hget, hother⟩
        · rintro ⟨other, hother, hreversed⟩
          have hentry := OrderedMap.get?_eq_some_iff.mp hother
          refine ⟨(peer, other), (orders.sockets.perm _).mem_iff.mpr hentry, ?_⟩
          dsimp only
          rw [hreversed]
          rfl
      dsimp only
      rw [List.mem_filter, hmem, decide_eq_true_eq]
      constructor
      · rintro ⟨⟨other, hother, hreversed⟩, hne⟩
        exact .reversed tcp localAddr remoteAddr other hpeer hkey hother hreversed hne
      · rintro (hp | ⟨tcp', x, y, other, -, hkey', hother, hreversed, hne⟩)
        · rw [hpeer] at hp
          cases hp
        · have hsame := hkey.symm.trans hkey'
          cases hsame
          exact ⟨⟨other, hother, hreversed⟩, hne⟩

/-! ## The loops -/

/-- The note says that peers or holders may be missing. -/
def AtLimit (entry : FileDescriptorInfo) : Prop :=
  entry.note = "Showing up to 64 peer/shared FDs." ∨ entry.note = "Showing up to 64 peer FDs."

instance : DecidablePred AtLimit := fun _ => inferInstanceAs (Decidable (_ ∨ _))

/-- Owners are added to the peers and to the holders of an entry, and nothing else that the loops
read is changed. -/
structure Adds (peers holders : List Owner) (before after : FileDescriptorInfo) : Prop where
  peers : after.peers.map Endpoint.fdKey =
    before.peers.map Endpoint.fdKey ++ peers.map fun o => o.endpoint.fdKey
  holders : after.holders.map Endpoint.fdKey =
    before.holders.map Endpoint.fdKey ++ holders.map fun o => o.endpoint.fdKey
  fd : after.fd = before.fd
  kind : after.kind = before.kind
  key : after.key = before.key
  mode : after.mode = before.mode

theorem Adds.refl (entry : FileDescriptorInfo) : Adds [] [] entry entry :=
  ⟨(List.append_nil _).symm, (List.append_nil _).symm, rfl, rfl, rfl, rfl⟩

theorem Adds.trans {peers holders peers' holders' : List Owner}
    {before between after : FileDescriptorInfo} (h : Adds peers holders before between)
    (h' : Adds peers' holders' between after) :
    Adds (peers ++ peers') (holders ++ holders') before after where
  peers := by rw [h'.peers, h.peers, List.map_append, List.append_assoc]
  holders := by rw [h'.holders, h.holders, List.map_append, List.append_assoc]
  fd := h'.fd.trans h.fd
  kind := h'.kind.trans h.kind
  key := h'.key.trans h.key
  mode := h'.mode.trans h.mode

/-- A loop adds owners to an entry, or reaches a limit. -/
def Extends (peers holders : List Owner) (before after : FileDescriptorInfo) : Prop :=
  AtLimit after ∨ Adds peers holders before after ∧ after.note = before.note

theorem Extends.refl (entry : FileDescriptorInfo) : Extends [] [] entry entry :=
  .inr ⟨Adds.refl entry, rfl⟩

/-- Loops that follow each other; a limit that the first one has reached stays noted. -/
theorem Extends.trans {peers holders peers' holders' : List Owner}
    {before between after : FileDescriptorInfo} (h : Extends peers holders before between)
    (h' : Extends peers' holders' between after) :
    Extends (peers ++ peers') (holders ++ holders') before after := by
  rcases h' with hlimit | ⟨hadds', hnote'⟩
  · exact .inl hlimit
  · rcases h with hlimit | ⟨hadds, hnote⟩
    · left
      unfold AtLimit
      rw [hnote']
      exact hlimit
    · exact .inr ⟨hadds.trans hadds', hnote'.trans hnote⟩

/-- Another owner is at the other end of the pipe of an entry. -/
def opposes (entry : FileDescriptorInfo) (owner : Owner) : Bool :=
  decide (entry.kind ≠ .socket) && pipeOpposite entry.mode owner.mode

theorem addFellow_adds (entry : FileDescriptorInfo) (owner : Owner) :
    Adds ([owner].filter (opposes entry)) ([owner].filter fun o => !opposes entry o) entry
      (addFellow entry owner) ∧ (addFellow entry owner).note = entry.note := by
  unfold addFellow
  by_cases hopposes : opposes entry owner = true
  · have hguard := hopposes
    unfold opposes at hguard
    rw [if_pos hguard, List.filter_singleton, List.filter_singleton, hopposes]
    exact ⟨⟨List.map_append, (List.append_nil _).symm, rfl, rfl, rfl, rfl⟩, rfl⟩
  · have hguard := hopposes
    unfold opposes at hguard
    rw [if_neg hguard, List.filter_singleton, List.filter_singleton, Bool.eq_false_of_not_eq_true hopposes]
    exact ⟨⟨(List.append_nil _).symm, List.map_append, rfl, rfl, rfl, rfl⟩, rfl⟩

/-- The owners of a resource other than the descriptor of an entry. -/
def others (id : ProcessId) (fd : UInt32) (owners : List Owner) : List Owner :=
  owners.filter fun o => o.endpoint.fdKey ≠ (id, fd)

theorem addFellows_extends (id : ProcessId) (owners : List Owner) (entry : FileDescriptorInfo) :
    Extends ((others id entry.fd owners).filter (opposes entry))
      ((others id entry.fd owners).filter fun o => !opposes entry o) entry
      (addFellows id owners entry) := by
  induction owners generalizing entry with
  | nil => exact Extends.refl entry
  | cons owner owners ih =>
    rw [addFellows]
    by_cases hself : owner.endpoint.processId = id ∧ owner.endpoint.fd = entry.fd
    · have hskip : others id entry.fd (owner :: owners) = others id entry.fd owners :=
        List.filter_cons_of_neg (by simpa [Endpoint.fdKey] using hself)
      rw [if_pos hself, hskip]
      exact ih entry
    · have htake : others id entry.fd (owner :: owners) =
          [owner] ++ others id entry.fd owners :=
        List.filter_cons_of_pos (decide_eq_true fun hkey => hself (Prod.mk.inj hkey))
      obtain ⟨hone, hnote⟩ := addFellow_adds entry owner
      rw [if_neg hself]
      dsimp only
      split
      · exact .inl (.inl rfl)
      · have hrest := ih (addFellow entry owner)
        have hopposes : opposes (addFellow entry owner) = opposes entry := by
          funext o
          rw [opposes, opposes, hone.kind, hone.mode]
        rw [hone.fd, hopposes] at hrest
        rw [htake, List.filter_append, List.filter_append]
        exact Extends.trans (.inr ⟨hone, hnote⟩) hrest

theorem addPeers_extends (owners : List Owner) (entry : FileDescriptorInfo) :
    Extends owners [] entry (addPeers owners entry) := by
  induction owners generalizing entry with
  | nil => exact Extends.refl entry
  | cons owner owners ih =>
    rw [addPeers]
    split
    · exact .inl (.inr rfl)
    · have hone : Adds [owner] [] entry { entry with peers := entry.peers ++
          [{ owner.endpoint with relation := if entry.peerInode.isSome then "UNIX peer"
            else "Reversed address/port match (candidate)" }] } :=
        ⟨List.map_append, (List.append_nil _).symm, rfl, rfl, rfl, rfl⟩
      exact Extends.trans (.inr ⟨hone, rfl⟩) (ih _)

section Resolve

variable {owners : OrderedMap Key (List Owner)} {peerKeys : OrderedMap UInt32 (List Key)}

variable (owners) in
theorem addPeerKeys_extends (keys : List Key) (entry : FileDescriptorInfo) :
    Extends (keys.flatMap fun key => (owners.get? key).getD []) [] entry
      (addPeerKeys owners keys entry) := by
  unfold addPeerKeys
  induction keys generalizing entry with
  | nil => exact Extends.refl entry
  | cons key keys ih =>
    rw [List.foldl_cons, List.flatMap_cons]
    exact (addPeers_extends _ entry).trans (ih _)

theorem explainNoPeers_adds (entry : FileDescriptorInfo) :
    Adds [] [] entry (explainNoPeers entry) := by
  unfold explainNoPeers
  split
  · exact ⟨(List.append_nil _).symm, (List.append_nil _).symm, rfl, rfl, rfl, rfl⟩
  · exact Adds.refl entry

/-- Saying why there are no peers does not hide that a limit was reached. -/
theorem AtLimit.explainNoPeers {entry : FileDescriptorInfo} (h : AtLimit entry) :
    AtLimit (explainNoPeers entry) := by
  have hnote : entry.note.isEmpty = false := by
    rcases h with hnote | hnote
    · rw [hnote]
      decide
    · rw [hnote]
      decide
  unfold Analysis.explainNoPeers
  rw [hnote, Bool.and_false, if_neg Bool.false_ne_true]
  exact h

/-- What a descriptor lists when no limit is reached: the fellow owners at the other end of its pipe
and the owners of its peer keys as its peers, and the other fellow owners as its holders. -/
theorem resolveEntry_adds (id : ProcessId) (entry : FileDescriptorInfo)
    (h : ¬AtLimit (resolveEntry owners peerKeys id entry)) :
    Adds ((others id entry.fd ((owners.get? entry.key).getD [])).filter (opposes entry) ++
        ((peerKeys.get? entry.fd).getD []).flatMap fun key => (owners.get? key).getD [])
      ((others id entry.fd ((owners.get? entry.key).getD [])).filter fun o => !opposes entry o)
      entry (resolveEntry owners peerKeys id entry) := by
  have hfellows := addFellows_extends id ((owners.get? entry.key).getD []) entry
  have hboth := hfellows.trans (addPeerKeys_extends owners ((peerKeys.get? entry.fd).getD [])
    (addFellows id ((owners.get? entry.key).getD []) entry))
  rw [List.append_nil] at hboth
  rcases hboth with hlimit | ⟨hadds, -⟩
  · exact absurd hlimit.explainNoPeers h
  · have hall := hadds.trans (explainNoPeers_adds _)
    rw [List.append_nil, List.append_nil] at hall
    exact hall

end Resolve

/-! ## The view of a process -/

/-- The descriptors of a process with their peers and holders. -/
def processView (orders : Orders) (sockets : OrderedMap UInt64 SocketInfo) (capturedAt : UInt64)
    (warnings : List String) (scan : List Descriptor) (id : ProcessId) : FileDescriptors :=
  resolveDescriptorRelations
    (collectFileDescriptors orders sockets capturedAt warnings scan id)

section View

variable {capturedAt : UInt64} {warnings : List String} {scan : List Descriptor} {id : ProcessId}

/-- What the attributes of the socket leave as it was. -/
theorem socketEntry_adds (d : Descriptor) : Adds [] [] d.entry (d.socketEntry sockets) := by
  unfold Descriptor.socketEntry
  dsimp only
  split
  · exact Adds.refl _
  · split
    · exact ⟨rfl, rfl, rfl, rfl, rfl, rfl⟩
    · exact ⟨rfl, rfl, rfl, rfl, rfl, rfl⟩

theorem mem_collectEntries {entry : FileDescriptorInfo} : entry ∈ collectEntries sockets scan id ↔
    ∃ d ∈ scan, d.processId = id ∧ d.socketEntry sockets = entry := by
  rw [collectEntries, mem_sortByKey, List.mem_map]
  simp only [List.mem_filter, decide_eq_true_eq, and_assoc]

/-- The descriptors of the entries are distinct. -/
theorem nodup_fd_collectEntries (hscan : (scan.map Descriptor.fdKey).Nodup) :
    ((collectEntries sockets scan id).map FileDescriptorInfo.fd).Nodup := by
  have hperm : (collectEntries sockets scan id).Perm _ := List.perm_insertionSort _ _
  refine (hperm.map _).nodup_iff.mpr ?_
  have hfd : FileDescriptorInfo.fd ∘ Descriptor.socketEntry sockets = Descriptor.fd := by
    funext d
    exact (socketEntry_adds d).fd
  rw [List.map_map, hfd]
  refine List.Nodup.of_map (Prod.mk id) ?_
  have hkeys : ((scan.filter fun d => d.processId = id).map Descriptor.fd).map (Prod.mk id) =
      (scan.filter fun d => d.processId = id).map Descriptor.fdKey := by
    rw [List.map_map]
    refine List.map_congr_left fun d hd => ?_
    have hid := of_decide_eq_true (List.mem_filter.mp hd).2
    rw [Function.comp_apply, Descriptor.fdKey, hid]
  rw [hkeys]
  exact hscan.sublist (List.filter_sublist.map _)

/-- Every entry has its own peer keys. -/
theorem get?_collectPeerKeys {entries : List FileDescriptorInfo}
    (h : (entries.map FileDescriptorInfo.fd).Nodup) {entry : FileDescriptorInfo}
    (hentry : entry ∈ entries) :
    (collectPeerKeys orders sockets entries).get? entry.fd = peerKeysOf orders sockets entry := by
  have hnodup : ((entries.filterMap fun entry =>
      (peerKeysOf orders sockets entry).map fun keys => (entry.fd, keys)).map Prod.fst).Nodup := by
    rw [List.map_filterMap]
    refine h.sublist (filterMap_sublist_map (fun e fd hfd => ?_) entries)
    obtain ⟨pair, hpair, rfl⟩ := Option.map_eq_some_iff.mp hfd
    obtain ⟨keys, -, rfl⟩ := Option.map_eq_some_iff.mp hpair
    rfl
  apply Option.ext
  intro keys
  rw [OrderedMap.get?_eq_some_iff, collectPeerKeys, OrderedMap.entries_ofList hnodup,
    List.mem_filterMap]
  constructor
  · rintro ⟨other, hother, hkeys⟩
    obtain ⟨keys', hkeys', hpair⟩ := Option.map_eq_some_iff.mp hkeys
    obtain ⟨hfd, rfl⟩ := Prod.mk.inj hpair
    rwa [List.inj_on_of_nodup_map h hother hentry hfd] at hkeys'
  · intro hkeys
    exact ⟨entry, hentry, by rw [hkeys]; rfl⟩

/-- The captured owners of a wanted key are all owners in the scan. -/
theorem get?_collectDescriptorOwners {keys : List Key} {key : Key} (hkey : key ∈ keys) :
    ((collectDescriptorOwners keys scan).get? key).getD [] =
      (scan.filter fun d => d.resource.key = key).map Descriptor.owner := by
  rw [collectDescriptorOwners, getD_get?_group, valuesOf, List.filter_map, List.map_map,
    List.filter_filter]
  refine congrArg _ (List.filter_congr fun d _ => ?_)
  rw [Function.comp_apply]
  by_cases hd : d.resource.key = key
  · rw [decide_eq_true hd, Bool.true_and, hd]
    exact decide_eq_true hkey
  · rw [decide_eq_false hd, Bool.false_and]

/-- The peer keys of an entry are those of the sockets at the other end. -/
theorem mem_peerKeysOf {entry : FileDescriptorInfo} {key : Key} :
    key ∈ (peerKeysOf orders sockets entry).getD [] ↔ ∃ info inode, entry.kind = .socket ∧
      sockets.get? entry.key.inode = some info ∧ OtherEnd sockets entry.key.inode info inode ∧
      key = ⟨.socket, 0, inode⟩ := by
  unfold peerKeysOf entrySocket
  by_cases hkind : entry.kind = .socket
  · rw [if_pos hkind]
    cases hinfo : sockets.get? entry.key.inode with
    | none => simp
    | some info =>
      rw [Option.map_some, Option.getD_some, List.mem_map]
      simp only [mem_peerInodesOf]
      constructor
      · rintro ⟨inode, hend, rfl⟩
        exact ⟨info, inode, hkind, rfl, hend, rfl⟩
      · rintro ⟨info', inode, -, hsome, hend, rfl⟩
        cases hsome
        exact ⟨inode, hend, rfl⟩
  · rw [if_neg hkind]
    simp [hkind]

/-- The key of a socket. -/
theorem key_eq_socket_iff {resource : FdResource} {inode : UInt64} :
    resource.key = ⟨.socket, 0, inode⟩ ↔ resource.kind = .socket ∧ resource.inode = inode := by
  obtain ⟨kind, device, i⟩ := resource
  unfold FdResource.key
  dsimp only
  rw [Key.mk.injEq]
  constructor
  · rintro ⟨hkind, -, hinode⟩
    exact ⟨hkind, hinode⟩
  · rintro ⟨hkind, hinode⟩
    refine ⟨hkind, if_neg ?_, hinode⟩
    rw [hkind]
    decide

/-- The entry of a descriptor in the view of its process. -/
def viewEntry (orders : Orders) (sockets : OrderedMap UInt64 SocketInfo) (scan : List Descriptor)
    (d : Descriptor) : FileDescriptorInfo :=
  let data := collectFileDescriptors orders sockets 0 [] scan d.processId
  resolveEntry (OrderedMap.ofList data.rawFdOwners) (OrderedMap.ofList data.rawPeerKeys) d.processId
    (d.socketEntry sockets)

/-- The view lists the descriptors of the process. -/
theorem mem_processView {entry : FileDescriptorInfo} :
    entry ∈ (processView orders sockets capturedAt warnings scan id).entries ↔
      ∃ d ∈ scan, d.processId = id ∧ viewEntry orders sockets scan d = entry := by
  unfold processView resolveDescriptorRelations
  rw [List.mem_map]
  constructor
  · rintro ⟨e, he, rfl⟩
    obtain ⟨d, hd, rfl, rfl⟩ := mem_collectEntries.mp he
    exact ⟨d, hd, rfl, rfl⟩
  · rintro ⟨d, hd, rfl, rfl⟩
    exact ⟨_, mem_collectEntries.mpr ⟨d, hd, rfl, rfl⟩, rfl⟩

section Lists

variable (hscan : (scan.map Descriptor.fdKey).Nodup) {d : Descriptor} (hd : d ∈ scan)
  (hlimit : ¬AtLimit (viewEntry orders sockets scan d))
include hscan hd hlimit

/-- What the view lists for a descriptor. -/
theorem viewEntry_adds :
    Adds (((scan.filter fun p => p.resource.key = d.resource.key ∧ p.fdKey ≠ d.fdKey).map
          Descriptor.owner).filter (opposes d.entry) ++
        ((peerKeysOf orders sockets (d.socketEntry sockets)).getD []).flatMap fun key =>
          (scan.filter fun p => p.resource.key = key).map Descriptor.owner)
      (((scan.filter fun p => p.resource.key = d.resource.key ∧ p.fdKey ≠ d.fdKey).map
          Descriptor.owner).filter fun o => !opposes d.entry o)
      d.entry (viewEntry orders sockets scan d) := by
  have hentry : d.socketEntry sockets ∈ collectEntries sockets scan d.processId :=
    mem_collectEntries.mpr ⟨d, hd, rfl, rfl⟩
  have hsocket : Adds [] [] d.entry (d.socketEntry sockets) := socketEntry_adds d
  have hpeerKeys : (OrderedMap.ofList (collectFileDescriptors orders sockets 0 [] scan
      d.processId).rawPeerKeys).get? (d.socketEntry sockets).fd =
      peerKeysOf orders sockets (d.socketEntry sockets) :=
    (OrderedMap.get?_ofList_of_perm_entries (orders.peerKeys.perm _) _).trans
      (get?_collectPeerKeys (nodup_fd_collectEntries hscan) hentry)
  -- the keys of the entry and of its peers are wanted
  have howners : ∀ key, key = d.resource.key ∨
      key ∈ (peerKeysOf orders sockets (d.socketEntry sockets)).getD [] →
      ((OrderedMap.ofList (collectFileDescriptors orders sockets 0 [] scan
        d.processId).rawFdOwners).get? key).getD [] =
        (scan.filter fun p => p.resource.key = key).map Descriptor.owner := by
    intro key hkey
    have hget := OrderedMap.get?_ofList_of_perm_entries (orders.owners.perm
      (collectDescriptorOwners ((collectEntries sockets scan d.processId).map FileDescriptorInfo.key ++
        (collectPeerKeys orders sockets
          (collectEntries sockets scan d.processId)).values.flatten) scan).entries) key
    refine (congrArg (fun found => found.getD []) hget).trans (get?_collectDescriptorOwners ?_)
    rw [List.mem_append]
    rcases hkey with rfl | hkey
    · left
      exact List.mem_map.mpr ⟨_, hentry, hsocket.key⟩
    · right
      cases hkeys : peerKeysOf orders sockets (d.socketEntry sockets) with
      | none =>
        rw [hkeys] at hkey
        cases hkey
      | some keys =>
        rw [hkeys] at hkey
        rw [← get?_collectPeerKeys (nodup_fd_collectEntries hscan) hentry] at hkeys
        exact List.mem_flatten.mpr
          ⟨keys, List.mem_map.mpr ⟨_, OrderedMap.get?_eq_some_iff.mp hkeys, rfl⟩, hkey⟩
  have hadds := hsocket.trans (resolveEntry_adds d.processId (d.socketEntry sockets) hlimit)
  have hopposes : opposes (d.socketEntry sockets) = opposes d.entry := by
    funext o
    rw [opposes, opposes, hsocket.kind, hsocket.mode]
  have hfd : (d.socketEntry sockets).fd = d.fd := hsocket.fd
  have hkey : (d.socketEntry sockets).key = d.resource.key := hsocket.key
  have hothers : others d.processId d.fd
      ((scan.filter fun p => p.resource.key = d.resource.key).map Descriptor.owner) =
      (scan.filter fun p => p.resource.key = d.resource.key ∧ p.fdKey ≠ d.fdKey).map
        Descriptor.owner := by
    rw [others, List.filter_map, List.filter_filter]
    refine congrArg _ (List.filter_congr fun p _ => ?_)
    rw [Function.comp_apply, Bool.decide_and, Bool.and_comm]
    rfl
  rw [hpeerKeys, hopposes, hkey, howners _ (.inl rfl), hfd, hothers, List.nil_append,
    List.nil_append, List.flatMap_congr fun key hkey => howners key (.inr hkey)] at hadds
  exact hadds

/-- The peers of a descriptor are those that it talks to. -/
theorem mem_peers_iff {k : ProcessId × UInt32} :
    k ∈ (viewEntry orders sockets scan d).peers.map Endpoint.fdKey ↔
      ∃ p ∈ scan, p.fdKey = k ∧ Talks sockets d p := by
  have hsocket : Adds [] [] d.entry (d.socketEntry sockets) := socketEntry_adds d
  have hkey : (d.socketEntry sockets).key = d.resource.key := hsocket.key
  have hkind : (d.socketEntry sockets).kind = d.resource.kind := hsocket.kind
  have hstart : d.entry.peers.map Endpoint.fdKey = [] := rfl
  rw [(viewEntry_adds hscan hd hlimit).peers, hstart, List.nil_append, List.map_append,
    List.mem_append, List.mem_map, List.mem_map]
  constructor
  · rintro (⟨o, ho, rfl⟩ | ⟨o, ho, rfl⟩)
    · obtain ⟨hfellow, hopposes⟩ := List.mem_filter.mp ho
      obtain ⟨p, hfound, rfl⟩ := List.mem_map.mp hfellow
      obtain ⟨hp, hfilter⟩ := List.mem_filter.mp hfound
      obtain ⟨hsame, hne⟩ := of_decide_eq_true hfilter
      obtain ⟨hpipe, hopposite⟩ := (Bool.and_eq_true _ _).mp hopposes
      exact ⟨p, hp, rfl, .pipe hsame hne (of_decide_eq_true hpipe) hopposite⟩
    · obtain ⟨key, hpeer, howner⟩ := List.mem_flatMap.mp ho
      obtain ⟨p, hfound, rfl⟩ := List.mem_map.mp howner
      obtain ⟨hp, hfilter⟩ := List.mem_filter.mp hfound
      obtain ⟨info, inode, hsocketKind, hinfo, hend, rfl⟩ := mem_peerKeysOf.mp hpeer
      obtain ⟨hkind', rfl⟩ := key_eq_socket_iff.mp (of_decide_eq_true hfilter)
      rw [hkey] at hinfo hend
      exact ⟨p, hp, rfl, .socket info (hkind.symm.trans hsocketKind) hinfo hkind' hend⟩
  · rintro ⟨p, hp, rfl, ⟨hsame, hne, hpipe, hopposite⟩ | ⟨info, hsocketKind, hinfo, hkind', hend⟩⟩
    · refine .inl ⟨p.owner, List.mem_filter.mpr ⟨?_, ?_⟩, rfl⟩
      · exact List.mem_map_of_mem (List.mem_filter.mpr ⟨hp, decide_eq_true ⟨hsame, hne⟩⟩)
      · exact (Bool.and_eq_true _ _).mpr ⟨decide_eq_true hpipe, hopposite⟩
    · refine .inr ⟨p.owner, List.mem_flatMap.mpr ⟨p.resource.key, ?_, ?_⟩, rfl⟩
      · rw [mem_peerKeysOf, hkey, hkind]
        exact ⟨info, p.resource.inode, hsocketKind, hinfo, hend, key_eq_socket_iff.mpr ⟨hkind', rfl⟩⟩
      · exact List.mem_map_of_mem (List.mem_filter.mpr ⟨hp, decide_eq_true rfl⟩)

/-- The other owners of its resource that a pipe does not talk to are holders, and so are those of
a socket. -/
theorem mem_holders {p : Descriptor} (hp : p ∈ scan) (hsame : p.resource.key = d.resource.key)
    (hne : p.fdKey ≠ d.fdKey) (htalks : ¬Talks sockets d p) :
    p.fdKey ∈ (viewEntry orders sockets scan d).holders.map Endpoint.fdKey := by
  have hopposes : opposes d.entry p.owner = false := by
    refine Bool.eq_false_of_not_eq_true fun htrue => htalks ?_
    obtain ⟨hpipe, hopposite⟩ := (Bool.and_eq_true _ _).mp htrue
    exact .pipe hsame hne (of_decide_eq_true hpipe) hopposite
  have hstart : d.entry.holders.map Endpoint.fdKey = [] := rfl
  rw [(viewEntry_adds hscan hd hlimit).holders, hstart, List.nil_append, List.mem_map]
  refine ⟨p.owner, List.mem_filter.mpr ⟨?_, ?_⟩, rfl⟩
  · exact List.mem_map_of_mem (List.mem_filter.mpr ⟨hp, decide_eq_true ⟨hsame, hne⟩⟩)
  · rw [hopposes]
    rfl

end Lists

end View

end Procinsh.Analysis
