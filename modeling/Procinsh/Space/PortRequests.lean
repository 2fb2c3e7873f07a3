import Mathlib.Tactic.Linarith
import Procinsh.Space.Identities
import Procinsh.Space.IpcPorts

/-!
# What ports are asked for

A port is asked for by every drawn relation and network group in which its resource takes part.  The
asks for one port with one preference agree on its side, from whichever end of a relation they come,
so that the ports do not depend on the order of the relations.
-/

namespace Procinsh.Space.IpcPorts

variable {K : Type} [Field K] [LinearOrder K] {input : SceneInput K}

/-! ## Keys -/

theorem kindText_inj {a b : Scene.IpcKind} : kindText a = kindText b ↔ a = b := by
  cases a <;> cases b <;> simp [kindText]

theorem ipcKey_inj {a b : Scene.IpcIdentity} : ipcKey a = ipcKey b ↔ a = b := by
  rw [ipcKey, ipcKey]
  refine (Json.text_array_inj ?_ ?_ ?_).trans ?_
  · rfl
  · simp [Json.isPlain, Json.int]
  · simp [Json.isPlain, Json.int]
  · cases a
    cases b
    simp [Json.int, kindText_inj]

/-- A port belongs to a process and a resource. -/
theorem ipcOwnerKey_inj {a b : Scene.FdEndpoint} :
    ipcOwnerKey a = ipcOwnerKey b ↔ a.processId = b.processId ∧ a.resource = b.resource := by
  rw [ipcOwnerKey, ipcOwnerKey]
  refine (Json.text_array_inj ?_ ?_ ?_).trans ?_
  · rfl
  · simp [Json.isPlain]
  · simp [Json.isPlain]
  · simp [key_inj, ipcKey_inj]

/-! ## What is drawn -/

/-- The relation is drawn between processes: it is in no network group and does not lead to the
kernel, and its ends that are placed are visible. -/
structure RelationDrawn (input : SceneInput K) (relation : Scene.FdRelation) : Prop where
  mem : relation ∈ input.fdRelations
  ungrouped : ∀ group ∈ input.network.values, ∀ member ∈ group.members, member.id ≠ relation.id
  user : isKernelNetlink relation.socket = false
  owner : ∃ a, input.nodes.get? (key relation.endpoint.processId) = some a ∧
    key a.identity ∈ input.visible
  peer : ∀ peer b, relation.peer = some peer → input.nodes.get? (key peer.processId) = some b →
    key b.identity ∈ input.visible

/-- The network group is drawn. -/
structure GroupDrawn (input : SceneInput K) (group : NetworkGroup) : Prop where
  mem : group ∈ input.network.values
  owner : key group.endpoint.processId ∈ input.visible
  position : group.id ∈ input.networkPositions

/-- The endpoint occurs in a drawn relation or network group. -/
inductive Drawn (input : SceneInput K) : Scene.FdEndpoint → Prop
  | member {group : NetworkGroup} {member : Scene.FdRelation} (hgroup : GroupDrawn input group)
    (hmember : member ∈ group.members) : Drawn input member.endpoint
  | endpoint {relation : Scene.FdRelation} (hrelation : RelationDrawn input relation) :
    Drawn input relation.endpoint
  | peer {relation : Scene.FdRelation} {peer : Scene.FdEndpoint} {b : PlacedProcess K}
    (hrelation : RelationDrawn input relation) (hpeer : relation.peer = some peer)
    (hb : input.nodes.get? (key peer.processId) = some b) : Drawn input peer

/-! ## What an ask says -/

/-- The side of a port at `a` towards a port at `b`. -/
def facingNormal (a b : PlacedProcess K) (aId bId : String) : Vector3 K :=
  sideNormal (b.pos.x - a.pos.x) (b.pos.y - a.pos.y) (decide (utf16 bId < utf16 aId))

/-- The side that an ask is for follows from its port and its preference. -/
inductive Says (input : SceneInput K) (ask : Ask K) : Prop
  | roof (hpreferred : ask.preferred = "0:roof") (hnormal : ask.normal = ⟨0, 0, 1⟩)
    {group : NetworkGroup} (hgroup : group ∈ input.network.values) {member : Scene.FdRelation}
    (hmember : member ∈ group.members) (hendpoint : ask.endpoint = member.endpoint)
  | facing {other : Scene.FdEndpoint} {a b : PlacedProcess K}
    (ha : input.nodes.get? (key ask.endpoint.processId) = some a)
    (hb : input.nodes.get? (key other.processId) = some b)
    (hpreferred : ask.preferred = "1:" ++ ipcOwnerKey other)
    (hnormal : ask.normal = facingNormal a b (ipcOwnerKey ask.endpoint) (ipcOwnerKey other))
  | unobserved (hpreferred : ask.preferred = "2:unobserved") (hnormal : ask.normal = ⟨1, 0, 0⟩)

/-- Asks for one port with one preference are for one side. -/
theorem Says.normal_eq {x y : Ask K} (hx : Says input x) (hy : Says input y)
    (hkey : ipcOwnerKey x.endpoint = ipcOwnerKey y.endpoint)
    (hpreferred : x.preferred = y.preferred) : x.normal = y.normal := by
  have hchars := congrArg String.toList hpreferred
  cases hx with
  | roof hp hn =>
    cases hy with
    | roof _ hn' => rw [hn, hn']
    | facing _ _ hp' => simp [hp, hp'] at hchars
    | unobserved hp' => simp [hp, hp'] at hchars
  | facing ha hb hp hn =>
    cases hy with
    | roof hp' => simp [hp, hp'] at hchars
    | facing ha' hb' hp' hn' =>
      rw [hp, hp'] at hpreferred
      have hother := (String.append_right_inj _).mp hpreferred
      rw [(ipcOwnerKey_inj.mp hkey).1] at ha
      rw [(ipcOwnerKey_inj.mp hother).1] at hb
      rw [hn, hn', hkey, hother, Option.some.inj (ha.symm.trans ha'),
        Option.some.inj (hb.symm.trans hb')]
    | unobserved hp' => simp [hp, hp'] at hchars
  | unobserved hp hn =>
    cases hy with
    | roof hp' => simp [hp, hp'] at hchars
    | facing _ _ hp' => simp [hp, hp'] at hchars
    | unobserved _ hn' => rw [hn, hn']

/-! ## The asks of network groups -/

omit [LinearOrder K] in
theorem mem_groupAsks {group : NetworkGroup} (hgroup : group ∈ input.network.values)
    {ask : Ask K} : ask ∈ groupAsks input group ↔ GroupDrawn input group ∧
      ∃ member ∈ group.members,
        ask = ⟨member.endpoint, ⟨0, 0, 1⟩, "0:roof", member.id, some group.id⟩ := by
  unfold groupAsks
  split
  · next hskip =>
    refine ⟨fun h => absurd h List.not_mem_nil, fun h => ?_⟩
    exact absurd hskip (not_or.mpr ⟨not_not.mpr h.1.owner, not_not.mpr h.1.position⟩)
  · next hkeep =>
    rw [not_or, not_not, not_not] at hkeep
    rw [List.mem_map]
    constructor
    · rintro ⟨member, hmember, rfl⟩
      exact ⟨⟨hgroup, hkeep.1, hkeep.2⟩, member, hmember, rfl⟩
    · rintro ⟨-, member, hmember, rfl⟩
      exact ⟨member, hmember, rfl⟩

omit [Field K] [LinearOrder K] in
theorem notMem_grouped {relation : Scene.FdRelation} : relation.id ∉ grouped input ↔
    ∀ group ∈ input.network.values, ∀ member ∈ group.members, member.id ≠ relation.id := by
  simp [grouped]

/-! ## Ports that are asked for -/

/-- The asks for a port. -/
def asksFor (input : SceneInput K) (id : String) : List (Ask K) :=
  (asks input).filter fun ask => ipcOwnerKey ask.endpoint = id

theorem mem_asksFor {id : String} {ask : Ask K} :
    ask ∈ asksFor input id ↔ ask ∈ asks input ∧ ipcOwnerKey ask.endpoint = id := by
  simp [asksFor]

theorem get?_requests (id : String) : (requests input).get? id =
    (asksFor input id).foldl (fun port ask => some (askedPort port ask)) none :=
  OrderedMap.get?_foldl_update (fun ask : Ask K => ipcOwnerKey ask.endpoint) askedPort _ _ _

/-- The preference and the side after an ask. -/
def prefer (before : Option (String × Vector3 K)) (ask : Ask K) : String × Vector3 K :=
  before.elim (ask.preferred, ask.normal) fun b =>
    if utf16 ask.preferred < utf16 b.1 then (ask.preferred, ask.normal) else b

omit [Field K] [LinearOrder K] in
theorem prefer_comm_of_lt (before : Option (String × Vector3 K)) {x y : Ask K}
    (h : utf16 x.preferred < utf16 y.preferred) :
    prefer (some (prefer before x)) y = prefer (some (prefer before y)) x := by
  cases before with
  | none => simp [prefer, h, h.not_gt]
  | some b =>
    by_cases hx : utf16 x.preferred < utf16 b.1
    · by_cases hy : utf16 y.preferred < utf16 b.1
      · simp [prefer, hx, hy, h, h.not_gt]
      · simp [prefer, hx, hy, h.not_gt]
    · have hy : ¬utf16 y.preferred < utf16 b.1 := fun hy => hx (h.trans hy)
      simp [prefer, hx, hy]

omit [Field K] [LinearOrder K] in
theorem prefer_comm (before : Option (String × Vector3 K)) {x y : Ask K}
    (hnormal : x.preferred = y.preferred → x.normal = y.normal) :
    prefer (some (prefer before x)) y = prefer (some (prefer before y)) x := by
  rcases lt_trichotomy (utf16 x.preferred) (utf16 y.preferred) with h | h | h
  · exact prefer_comm_of_lt before h
  · have hpreferred := utf16_inj.mp h
    unfold prefer
    rw [hpreferred, hnormal hpreferred]
  · exact (prefer_comm_of_lt before h).symm

/-- The preference and the side of a port. -/
def preference (port : Option (PortRequest K)) : Option (String × Vector3 K) :=
  port.map fun port => (port.preferred, port.normal)

omit [LinearOrder K] in
/-- What an ask makes of a port, part by part. -/
theorem askedPort_eq (before : Option (PortRequest K)) (ask : Ask K) :
    askedPort before ask =
      { id := before.elim (ipcOwnerKey ask.endpoint) PortRequest.id
        process := before.elim (key ask.endpoint.processId) PortRequest.process
        preferred := (prefer (preference before) ask).1
        height := before.elim (portHeight ask.endpoint.resource.kind) PortRequest.height
        normal := (prefer (preference before) ask).2
        connections := insert ask.connection (before.elim ∅ PortRequest.connections)
        networks := (ask.network.filter (· ≠ "")).elim ∅ singleton ∪
          before.elim ∅ PortRequest.networks } := by
  have hnetworks (networks : Finset String) (network : Option String) :
      network.elim networks (fun network => insert network networks) =
        network.elim ∅ singleton ∪ networks := by
    cases network with
    | none => simp
    | some network => rfl
  cases before with
  | none =>
    simp only [askedPort, hnetworks]
    rfl
  | some port =>
    simp only [askedPort, hnetworks]
    by_cases h : utf16 ask.preferred < utf16 port.preferred
    · simp [prefer, preference, h]
    · simp [prefer, preference, h]

omit [LinearOrder K] in
/-- The asks for a port can be taken in any order. -/
theorem askedPort_comm (port : Option (PortRequest K)) {x y : Ask K}
    (hkey : ipcOwnerKey x.endpoint = ipcOwnerKey y.endpoint)
    (hnormal : x.preferred = y.preferred → x.normal = y.normal) :
    askedPort (some (askedPort port x)) y = askedPort (some (askedPort port y)) x := by
  obtain ⟨hprocess, hresource⟩ := ipcOwnerKey_inj.mp hkey
  have hprefer (ask : Ask K) : preference (some (askedPort port ask)) =
      some (prefer (preference port) ask) := by
    rw [askedPort_eq]
    rfl
  rw [askedPort_eq (some _), askedPort_eq (some _), hprefer, hprefer, prefer_comm _ hnormal]
  simp only [Option.elim_some, askedPort_eq port, hkey, hprocess, hresource, Finset.insert_comm,
    Finset.union_left_comm]

/-- The port is that of the endpoint, and on a side that was asked for. -/
structure Requested (input : SceneInput K) (e : Scene.FdEndpoint) (port : PortRequest K) :
    Prop where
  id : port.id = ipcOwnerKey e
  process : port.process = key e.processId
  height : port.height = portHeight e.resource.kind
  normal : ∃ ask ∈ asksFor input (ipcOwnerKey e), port.normal = ask.normal

/-- An ask keeps whose a port is. -/
theorem requested_askedPort {e : Scene.FdEndpoint} {before : Option (PortRequest K)} {ask : Ask K}
    (hask : ask ∈ asksFor input (ipcOwnerKey e))
    (hbefore : ∀ port, before = some port → Requested input e port) :
    Requested input e (askedPort before ask) := by
  have hkey := (mem_asksFor.mp hask).2
  obtain ⟨hprocess, hresource⟩ := ipcOwnerKey_inj.mp hkey
  rw [askedPort_eq]
  cases before with
  | none => exact ⟨hkey, congrArg key hprocess, by rw [← hresource]; rfl, ask, hask, rfl⟩
  | some port =>
    obtain ⟨hid, hprocess, hheight, hnormal⟩ := hbefore port rfl
    refine ⟨hid, hprocess, hheight, ?_⟩
    by_cases hlt : utf16 ask.preferred < utf16 port.preferred
    · exact ⟨ask, hask, by simp [prefer, preference, hlt]⟩
    · simpa [prefer, preference, hlt] using hnormal

theorem requested_of_get? {e : Scene.FdEndpoint} {port : PortRequest K}
    (h : (requests input).get? (ipcOwnerKey e) = some port) : Requested input e port := by
  rw [get?_requests] at h
  refine List.foldlRecOn (motive := fun v => ∀ port, v = some port → Requested input e port)
    (asksFor input (ipcOwnerKey e)) _ (fun port h => ?_) ?_ port h
  · exact absurd h (Option.some_ne_none port).symm
  · intro before hbefore ask hask port hport
    obtain rfl := Option.some.inj hport
    exact requested_askedPort hask hbefore

theorem get?_requests_eq_none_iff {id : String} :
    (requests input).get? id = none ↔ asksFor input id = [] := by
  rw [get?_requests]
  cases hasks : asksFor input id using List.reverseRecOn with
  | nil => simp
  | append_singleton asks ask => simp

variable [IsStrictOrderedRing K]

/-! ## Sides -/

theorem sign_neg (x : K) : sign (-x) = -sign x := by
  rcases lt_trichotomy x 0 with h | rfl | h
  · rw [sign, sign, if_pos h, if_neg (by linarith), if_pos (by linarith), neg_neg]
  · simp [sign]
  · rw [sign, sign, if_pos (by linarith), if_neg (by linarith), if_pos h]

/-- Opposite directions have opposite sides, if the tie is broken one way at each end. -/
theorem negate_sideNormal (dx dy : K) (after : Bool) :
    (sideNormal dx dy after).negate = sideNormal (-dx) (-dy) (!after) := by
  unfold sideNormal
  rw [abs_neg, abs_neg]
  split
  · simp only [sign_neg, ne_eq, neg_eq_zero]
    split
    · simp [Vector3.negate]
    · cases after <;> simp [Vector3.negate]
  · simp [Vector3.negate, sign_neg]

/-- The sides of the two ends of a connection face each other. -/
theorem negate_facingNormal (a b : PlacedProcess K) {aId bId : String} (h : aId ≠ bId) :
    (facingNormal a b aId bId).negate = facingNormal b a bId aId := by
  have hafter : (!decide (utf16 bId < utf16 aId)) = decide (utf16 aId < utf16 bId) := by
    rw [← decide_not, decide_eq_decide, not_lt]
    exact ⟨fun hle => lt_of_le_of_ne hle (mt utf16_inj.mp h), le_of_lt⟩
  rw [facingNormal, facingNormal, negate_sideNormal, hafter, neg_sub, neg_sub]

/-- The four sides. -/
def IsSide (n : Vector3 K) : Prop :=
  n = ⟨1, 0, 0⟩ ∨ n = ⟨-1, 0, 0⟩ ∨ n = ⟨0, 1, 0⟩ ∨ n = ⟨0, -1, 0⟩

theorem isSide_sideNormal (dx dy : K) (after : Bool) : IsSide (sideNormal dx dy after) := by
  unfold sideNormal IsSide sign
  split
  · split_ifs <;> simp_all
  · next hdx =>
    rcases lt_trichotomy dy 0 with h | rfl | h
    · simp [h]
    · exact absurd (abs_zero.trans_le (abs_nonneg dx)) hdx
    · simp [h, not_lt_of_gt h]

theorem Says.isSide {ask : Ask K} (h : Says input ask) :
    ask.normal = ⟨0, 0, 1⟩ ∨ IsSide ask.normal := by
  cases h with
  | roof _ hn => exact .inl hn
  | facing _ _ _ hn => exact .inr (hn ▸ isSide_sideNormal _ _ _)
  | unobserved _ hn => exact .inr (.inl hn)

/-! ## The asks of a relation -/

/-- What a relation asks for at its end whose peer is not placed. -/
def unobservedAsk (relation : Scene.FdRelation) : Ask K :=
  ⟨relation.endpoint, ⟨1, 0, 0⟩, "2:unobserved", relation.id, none⟩

/-- What a relation asks for at one of its two ends. -/
def facingAsk (relation : Scene.FdRelation) (endpoint other : Scene.FdEndpoint)
    (a b : PlacedProcess K) : Ask K :=
  ⟨endpoint, facingNormal a b (ipcOwnerKey endpoint) (ipcOwnerKey other),
    "1:" ++ ipcOwnerKey other, relation.id, none⟩

theorem sideNormal_one_zero (after : Bool) : sideNormal (K := K) 1 0 after = ⟨1, 0, 0⟩ := by
  have hsign : sign (1 : K) = 1 := by
    rw [sign, if_neg (not_lt.mpr zero_le_one), if_pos zero_lt_one]
  simp [sideNormal, hsign]

/-- A relation that is drawn asks for a port at each end that is placed, others ask for none. -/
theorem relationAsks_cases {relation : Scene.FdRelation} (hmem : relation ∈ input.fdRelations) :
    ¬RelationDrawn input relation ∧ relationAsks input relation = [] ∨
    RelationDrawn input relation ∧
      ((∀ peer, relation.peer = some peer → input.nodes.get? (key peer.processId) = none) ∧
        relationAsks input relation = [unobservedAsk relation] ∨
      ∃ peer a b, relation.peer = some peer ∧
        input.nodes.get? (key relation.endpoint.processId) = some a ∧
        input.nodes.get? (key peer.processId) = some b ∧
        relationAsks input relation = [facingAsk relation relation.endpoint peer a b,
          facingAsk relation peer relation.endpoint b a]) := by
  unfold relationAsks
  split
  · next hskip =>
    refine .inl ⟨fun hdrawn => ?_, rfl⟩
    rcases hskip with hgrouped | hkernel
    · exact notMem_grouped.mpr hdrawn.ungrouped hgrouped
    · exact absurd (hdrawn.user.symm.trans hkernel) nofun
  · next hkeep =>
    obtain ⟨hgrouped, hkernel⟩ := not_or.mp hkeep
    rw [Bool.not_eq_true] at hkernel
    cases ha : input.nodes.get? (key relation.endpoint.processId) with
    | none =>
      refine .inl ⟨fun hdrawn => ?_, rfl⟩
      obtain ⟨a, hplaced, -⟩ := hdrawn.owner
      exact absurd (ha.symm.trans hplaced) nofun
    | some a =>
      have hpeer (hnone : peerNode input relation = none) (peer : Scene.FdEndpoint)
          (hpeer : relation.peer = some peer) :
          input.nodes.get? (key peer.processId) = none := by
        rwa [peerNode, hpeer] at hnone
      dsimp only
      split
      · next hhidden =>
        refine .inl ⟨fun hdrawn => ?_, rfl⟩
        rcases hhidden with ha' | hb
        · obtain ⟨a', hplaced, hvisible⟩ := hdrawn.owner
          obtain rfl := Option.some.inj (ha.symm.trans hplaced)
          exact ha' hvisible
        · obtain ⟨b, hnode, hinvisible⟩ := (Option.any_eq_true _ _).mp hb
          obtain ⟨peer, hp, hb⟩ := Option.bind_eq_some_iff.mp hnode
          exact of_decide_eq_true hinvisible (hdrawn.peer peer b hp hb)
      · next hvisible =>
        obtain ⟨hvisible, hb⟩ := not_or.mp hvisible
        have hdrawn : RelationDrawn input relation := by
          refine ⟨hmem, notMem_grouped.mp hgrouped, hkernel, ⟨a, ha, by simpa using hvisible⟩, ?_⟩
          intro peer b hp hnode
          have hpeerNode : peerNode input relation = some b := by
            rw [peerNode, hp]
            exact hnode
          rw [hpeerNode] at hb
          simpa using hb
        refine .inr ⟨hdrawn, ?_⟩
        cases hnode : peerNode input relation with
        | none =>
          refine .inl ⟨hpeer hnode, ?_⟩
          simp [unobservedAsk, sideNormal_one_zero]
        | some b =>
          obtain ⟨peer, hp, hb⟩ := Option.bind_eq_some_iff.mp hnode
          refine .inr ⟨peer, a, b, hp, rfl, hb, ?_⟩
          have hopposite : (if ipcOwnerKey relation.endpoint = ipcOwnerKey peer then
              facingNormal a b (ipcOwnerKey relation.endpoint) (ipcOwnerKey peer) else
              (facingNormal a b (ipcOwnerKey relation.endpoint) (ipcOwnerKey peer)).negate) =
              facingNormal b a (ipcOwnerKey peer) (ipcOwnerKey relation.endpoint) := by
            split
            · next hself =>
              rw [(ipcOwnerKey_inj.mp hself).1] at ha
              rw [hself, Option.some.inj (ha.symm.trans hb)]
            · next hne => exact negate_facingNormal a b hne
          simp only [hp, Option.map_some, Option.some.injEq, facingAsk, ← hopposite]
          simp [facingNormal]

/-- An ask says what its side is, and is for a port that is drawn. -/
theorem says_of_mem_asks {ask : Ask K} (h : ask ∈ asks input) :
    Says input ask ∧ Drawn input ask.endpoint := by
  rcases List.mem_append.mp h with h | h
  · obtain ⟨group, hgroup, hask⟩ := List.mem_flatMap.mp h
    obtain ⟨hdrawn, member, hmember, rfl⟩ := (mem_groupAsks hgroup).mp hask
    exact ⟨.roof rfl rfl hgroup hmember rfl, .member hdrawn hmember⟩
  · obtain ⟨relation, hrelation, hask⟩ := List.mem_flatMap.mp h
    rcases relationAsks_cases hrelation with ⟨-, hasks⟩ | ⟨hdrawn, ⟨-, hasks⟩ |
      ⟨peer, a, b, hpeer, ha, hb, hasks⟩⟩
    · rw [hasks] at hask
      cases hask
    · rw [hasks, List.mem_singleton] at hask
      subst hask
      exact ⟨.unobserved rfl rfl, .endpoint hdrawn⟩
    · rw [hasks, List.mem_cons, List.mem_singleton] at hask
      rcases hask with rfl | rfl
      · exact ⟨.facing ha hb rfl rfl, .endpoint hdrawn⟩
      · exact ⟨.facing hb ha rfl rfl, .peer hdrawn hpeer hb⟩

/-- Every port that is drawn is asked for. -/
theorem exists_ask_of_drawn {e : Scene.FdEndpoint} (h : Drawn input e) :
    ∃ ask ∈ asks input, ask.endpoint = e := by
  have hrelation {relation : Scene.FdRelation} {ask : Ask K} (hdrawn : RelationDrawn input relation)
      (hask : ask ∈ relationAsks input relation) : ask ∈ asks input :=
    List.mem_append_right _ (List.mem_flatMap.mpr ⟨relation, hdrawn.mem, hask⟩)
  cases h with
  | member hgroup hmember =>
    have hask := (mem_groupAsks hgroup.mem).mpr ⟨hgroup, _, hmember, rfl⟩
    exact ⟨_, List.mem_append_left _ (List.mem_flatMap.mpr ⟨_, hgroup.mem, hask⟩), rfl⟩
  | endpoint hdrawn =>
    rcases relationAsks_cases hdrawn.mem with ⟨hnot, -⟩ | ⟨-, ⟨-, hasks⟩ |
      ⟨peer, a, b, -, -, -, hasks⟩⟩
    · exact absurd hdrawn hnot
    · exact ⟨_, hrelation hdrawn (hasks ▸ List.mem_singleton.mpr rfl), rfl⟩
    · exact ⟨_, hrelation hdrawn (hasks ▸ List.mem_cons_self), rfl⟩
  | peer hdrawn hpeer hb =>
    rcases relationAsks_cases hdrawn.mem with ⟨hnot, -⟩ | ⟨-, ⟨hunplaced, -⟩ |
      ⟨peer, a, b, hpeer', -, -, hasks⟩⟩
    · exact absurd hdrawn hnot
    · exact absurd ((hunplaced _ hpeer).symm.trans hb) nofun
    · obtain rfl := Option.some.inj (hpeer.symm.trans hpeer')
      exact ⟨_, hrelation hdrawn (hasks ▸ List.mem_cons_of_mem _ List.mem_cons_self), rfl⟩

/-! ## The ports of a scene -/

/-- The ports that are asked for do not depend on the order of the relations. -/
theorem get?_requests_of_perm {input' : SceneInput K} (hasks : (asks input).Perm (asks input'))
    (id : String) : (requests input).get? id = (requests input').get? id := by
  rw [get?_requests, get?_requests]
  refine (hasks.filter _).foldl_eq' (fun x hx y hy port => ?_) none
  obtain ⟨hx, hxid⟩ := mem_asksFor.mp hx
  obtain ⟨hy, hyid⟩ := mem_asksFor.mp hy
  have hkey := hxid.trans hyid.symm
  exact congrArg some (askedPort_comm port hkey
    ((says_of_mem_asks hx).1.normal_eq (says_of_mem_asks hy).1 hkey))

/-- The ports that are asked for are those that are drawn. -/
theorem exists_get?_requests_iff {id : String} : (∃ port, (requests input).get? id = some port) ↔
    ∃ e, Drawn input e ∧ ipcOwnerKey e = id := by
  rw [← Option.ne_none_iff_exists', ne_eq, get?_requests_eq_none_iff]
  constructor
  · intro hasks
    obtain ⟨ask, hask⟩ := List.exists_mem_of_ne_nil _ hasks
    obtain ⟨hask, hid⟩ := mem_asksFor.mp hask
    exact ⟨ask.endpoint, (says_of_mem_asks hask).2, hid⟩
  · rintro ⟨e, he, rfl⟩
    obtain ⟨ask, hask, rfl⟩ := exists_ask_of_drawn he
    exact List.ne_nil_of_mem (mem_asksFor.mpr ⟨hask, rfl⟩)

end Procinsh.Space.IpcPorts
