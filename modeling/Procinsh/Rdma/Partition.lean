import Procinsh.Rdma.Pairing

/-!
# The partition of the queue pairs into relations

The relations of different endpoints are told apart by their identifiers if device names have no
slash, as it is with the names of the kernel: the identifier of a pair has a slash before its second
part, which begins with a letter, and the only slash of a single one is before the port.
-/

namespace Procinsh.Rdma

open Ipc

/-! ## Identifiers -/

/-- The place of the only occurrence of an item. -/
theorem eq_of_append_cons_eq {α : Type} {sep : α} {u v pre post : List α}
    (h : u ++ sep :: v = pre ++ sep :: post) (hpre : sep ∉ pre) (hpost : sep ∉ post) : v = post := by
  rcases List.append_eq_append_iff.mp h with ⟨w, rfl, hw⟩ | ⟨w, rfl, hw⟩
  · cases w with
    | nil => exact (List.cons.inj hw).2
    | cons x w =>
      obtain ⟨rfl, -⟩ := List.cons.inj hw
      exact absurd (List.mem_append_right u List.mem_cons_self) hpre
  · cases w with
    | nil => exact (List.cons.inj hw).2.symm
    | cons x w =>
      obtain ⟨rfl, rfl⟩ := List.cons.inj hw
      exact absurd (List.mem_append_right w List.mem_cons_self) hpost

theorem isDigit_of_mem_toString {n : ℕ} {c : Char} (h : c ∈ (toString n).toList) : c.isDigit := by
  have hmem : c ∈ n.repr.toList := h
  rw [Nat.toList_repr] at hmem
  exact Nat.isDigit_of_mem_toDigits (by decide) le_rfl hmem

theorem not_mem_toString {n : ℕ} {c : Char} (hc : ¬ c.isDigit) : c ∉ (toString n).toList :=
  fun h => hc (isDigit_of_mem_toString h)

theorem exists_toString_eq_cons (n : ℕ) :
    ∃ c t, (toString n).toList = c :: t ∧ c.isDigit := by
  cases htext : (toString n).toList with
  | nil =>
    have hlength : (Nat.toDigits 10 n) = [] := by
      rw [← Nat.toList_repr]
      exact htext
    exact absurd hlength Nat.toDigits_ne_nil
  | cons c t => exact ⟨c, t, rfl, isDigit_of_mem_toString (htext ▸ List.mem_cons_self)⟩

/-- The identifier of a queue pair begins with a letter. -/
theorem exists_id_eq_cons (e : Endpoint) : ∃ t, e.id.toList = 'r' :: t := by
  unfold Endpoint.id QueuePairEntry.id endpointId
  split
  · simp
  · simp

/-- A slash in the identifier of a queue pair comes before a digit, if there is none in the name of the
device. -/
theorem isDigit_of_id_eq {e : Endpoint} (hdevice : '/' ∉ e.entry.device.toList) {u v : List Char}
    (h : e.id.toList = u ++ '/' :: v) : ∃ c t, v = c :: t ∧ c.isDigit := by
  have hname : '/' ∉ "rdma:".toList ++ e.entry.device.toList := by
    rw [List.mem_append, not_or]
    exact ⟨by decide, hdevice⟩
  have hnumber (n : ℕ) : '/' ∉ (toString n).toList := not_mem_toString (by decide)
  unfold Endpoint.id QueuePairEntry.id endpointId at h
  cases hport : e.entry.port with
  | none =>
    rw [hport] at h
    dsimp only at h
    have hmem : '/' ∈ u ++ '/' :: v := List.mem_append_right u List.mem_cons_self
    rw [← h, String.toList_append, String.toList_append, String.toList_append] at hmem
    rcases List.mem_append.mp hmem with hmem | hmem
    · rcases List.mem_append.mp hmem with hmem | hmem
      · exact absurd hmem hname
      · exact absurd hmem (by decide)
    · exact absurd hmem (hnumber _)
  | some port =>
    rw [hport] at h
    dsimp only at h
    obtain ⟨c, t, htext, hdigit⟩ := exists_toString_eq_cons port.toNat
    have hsplit : u ++ '/' :: v = ("rdma:".toList ++ e.entry.device.toList) ++
        '/' :: ((toString port.toNat).toList ++ ':' :: (toString e.entry.qpn.toNat).toList) := by
      rw [← h]
      simp
    have hrest : '/' ∉ (toString port.toNat).toList ++ ':' :: (toString e.entry.qpn.toNat).toList := by
      rw [List.mem_append, List.mem_cons, not_or, not_or]
      exact ⟨hnumber _, by decide, hnumber _⟩
    rw [eq_of_append_cons_eq hsplit hname hrest, htext]
    exact ⟨c, _, rfl, hdigit⟩

theorem id_ne_append {e d : Endpoint} (hdevice : '/' ∉ e.entry.device.toList) (u : List Char) :
    e.id.toList ≠ u ++ '/' :: d.id.toList := by
  intro h
  obtain ⟨c, t, hc, hdigit⟩ := isDigit_of_id_eq hdevice h
  obtain ⟨t', ht'⟩ := exists_id_eq_cons d
  rw [ht'] at hc
  obtain ⟨rfl, -⟩ := List.cons.inj hc
  exact absurd hdigit (by decide)

theorem toList_pair_id (a b : Endpoint) :
    (a.id ++ "/" ++ b.id).toList = a.id.toList ++ '/' :: b.id.toList := by
  simp

/-- Relations with one identifier have one endpoint. -/
theorem firstId_eq_of_id_eq {context : RdmaContext} {endpoints : List Endpoint}
    (hdevices : ∀ e ∈ endpoints, '/' ∉ e.entry.device.toList) {r s : RdmaRelation}
    (hr : IsRelation context endpoints r) (hs : IsRelation context endpoints s) (h : r.id = s.id) :
    firstId r = firstId s := by
  have hpairs {a b c d : Endpoint} (hc : '/' ∉ c.entry.device.toList) {w : List Char}
      (hw : c.id.toList = a.id.toList ++ w) (hrest : '/' :: b.id.toList = w ++ '/' :: d.id.toList) :
      a.id = c.id := by
    cases w with
    | nil =>
      rw [List.append_nil] at hw
      exact String.ext hw.symm
    | cons x w =>
      obtain ⟨rfl, hb⟩ := List.cons.inj hrest
      obtain ⟨y, t, rfl, hdigit⟩ := isDigit_of_id_eq hc hw
      obtain ⟨t', ht'⟩ := exists_id_eq_cons b
      rw [ht'] at hb
      obtain ⟨rfl, -⟩ := List.cons.inj hb
      exact absurd hdigit (by decide)
  have hsingle {a c d : Endpoint} (ha : '/' ∉ a.entry.device.toList) :
      a.id ≠ c.id ++ "/" ++ d.id := by
    intro heq
    have hlist := congrArg String.toList heq
    rw [toList_pair_id] at hlist
    exact id_ne_append ha _ hlist
  cases hr with
  | single a ha _ =>
    cases hs with
    | single c hc _ => exact h
    | pair c d hcd _ => exact absurd h (hsingle (hdevices a ha))
  | pair a b hab _ =>
    cases hs with
    | single c hc _ => exact absurd h.symm (hsingle (hdevices c hc))
    | pair c d hcd _ =>
      have hlist := congrArg String.toList h
      change (a.id ++ "/" ++ b.id).toList = (c.id ++ "/" ++ d.id).toList at hlist
      rw [toList_pair_id, toList_pair_id] at hlist
      rcases List.append_eq_append_iff.mp hlist with ⟨w, hw, hrest⟩ | ⟨w, hw, hrest⟩
      · exact hpairs (hdevices c hcd.2.1) hw hrest
      · exact (hpairs (hdevices a hab.2.1) hw hrest).symm

/-! ## The partition -/

section Partition

variable {context : RdmaContext} {endpoints : List Endpoint} {e : Endpoint} {r s : RdmaRelation}

/-- Whether a queue pair is in a relation, as the endpoint or as the peer. -/
def IsIn (context : RdmaContext) (q : QueuePairEntry) (r : RdmaRelation) : Prop :=
  r.endpoint = buildRdmaEndpoint context q ∨ r.peer = some (buildRdmaEndpoint context q)

instance (context : RdmaContext) (q : QueuePairEntry) : DecidablePred (IsIn context q) := fun r =>
  inferInstanceAs (Decidable (r.endpoint = _ ∨ r.peer = _))

/-- The relation of a queue pair. -/
inductive IsRelationOf (context : RdmaContext) (endpoints : List Endpoint) (e : Endpoint) :
    RdmaRelation → Prop
  | single (hnone : ∀ b, ¬ Paired context endpoints e b) :
      IsRelationOf context endpoints e (buildRelation context e none)
  | endpoint (b : Endpoint) (hpaired : Paired context endpoints e b) (hlt : e.id < b.id) :
      IsRelationOf context endpoints e (buildRelation context e (some b))
  | peer (b : Endpoint) (hpaired : Paired context endpoints e b) (hlt : b.id < e.id) :
      IsRelationOf context endpoints e (buildRelation context b (some e))

theorem id_inj (hids : (endpoints.map Endpoint.id).Nodup) {a b : Endpoint} (ha : a ∈ endpoints)
    (hb : b ∈ endpoints) (h : buildRdmaEndpoint context a.entry = buildRdmaEndpoint context b.entry) :
    a = b :=
  List.inj_on_of_nodup_map hids ha hb
    (congrArg (fun e : RdmaEndpoint => endpointId e.device e.port e.qpn) h)

/-- A queue pair is in its relation only. -/
theorem isRelationOf_iff (hids : (endpoints.map Endpoint.id).Nodup) (he : e ∈ endpoints) :
    IsRelationOf context endpoints e r ↔
      IsRelation context endpoints r ∧ IsIn context e.entry r := by
  constructor
  · intro h
    cases h with
    | single hnone => exact ⟨.single e he hnone, .inl rfl⟩
    | endpoint b hpaired hlt => exact ⟨.pair e b hpaired hlt, .inl rfl⟩
    | peer b hpaired hlt => exact ⟨.pair b e hpaired.symm hlt, .inr rfl⟩
  · rintro ⟨h, hin⟩
    cases h with
    | single a ha hnone =>
      rcases hin with hin | hin
      · obtain rfl := id_inj hids ha he hin
        exact .single hnone
      · cases hin
    | pair a b hab hlt =>
      rcases hin with hin | hin
      · obtain rfl := id_inj hids hab.2.1 he hin
        exact .endpoint b hab hlt
      · obtain rfl := id_inj hids hab.1.1 he (Option.some.inj hin)
        exact .peer a hab.symm hlt

theorem IsRelationOf.unique (hr : IsRelationOf context endpoints e r)
    (hs : IsRelationOf context endpoints e s) : r = s := by
  have hone := oneToOne_paired context endpoints
  cases hr with
  | single hnone =>
    cases hs with
    | single => rfl
    | endpoint b hpaired => exact absurd hpaired (hnone b)
    | peer b hpaired => exact absurd hpaired (hnone b)
  | endpoint b hpaired hlt =>
    cases hs with
    | single hnone => exact absurd hpaired (hnone b)
    | endpoint c hpaired' => rw [hone.unique _ _ _ hpaired hpaired']
    | peer c hpaired' hlt' =>
      rw [hone.unique _ _ _ hpaired hpaired'] at hlt
      exact absurd hlt (lt_asymm hlt')
  | peer b hpaired hlt =>
    cases hs with
    | single hnone => exact absurd hpaired (hnone b)
    | endpoint c hpaired' hlt' =>
      rw [hone.unique _ _ _ hpaired hpaired'] at hlt
      exact absurd hlt (lt_asymm hlt')
    | peer c hpaired' => rw [hone.unique _ _ _ hpaired hpaired']

theorem exists_isRelationOf (context : RdmaContext) (hids : (endpoints.map Endpoint.id).Nodup) (he : e ∈ endpoints) :
    ∃ r, IsRelationOf context endpoints e r := by
  by_cases hpaired : ∃ b, Paired context endpoints e b
  · obtain ⟨b, hpaired⟩ := hpaired
    have hne : e.id ≠ b.id := fun heq =>
      hpaired.1.2.1.ne (List.inj_on_of_nodup_map hids he hpaired.1.1 heq)
    rcases lt_or_gt_of_ne hne with hlt | hlt
    · exact ⟨_, .endpoint b hpaired hlt⟩
    · exact ⟨_, .peer b hpaired hlt⟩
  · exact ⟨_, .single fun b hb => hpaired ⟨b, hb⟩⟩

/-- Relations depend on which endpoints there are, not on their order. -/
theorem isRelation_congr {others : List Endpoint} (h : ∀ e, e ∈ endpoints ↔ e ∈ others) :
    IsRelation context endpoints r ↔ IsRelation context others r := by
  have hpaired : Paired context endpoints = Paired context others := by
    funext a b
    unfold Paired IsOnlyPartner
    simp only [h]
  constructor
  · intro hr
    cases hr with
    | single a ha hnone => exact .single a ((h a).mp ha) (hpaired ▸ hnone)
    | pair a b hab hlt => exact .pair a b (hpaired ▸ hab) hlt
  · intro hr
    cases hr with
    | single a ha hnone => exact .single a ((h a).mpr ha) (hpaired ▸ hnone)
    | pair a b hab hlt => exact .pair a b (hpaired ▸ hab) hlt

/-- Of relations that are listed once, exactly one has a queue pair. -/
theorem countP_isIn (hids : (endpoints.map Endpoint.id).Nodup) (he : e ∈ endpoints)
    {relations : List RdmaRelation} (hnodup : relations.Nodup)
    (hmem : ∀ r, r ∈ relations ↔ IsRelation context endpoints r) :
    relations.countP (IsIn context e.entry) = 1 := by
  obtain ⟨r, hr⟩ := exists_isRelationOf context hids he
  obtain ⟨hrelation, hin⟩ := (isRelationOf_iff hids he).mp hr
  have hone : relations.filter (IsIn context e.entry) = [r] := by
    refine (eq_singleton_iff (hnodup.filter _)).mpr ⟨?_, fun s hs => ?_⟩
    · exact List.mem_filter.mpr ⟨(hmem r).mpr hrelation, decide_eq_true hin⟩
    · obtain ⟨hs, hin'⟩ := List.mem_filter.mp hs
      have hs := (isRelationOf_iff hids he).mpr ⟨(hmem s).mp hs, of_decide_eq_true hin'⟩
      exact hs.unique hr
  rw [List.countP_eq_length_filter, hone, List.length_singleton]

end Partition

/-- Two queue pairs that are the only ones that can be the ends of a connection with each other. -/
def ArePeers (context : RdmaContext) (resources : NldevResources) (a b : QueuePairEntry) : Prop :=
  Paired context (resources.queuePairs.map (endpointOf context resources.cmIds))
    (endpointOf context resources.cmIds a) (endpointOf context resources.cmIds b)

/-- For queue pairs with different identifiers, each is in exactly one relation; relations have
different identifiers if device names have no slash; two queue pairs make a relation exactly if they
are peers, with the smaller identifier first; and the order of the queue pairs does not matter. -/
theorem buildRdmaRelations_partition (context : RdmaContext) (resources : NldevResources)
    (hids : (resources.queuePairs.map QueuePairEntry.id).Nodup) :
    (∀ q ∈ resources.queuePairs,
      (buildRdmaRelations context resources).countP (IsIn context q) = 1) ∧
    ((∀ q ∈ resources.queuePairs, '/' ∉ q.device.toList) →
      ((buildRdmaRelations context resources).map RdmaRelation.id).Nodup) ∧
    (∀ a ∈ resources.queuePairs, ∀ b ∈ resources.queuePairs,
      (∃ r ∈ buildRdmaRelations context resources, r.endpoint = buildRdmaEndpoint context a ∧
        r.peer = some (buildRdmaEndpoint context b)) ↔
          ArePeers context resources a b ∧ a.id < b.id) ∧
    (∀ r ∈ buildRdmaRelations context resources,
      (∃ a ∈ resources.queuePairs, r.endpoint = buildRdmaEndpoint context a) ∧
        ∀ peer, r.peer = some peer →
          ∃ b ∈ resources.queuePairs, peer = buildRdmaEndpoint context b) ∧
    ∀ queuePairs, queuePairs.Perm resources.queuePairs →
      (buildRdmaRelations context { resources with queuePairs }).Perm
        (buildRdmaRelations context resources) := by
  have hidsOf {queuePairs : List QueuePairEntry} (hids : (queuePairs.map QueuePairEntry.id).Nodup) :
      ((queuePairs.map (endpointOf context resources.cmIds)).map Endpoint.id).Nodup := by
    rw [List.map_map]
    exact hids
  obtain ⟨hfirst, hmem⟩ := mem_buildRdmaRelations_iff rfl (hidsOf hids)
  have hendpoint {q : QueuePairEntry} (hq : q ∈ resources.queuePairs) :
      endpointOf context resources.cmIds q ∈
        resources.queuePairs.map (endpointOf context resources.cmIds) := List.mem_map_of_mem hq
  refine ⟨fun q hq => ?_, fun hdevices => ?_, fun a ha b hb => ⟨?_, ?_⟩, fun r hr => ?_,
    fun queuePairs hperm => ?_⟩
  · exact countP_isIn (hidsOf hids) (hendpoint hq) (List.Nodup.of_map _ hfirst) hmem
  · have hdevices' : ∀ e ∈ resources.queuePairs.map (endpointOf context resources.cmIds),
        '/' ∉ e.entry.device.toList := by
      rintro _ he
      obtain ⟨q, hq, rfl⟩ := List.mem_map.mp he
      exact hdevices q hq
    refine List.Nodup.map_on (fun r hr s hs h => ?_) (List.Nodup.of_map _ hfirst)
    exact List.inj_on_of_nodup_map hfirst hr hs
      (firstId_eq_of_id_eq hdevices' ((hmem r).mp hr) ((hmem s).mp hs) h)
  · rintro ⟨r, hr, hendpoint', hpeer⟩
    have hr := (hmem r).mp hr
    cases hr with
    | single => cases hpeer
    | pair a' b' hpaired hlt =>
      obtain rfl := id_inj (hidsOf hids) hpaired.2.1 (hendpoint ha) hendpoint'
      obtain rfl := id_inj (hidsOf hids) hpaired.1.1 (hendpoint hb) (Option.some.inj hpeer)
      exact ⟨hpaired, hlt⟩
  · rintro ⟨hpaired, hlt⟩
    exact ⟨_, (hmem _).mpr (.pair _ _ hpaired hlt), rfl, rfl⟩
  · have hentry {e : Endpoint}
        (he : e ∈ resources.queuePairs.map (endpointOf context resources.cmIds)) :
        ∃ q ∈ resources.queuePairs, buildRdmaEndpoint context e.entry =
          buildRdmaEndpoint context q := by
      obtain ⟨q, hq, rfl⟩ := List.mem_map.mp he
      exact ⟨q, hq, rfl⟩
    have hr := (hmem r).mp hr
    cases hr with
    | single a ha _ => exact ⟨hentry ha, fun peer hpeer => by cases hpeer⟩
    | pair a b hpaired _ =>
      refine ⟨hentry hpaired.2.1, fun peer hpeer => ?_⟩
      obtain rfl := Option.some.inj hpeer
      exact hentry hpaired.1.1
  · have hendpoints := hperm.map (endpointOf context resources.cmIds)
    have hids' := hidsOf ((hperm.map QueuePairEntry.id).nodup_iff.mpr hids)
    obtain ⟨hfirst', hmem'⟩ : ((buildRdmaRelations context { resources with queuePairs }).map
        firstId).Nodup ∧ ∀ r, r ∈ buildRdmaRelations context { resources with queuePairs } ↔
          IsRelation context (queuePairs.map (endpointOf context resources.cmIds)) r :=
      mem_buildRdmaRelations_iff rfl hids'
    refine (List.perm_ext_iff_of_nodup (List.Nodup.of_map _ hfirst')
      (List.Nodup.of_map _ hfirst)).mpr fun r => ?_
    rw [hmem, hmem']
    exact isRelation_congr fun e => hendpoints.mem_iff

/-! ## Two loopback connections -/

/-- A connected queue pair of a process. -/
def rcEntry (device : String) (qpn : UInt32) (remoteQpn : Option UInt32) : QueuePairEntry :=
  ⟨device, some 1, qpn, remoteQpn, .rc, .rts, .process 1⟩

def emptyContext : RdmaContext := ⟨[], fun _ => none, fun _ => none⟩

/-- Two queue pairs with swapped numbers. -/
def loopbackResources : NldevResources :=
  ⟨[rcEntry "ib0" 20 (some 10), rcEntry "ib0" 10 (some 20)], []⟩

theorem buildRdmaRelations_partition_loopback :
    (∀ q ∈ loopbackResources.queuePairs,
      (buildRdmaRelations emptyContext loopbackResources).countP (IsIn emptyContext q) = 1) ∧
    ((∀ q ∈ loopbackResources.queuePairs, '/' ∉ q.device.toList) →
      ((buildRdmaRelations emptyContext loopbackResources).map RdmaRelation.id).Nodup) ∧
    (∀ a ∈ loopbackResources.queuePairs, ∀ b ∈ loopbackResources.queuePairs,
      (∃ r ∈ buildRdmaRelations emptyContext loopbackResources,
        r.endpoint = buildRdmaEndpoint emptyContext a ∧
          r.peer = some (buildRdmaEndpoint emptyContext b)) ↔
            ArePeers emptyContext loopbackResources a b ∧ a.id < b.id) ∧
    (∀ r ∈ buildRdmaRelations emptyContext loopbackResources,
      (∃ a ∈ loopbackResources.queuePairs, r.endpoint = buildRdmaEndpoint emptyContext a) ∧
        ∀ peer, r.peer = some peer →
          ∃ b ∈ loopbackResources.queuePairs, peer = buildRdmaEndpoint emptyContext b) ∧
    ∀ queuePairs, queuePairs.Perm loopbackResources.queuePairs →
      (buildRdmaRelations emptyContext { loopbackResources with queuePairs }).Perm
        (buildRdmaRelations emptyContext loopbackResources) :=
  buildRdmaRelations_partition emptyContext loopbackResources (by decide +kernel)

/-- A device whose name looks like the identifiers of other queue pairs. -/
def slashedResources : NldevResources :=
  ⟨[rcEntry "ib0" 10 (some 20), rcEntry "ib0" 20 (some 10), rcEntry "ib0/1:10/rdma:ib0" 20 none], []⟩

/-- With such a name, a single queue pair has the identifier of a pair. -/
theorem ids_slashedResources :
    (slashedResources.queuePairs.map QueuePairEntry.id).Nodup ∧
      ¬ ((buildRdmaRelations emptyContext slashedResources).map RdmaRelation.id).Nodup := by
  decide +kernel

end Procinsh.Rdma
