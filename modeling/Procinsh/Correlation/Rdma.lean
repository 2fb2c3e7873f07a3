import Procinsh.Correlation.Entries
import Procinsh.Foundation.Matching

/-!
# Cross-host RDMA links

`rdma_links` (`src/http_server/hosts/correlate.rs`) looks for each queue pair at the queue pairs of
other hosts with the two numbers swapped.  Remote GIDs and connection manager addresses are evidence:
where both ends know them they agree or contradict each other.  A link needs a partner that is the
only one without a contradiction, seen from both ends, and either positive evidence or ports of one
link layer.
-/

namespace Procinsh.Correlation

structure RdmaEvidence where
  /-- Each remote GID equals the other end's port GID. -/
  gid : Bool
  /-- The connection manager addresses are swapped. -/
  cm : Bool
  deriving DecidableEq, Repr

structure RdmaLink where
  a : LinkEnd
  b : LinkEnd
  evidence : RdmaEvidence
  deriving DecidableEq, Repr

/-- The two ends, which are compared in this order. -/
def RdmaLink.key (link : RdmaLink) : LinkEnd ×ₗ LinkEnd := toLex (link.a, link.b)

/-- A queue pair with what its port says. -/
structure Qp where
  linkEnd : LinkEnd
  relation : RdmaRelation
  gid : Option String
  linkLayer : Option String

/-- The port of an endpoint. -/
def portOf (ports : List RdmaPort) (endpoint : RdmaEndpoint) : Option RdmaPort :=
  ports.find? fun p => p.device = endpoint.device && some p.port = endpoint.port

/-- The queue pair of a relation, if it is connected, has no peer on its host and names the remote
number. -/
def readQp (host : String) (snapshot : Json) (relation : RdmaRelation) : Option Qp :=
  let connected := relation.endpoint.qpType.kind ∈ ["rc", "uc", "xrc_ini", "xrc_tgt"]
  if relation.peer.isSome || !connected || relation.remoteQpn.isNone then none
  else
    let port := portOf (entries RdmaPort.deserialize snapshot "rdma_ports") relation.endpoint
    some ⟨⟨host, relation.id⟩, relation, port.bind RdmaPort.gid, port.bind RdmaPort.linkLayer⟩

/-- The queue pairs of all hosts. -/
def qps (hosts : Hosts) : List Qp :=
  collect RdmaRelation.deserialize "rdma_relations" readQp hosts

/-- The indices of the queue pairs with each number. -/
def byQpn (qps : List Qp) : OrderedMap UInt32 (List ℕ) :=
  group (qps.zipIdx.map fun p => (p.1.relation.endpoint.qpn, p.2))

/-- Whether the remote GID of one end is the GID of the other, when both are known. -/
def gidEvidence (a b : Qp) : Option Bool :=
  match a.relation.remoteGid, b.gid with
  | some remote, some gid => some (remote = gid)
  | _, _ => none

/-- Whether the connection manager addresses are swapped, when all four are known. -/
def cmEvidence (a b : Qp) : Option Bool :=
  match a.relation.cm, b.relation.cm with
  | some ⟨some xs, some xd⟩, some ⟨some ys, some yd⟩ => some (xs = yd && xd = ys)
  | _, _ => none

/-- The evidence for a link, or `none` when the ends contradict each other. -/
def evidence (a b : Qp) : Option RdmaEvidence :=
  let gids := [gidEvidence a b, gidEvidence b a]
  let cm := cmEvidence a b
  if some false ∈ gids ∨ cm = some false then none
  else some ⟨some true ∈ gids, cm = some true⟩

/-- Another queue pair that has the remote number, with the evidence. -/
def candidate (qps : List Qp) (a : Qp) (other : ℕ) : Option (ℕ × RdmaEvidence) := do
  let b ← qps[other]?
  if b.linkEnd.host ≠ a.linkEnd.host ∧ b.relation.remoteQpn = some a.relation.endpoint.qpn then
    return (other, ← evidence a b)
  else none

/-- The queue pairs that a queue pair can be linked to, with the evidence. -/
def candidates (qps : List Qp) (index : ℕ) : List (ℕ × RdmaEvidence) :=
  match qps[index]? with
  | none => []
  | some a =>
    -- a queue pair without a remote number has not been collected
    ((a.relation.remoteQpn.bind (byQpn qps).get?).getD []).filterMap (candidate qps a)

/-- The link that is found from its smaller end. -/
def rdmaLink (qps : List Qp) (index : ℕ) : Option RdmaLink :=
  match candidates qps index with
  | [(other, evidence)] => do
    let a ← qps[index]?
    let b ← qps[other]?
    -- a bare swap of the numbers links only when unique in both directions on one link layer
    let unique := (candidates qps other).map Prod.fst = [index]
    let addressed := evidence.gid || evidence.cm
    if b.linkEnd ≤ a.linkEnd || !unique || (!addressed && a.linkLayer ≠ b.linkLayer) then none
    else return ⟨a.linkEnd, b.linkEnd, evidence⟩
  | _ => none

/-- The links between queue pairs of the hosts. -/
def rdmaLinks (hosts : Hosts) : List RdmaLink :=
  let qps := qps hosts
  sortByKey RdmaLink.key ((List.range qps.length).filterMap (rdmaLink qps))

/-! ## Compatible queue pairs -/

/-- A remote GID that is known does not differ from the GID of the other port. -/
def GidConsistent (a b : Qp) : Prop :=
  ∀ remote gid, a.relation.remoteGid = some remote → b.gid = some gid → remote = gid

/-- Connection manager addresses that are known are swapped. -/
def CmConsistent (a b : Qp) : Prop :=
  ∀ xs xd ys yd, a.relation.cm = some ⟨some xs, some xd⟩ → b.relation.cm = some ⟨some ys, some yd⟩ →
    xs = yd ∧ xd = ys

/-- Queue pairs on different hosts with swapped numbers that do not contradict each other. -/
structure Compatible (a b : Qp) : Prop where
  hosts : a.linkEnd.host ≠ b.linkEnd.host
  remote : a.relation.remoteQpn = some b.relation.endpoint.qpn
  remote' : b.relation.remoteQpn = some a.relation.endpoint.qpn
  gid : GidConsistent a b
  gid' : GidConsistent b a
  cm : CmConsistent a b

/-- A remote GID is the GID of the other port. -/
def GidPositive (a b : Qp) : Prop :=
  (∃ gid, a.relation.remoteGid = some gid ∧ b.gid = some gid) ∨
    ∃ gid, b.relation.remoteGid = some gid ∧ a.gid = some gid

/-- The connection manager addresses are known and swapped. -/
def CmPositive (a b : Qp) : Prop :=
  ∃ xs xd, a.relation.cm = some ⟨some xs, some xd⟩ ∧ b.relation.cm = some ⟨some xd, some xs⟩

/-- Each is the only compatible queue pair of the other, and there is positive evidence or one link
layer. -/
structure LinkedQps (hosts : Hosts) (a b : Qp) : Prop where
  left : a ∈ qps hosts
  right : b ∈ qps hosts
  compatible : Compatible a b
  onlyRight : ∀ c ∈ qps hosts, Compatible a c → c = b
  onlyLeft : ∀ c ∈ qps hosts, Compatible b c → c = a
  addressed : GidPositive a b ∨ CmPositive a b ∨ a.linkLayer = b.linkLayer

/-- The hosts have distinct names and each has distinct relation ids. -/
abbrev DistinctRdmaRelations (hosts : Hosts) : Prop :=
  DistinctIds RdmaRelation.deserialize RdmaRelation.id "rdma_relations" hosts

/-- Each host has one port for a device and a number. -/
def DistinctPorts (hosts : Hosts) : Prop :=
  ∀ h ∈ hosts, ((entries RdmaPort.deserialize h.2 "rdma_ports").map fun p =>
    (p.device, p.port)).Nodup

variable {hosts hosts' : Hosts} {a b : Qp}

theorem Compatible.symm (h : Compatible a b) : Compatible b a where
  hosts := h.hosts.symm
  remote := h.remote'
  remote' := h.remote
  gid := h.gid'
  gid' := h.gid
  cm := fun xs xd ys yd hx hy => (h.cm ys yd xs xd hy hx).symm.imp Eq.symm Eq.symm

theorem GidPositive.symm (h : GidPositive a b) : GidPositive b a := Or.symm h

theorem CmPositive.symm (h : CmPositive a b) : CmPositive b a := by
  obtain ⟨xs, xd, hx, hy⟩ := h
  exact ⟨xd, xs, hy, hx⟩

/-! ## Evidence -/

theorem gidEvidence_eq_some_true : gidEvidence a b = some true ↔
    ∃ gid, a.relation.remoteGid = some gid ∧ b.gid = some gid := by
  unfold gidEvidence
  split
  · next remote gid hremote hgid => simp [hremote, hgid, eq_comm]
  · next hnone =>
    refine iff_of_false nofun ?_
    rintro ⟨gid, hremote, hgid⟩
    exact hnone gid gid hremote hgid

theorem gidEvidence_eq_some_false : gidEvidence a b = some false ↔ ¬ GidConsistent a b := by
  unfold gidEvidence GidConsistent
  split
  · next remote gid hremote hgid => simp [hremote, hgid]
  · next hnone =>
    refine iff_of_false nofun fun hnot => hnot ?_
    intro remote gid hremote hgid
    exact absurd hgid fun hgid => hnone remote gid hremote hgid

theorem cmEvidence_eq_some_true : cmEvidence a b = some true ↔ CmPositive a b := by
  unfold cmEvidence CmPositive
  split
  · next xs xd ys yd hx hy =>
    simp only [hx, hy, Option.some.injEq, Bool.and_eq_true, decide_eq_true_eq, CmInfo.mk.injEq]
    constructor
    · rintro ⟨rfl, rfl⟩
      exact ⟨xs, xd, ⟨rfl, rfl⟩, rfl, rfl⟩
    · rintro ⟨_, _, ⟨rfl, rfl⟩, rfl, rfl⟩
      exact ⟨rfl, rfl⟩
  · next hnone =>
    refine iff_of_false nofun ?_
    rintro ⟨xs, xd, hx, hy⟩
    exact hnone xs xd xd xs hx hy

theorem cmEvidence_eq_some_false : cmEvidence a b = some false ↔ ¬ CmConsistent a b := by
  unfold cmEvidence CmConsistent
  split
  · next xs xd ys yd hx hy =>
    simp only [Option.some.injEq, Bool.and_eq_false_iff, decide_eq_false_iff_not]
    constructor
    · intro hne hall
      obtain ⟨hs, hd⟩ := hall xs xd ys yd hx hy
      rcases hne with hne | hne
      · exact hne hs
      · exact hne hd
    · intro hnot
      by_contra hboth
      rw [not_or, not_not, not_not] at hboth
      refine hnot fun xs' xd' ys' yd' hx' hy' => ?_
      rw [hx] at hx'
      rw [hy] at hy'
      cases hx'
      cases hy'
      exact hboth
  · next hnone =>
    refine iff_of_false nofun fun hnot => hnot ?_
    intro xs xd ys yd hx hy
    exact absurd hy fun hy => hnone xs xd ys yd hx hy

private lemma decide_eq_iff {p : Prop} [Decidable p] {b : Bool} :
    decide p = b ↔ (b = true ↔ p) := by
  cases b with
  | true => simp
  | false => simp

/-- There is evidence unless the ends contradict each other; it says what is positive. -/
theorem evidence_eq_some {e : RdmaEvidence} : evidence a b = some e ↔
    (GidConsistent a b ∧ GidConsistent b a ∧ CmConsistent a b) ∧
      (e.gid = true ↔ GidPositive a b) ∧ (e.cm = true ↔ CmPositive a b) := by
  have hcontradicts : (some false ∈ [gidEvidence a b, gidEvidence b a] ∨
      cmEvidence a b = some false) ↔
        ¬ (GidConsistent a b ∧ GidConsistent b a ∧ CmConsistent a b) := by
    rw [List.mem_pair, eq_comm, gidEvidence_eq_some_false, eq_comm, gidEvidence_eq_some_false,
      cmEvidence_eq_some_false]
    tauto
  have hpositive : some true ∈ [gidEvidence a b, gidEvidence b a] ↔ GidPositive a b := by
    rw [List.mem_pair, eq_comm, gidEvidence_eq_some_true, eq_comm, gidEvidence_eq_some_true]
    rfl
  unfold evidence
  dsimp only
  by_cases h : GidConsistent a b ∧ GidConsistent b a ∧ CmConsistent a b
  · rw [if_neg (fun hbad => hcontradicts.mp hbad h), Option.some_inj]
    obtain ⟨gid, cm⟩ := e
    rw [RdmaEvidence.mk.injEq, ← hpositive, ← cmEvidence_eq_some_true]
    rw [decide_eq_iff, decide_eq_iff]
    exact ⟨fun hboth => ⟨h, hboth⟩, fun hboth => hboth.2⟩
  · rw [if_pos (hcontradicts.mpr h)]
    exact iff_of_false nofun fun hboth => h hboth.1

/-- The evidence is the same from both ends. -/
theorem evidence_symm (a b : Qp) : evidence a b = evidence b a := by
  have himp : ∀ {a b : Qp} {e : RdmaEvidence}, evidence a b = some e → evidence b a = some e := by
    intro a b e h
    obtain ⟨⟨hgid, hgid', hcm⟩, hpositive, hpositive'⟩ := evidence_eq_some.mp h
    have hcm' : CmConsistent b a := fun xs xd ys yd hx hy =>
      (hcm ys yd xs xd hy hx).symm.imp Eq.symm Eq.symm
    exact evidence_eq_some.mpr ⟨⟨hgid', hgid, hcm'⟩,
      hpositive.trans ⟨GidPositive.symm, GidPositive.symm⟩,
      hpositive'.trans ⟨CmPositive.symm, CmPositive.symm⟩⟩
  apply Option.ext
  intro e
  exact ⟨himp, himp⟩

/-- There is evidence for compatible queue pairs. -/
theorem exists_evidence (h : Compatible a b) : ∃ e, evidence a b = some e := by
  classical
  refine ⟨⟨decide (GidPositive a b), decide (CmPositive a b)⟩, evidence_eq_some.mpr ?_⟩
  exact ⟨⟨h.gid, h.gid', h.cm⟩, decide_eq_true_iff, decide_eq_true_iff⟩

/-! ## Candidates -/

/-- The indices of a number are those of its queue pairs. -/
theorem mem_indices {l : List Qp} {qpn : UInt32} {j : ℕ} :
    j ∈ ((byQpn l).get? qpn).getD [] ↔ ∃ b, l[j]? = some b ∧ b.relation.endpoint.qpn = qpn := by
  rw [byQpn, getD_get?_group, mem_valuesOf, List.mem_map]
  constructor
  · rintro ⟨⟨b, i⟩, hmem, hpair⟩
    cases hpair
    exact ⟨b, List.mem_zipIdx_iff_getElem?.mp hmem, rfl⟩
  · rintro ⟨b, hb, rfl⟩
    exact ⟨(b, j), List.mem_zipIdx_iff_getElem?.mpr hb, rfl⟩

/-- When another queue pair is a candidate. -/
theorem candidate_eq_some {l : List Qp} {a : Qp} {other : ℕ} {p : ℕ × RdmaEvidence} :
    candidate l a other = some p ↔ p.1 = other ∧ ∃ b, l[other]? = some b ∧
      b.linkEnd.host ≠ a.linkEnd.host ∧ b.relation.remoteQpn = some a.relation.endpoint.qpn ∧
      evidence a b = some p.2 := by
  constructor
  · intro h
    obtain ⟨b, hb, h⟩ := Option.bind_eq_some_iff.mp h
    split at h
    · next hguard =>
      obtain ⟨e, he, hpair⟩ := Option.bind_eq_some_iff.mp h
      cases hpair
      exact ⟨rfl, b, hb, hguard.1, hguard.2, he⟩
    · cases h
  · rintro ⟨rfl, b, hb, hne, hremote, he⟩
    rw [candidate, hb, Option.bind_eq_bind, Option.bind_some, if_pos ⟨hne, hremote⟩, he]
    rfl

/-- The candidates of a queue pair are the compatible ones. -/
theorem mem_candidates {l : List Qp} {i j : ℕ} {a : Qp} {e : RdmaEvidence} (hi : l[i]? = some a) :
    (j, e) ∈ candidates l i ↔
      ∃ b, l[j]? = some b ∧ Compatible a b ∧ evidence a b = some e := by
  unfold candidates
  rw [hi]
  dsimp only
  rw [List.mem_filterMap]
  constructor
  · rintro ⟨other, hother, hread⟩
    obtain ⟨rfl, b, hb, hne, hback, he⟩ := candidate_eq_some.mp hread
    obtain ⟨⟨hgid, hgid', hcm⟩, -⟩ := evidence_eq_some.mp he
    cases hremote : a.relation.remoteQpn with
    | none =>
      rw [hremote] at hother
      cases hother
    | some qpn =>
      rw [hremote] at hother
      obtain ⟨b', hb', rfl⟩ := mem_indices.mp hother
      obtain rfl := Option.some.inj (hb.symm.trans hb')
      exact ⟨b, hb, ⟨hne.symm, hremote, hback, hgid, hgid', hcm⟩, he⟩
  · rintro ⟨b, hb, hcompatible, he⟩
    refine ⟨j, ?_, ?_⟩
    · rw [hcompatible.remote]
      exact mem_indices.mpr ⟨b, hb, rfl⟩
    · exact candidate_eq_some.mpr
        ⟨rfl, b, hb, hcompatible.hosts.symm, hcompatible.remote', he⟩

/-- No candidate occurs twice. -/
theorem nodup_candidates (l : List Qp) (i : ℕ) : ((candidates l i).map Prod.fst).Nodup := by
  have hindices : ∀ qpn : UInt32, (((byQpn l).get? qpn).getD []).Nodup := by
    intro qpn
    rw [byQpn, getD_get?_group]
    refine nodup_valuesOf ?_ qpn
    rw [List.map_map]
    change (l.zipIdx.map Prod.snd).Nodup
    rw [List.zipIdx_map_snd]
    exact List.nodup_range'
  unfold candidates
  split
  · exact List.nodup_nil
  · next a hi =>
    have hnodup : ((a.relation.remoteQpn.bind (byQpn l).get?).getD []).Nodup := by
      cases a.relation.remoteQpn with
      | none => exact List.nodup_nil
      | some qpn => exact hindices qpn
    refine List.pairwise_map.mpr (List.pairwise_filterMap.mpr (hnodup.imp fun hne p hp q hq => ?_))
    rw [(candidate_eq_some.mp hp).1, (candidate_eq_some.mp hq).1]
    exact hne

/-- A queue pair has one candidate exactly if it has one compatible queue pair. -/
theorem candidates_eq_singleton {l : List Qp} (hl : l.Nodup) {i j : ℕ} {a b : Qp} {e : RdmaEvidence}
    (hi : l[i]? = some a) (hj : l[j]? = some b) :
    candidates l i = [(j, e)] ↔
      Compatible a b ∧ evidence a b = some e ∧ ∀ c ∈ l, Compatible a c → c = b := by
  rw [eq_singleton_iff (List.Nodup.of_map _ (nodup_candidates l i)), mem_candidates hi]
  constructor
  · rintro ⟨⟨b', hb', hcompatible, he⟩, honly⟩
    obtain rfl := Option.some.inj (hj.symm.trans hb')
    refine ⟨hcompatible, he, fun c hc hac => ?_⟩
    obtain ⟨k, hk⟩ := List.mem_iff_getElem?.mp hc
    obtain ⟨e', he'⟩ := exists_evidence hac
    have hpair := honly (k, e') ((mem_candidates hi).mpr ⟨c, hk, hac, he'⟩)
    cases hpair
    exact Option.some.inj (hk.symm.trans hj)
  · rintro ⟨hcompatible, he, honly⟩
    refine ⟨⟨b, hj, hcompatible, he⟩, ?_⟩
    rintro ⟨k, e'⟩ hmem
    obtain ⟨c, hk, hac, he'⟩ := (mem_candidates hi).mp hmem
    obtain rfl := honly c (List.mem_of_getElem? hk) hac
    have hkj : k = j := by
      have hlt : k < l.length := (List.getElem?_eq_some_iff.mp hk).1
      exact (List.getElem?_inj hlt hl).mp (hk.trans hj.symm)
    rw [hkj, Option.some.inj (he'.symm.trans he)]

/-! ## Links -/

/-- When a queue pair gives a link. -/
theorem rdmaLink_eq_some {l : List Qp} {i : ℕ} {link : RdmaLink} : rdmaLink l i = some link ↔
    ∃ a b j, l[i]? = some a ∧ l[j]? = some b ∧ candidates l i = [(j, link.evidence)] ∧
      (candidates l j).map Prod.fst = [i] ∧ a.linkEnd < b.linkEnd ∧
      (link.evidence.gid = true ∨ link.evidence.cm = true ∨ a.linkLayer = b.linkLayer) ∧
      link.a = a.linkEnd ∧ link.b = b.linkEnd := by
  obtain ⟨enda, endb, e⟩ := link
  unfold rdmaLink
  constructor
  · intro h
    split at h
    · next j e' hcandidates =>
      obtain ⟨a, ha, h⟩ := Option.bind_eq_some_iff.mp h
      obtain ⟨b, hb, h⟩ := Option.bind_eq_some_iff.mp h
      dsimp only at h
      split at h
      · cases h
      · next hguard =>
        cases h
        simp only [Bool.or_eq_true, Bool.and_eq_true, Bool.not_eq_true', decide_eq_true_eq,
          decide_eq_false_iff_not, not_or, not_and, not_not, not_le, Bool.or_eq_false_iff] at hguard
        obtain ⟨⟨hlt, hunique⟩, haddressed⟩ := hguard
        refine ⟨a, b, j, ha, hb, hcandidates, hunique, hlt, ?_, rfl, rfl⟩
        dsimp only
        by_cases hgid : e.gid = true
        · exact .inl hgid
        · by_cases hcm : e.cm = true
          · exact .inr (.inl hcm)
          · exact .inr (.inr (haddressed ⟨by simpa using hgid, by simpa using hcm⟩))
    · cases h
  · rintro ⟨a, b, j, ha, hb, hcandidates, hunique, hlt, haddressed, rfl, rfl⟩
    dsimp only at hcandidates haddressed
    have hguard : ¬ (decide (b.linkEnd ≤ a.linkEnd) ||
        !decide ((candidates l j).map Prod.fst = [i]) ||
          (!(e.gid || e.cm) && decide (a.linkLayer ≠ b.linkLayer))) = true := by
      rw [decide_eq_false (not_le_of_gt hlt), decide_eq_true hunique]
      rcases haddressed with hgid | hcm | hlayer
      · simp [hgid]
      · simp [hcm]
      · simp [hlayer]
    rw [hcandidates]
    dsimp only
    rw [ha, hb]
    exact if_neg hguard

/-- No queue pair is collected twice. -/
theorem nodup_qps (h : DistinctRdmaRelations hosts) : ((qps hosts).map Qp.linkEnd).Nodup := by
  refine nodup_collect h fun host snapshot relation qp hqp => ?_
  unfold readQp at hqp
  dsimp only at hqp
  split at hqp
  · cases hqp
  · cases hqp
    rfl

/-- Queue pairs have one end each. -/
theorem eq_of_linkEnd_eq (h : DistinctRdmaRelations hosts) (ha : a ∈ qps hosts) (hb : b ∈ qps hosts)
    (hend : a.linkEnd = b.linkEnd) : a = b :=
  List.inj_on_of_nodup_map (nodup_qps h) ha hb hend

theorem LinkedQps.symm (h : LinkedQps hosts a b) : LinkedQps hosts b a where
  left := h.right
  right := h.left
  compatible := h.compatible.symm
  onlyRight := h.onlyLeft
  onlyLeft := h.onlyRight
  addressed := h.addressed.imp GidPositive.symm (Or.imp CmPositive.symm Eq.symm)

/-- The ends of linked queue pairs, with the evidence. -/
def LinkedEnds (hosts : Hosts) (x y : LinkEnd) (e : RdmaEvidence) : Prop :=
  ∃ a b, LinkedQps hosts a b ∧ a.linkEnd = x ∧ b.linkEnd = y ∧
    (e.gid = true ↔ GidPositive a b) ∧ (e.cm = true ↔ CmPositive a b)

/-- The links before they are sorted. -/
private theorem mem_foundQps (h : DistinctRdmaRelations hosts) {link : RdmaLink} :
    link ∈ (List.range (qps hosts).length).filterMap (rdmaLink (qps hosts)) ↔
      link.a < link.b ∧ LinkedEnds hosts link.a link.b link.evidence := by
  have hnodup : (qps hosts).Nodup := List.Nodup.of_map _ (nodup_qps h)
  rw [List.mem_filterMap]
  constructor
  · rintro ⟨i, -, hlink⟩
    obtain ⟨a, b, j, ha, hb, hcandidates, hunique, hlt, haddressed, hx, hy⟩ :=
      rdmaLink_eq_some.mp hlink
    obtain ⟨⟨_, e⟩, hback, rfl⟩ := List.map_eq_singleton_iff.mp hunique
    obtain ⟨hcompatible, he, honly⟩ := (candidates_eq_singleton hnodup ha hb).mp hcandidates
    obtain ⟨-, -, honly'⟩ := (candidates_eq_singleton hnodup hb ha).mp hback
    obtain ⟨-, hgid, hcm⟩ := evidence_eq_some.mp he
    rw [hx, hy]
    refine ⟨hlt, a, b, ?_, rfl, rfl, hgid, hcm⟩
    exact ⟨List.mem_of_getElem? ha, List.mem_of_getElem? hb, hcompatible, honly, honly',
      haddressed.imp hgid.mp (Or.imp_left hcm.mp)⟩
  · rintro ⟨hlt, a, b, hlinked, hx, hy, hgid, hcm⟩
    obtain ⟨i, ha⟩ := List.mem_iff_getElem?.mp hlinked.left
    obtain ⟨j, hb⟩ := List.mem_iff_getElem?.mp hlinked.right
    have hcompatible := hlinked.compatible
    have he : evidence a b = some link.evidence :=
      evidence_eq_some.mpr ⟨⟨hcompatible.gid, hcompatible.gid', hcompatible.cm⟩, hgid, hcm⟩
    have he' : evidence b a = some link.evidence := (evidence_symm b a).trans he
    have hforth := (candidates_eq_singleton hnodup ha hb).mpr ⟨hcompatible, he, hlinked.onlyRight⟩
    have hback :=
      (candidates_eq_singleton hnodup hb ha).mpr ⟨hcompatible.symm, he', hlinked.onlyLeft⟩
    refine ⟨i, List.mem_range.mpr (List.getElem?_eq_some_iff.mp ha).1, ?_⟩
    refine rdmaLink_eq_some.mpr ⟨a, b, j, ha, hb, hforth, ?_, ?_, ?_, hx.symm, hy.symm⟩
    · rw [hback]
      rfl
    · rw [hx, hy]
      exact hlt
    · exact hlinked.addressed.imp hgid.mpr (Or.imp_left hcm.mpr)

/-- No link is found twice. -/
private theorem nodup_foundQps (h : DistinctRdmaRelations hosts) :
    (((List.range (qps hosts).length).filterMap (rdmaLink (qps hosts))).map RdmaLink.key).Nodup := by
  have hnodup : (qps hosts).Nodup := List.Nodup.of_map _ (nodup_qps h)
  refine List.pairwise_map.mpr (List.pairwise_filterMap.mpr ?_)
  refine List.nodup_range.imp fun {i j} hne link hlink link' hlink' hsame => hne ?_
  obtain ⟨a, -, -, ha, -, -, -, -, -, hx, -⟩ := rdmaLink_eq_some.mp hlink
  obtain ⟨b, -, -, hb, -, -, -, -, -, hy, -⟩ := rdmaLink_eq_some.mp hlink'
  have hends : link.a = link'.a := congrArg (fun k => (ofLex k).1) hsame
  have hab : a = b := eq_of_linkEnd_eq h (List.mem_of_getElem? ha) (List.mem_of_getElem? hb)
    (by rw [← hx, ← hy, hends])
  subst hab
  exact (List.getElem?_inj (List.getElem?_eq_some_iff.mp ha).1 hnodup).mp (ha.trans hb.symm)

/-- An end has at most one partner. -/
theorem linkedEnds_oneToOne (h : DistinctRdmaRelations hosts) :
    OneToOne fun x y => ∃ e, LinkedEnds hosts x y e where
  symm := by
    rintro x y ⟨e, a, b, hlinked, hx, hy, hgid, hcm⟩
    exact ⟨e, b, a, hlinked.symm, hy, hx, hgid.trans ⟨GidPositive.symm, GidPositive.symm⟩,
      hcm.trans ⟨CmPositive.symm, CmPositive.symm⟩⟩
  unique := by
    rintro x y z ⟨-, a, b, hlinked, hx, rfl, -⟩ ⟨-, a', c, hlinked', hx', rfl, -⟩
    have ha : a = a' := eq_of_linkEnd_eq h hlinked.left hlinked'.left (hx.trans hx'.symm)
    subst ha
    rw [hlinked.onlyRight c hlinked'.right hlinked'.compatible]

/-! ## Correctness -/

/-- The port of an endpoint is found in whatever order the ports are. -/
theorem portOf_eq_of_perm {ports ports' : List RdmaPort} (hperm : ports.Perm ports')
    (hdistinct : (ports.map fun p => (p.device, p.port)).Nodup) (endpoint : RdmaEndpoint) :
    portOf ports endpoint = portOf ports' endpoint := by
  refine find?_eq_of_perm hperm fun p hp q hq hmatch hmatch' => ?_
  simp only [Bool.and_eq_true, decide_eq_true_eq] at hmatch hmatch'
  refine List.inj_on_of_nodup_map hdistinct hp hq (Prod.ext ?_ ?_)
  · exact hmatch.1.trans hmatch'.1.symm
  · exact Option.some.inj (hmatch.2.trans hmatch'.2.symm)

/-- Hosts that differ in their order only have the same queue pairs. -/
theorem qps_perm (hports : DistinctPorts hosts)
    (hsame : SameUpToOrder ["rdma_relations", "rdma_ports"] hosts hosts') :
    (qps hosts).Perm (qps hosts') := by
  refine collect_perm hsame List.mem_cons_self fun x hx y hxy hitems relation => ?_
  have hperm := entries_perm RdmaPort.deserialize (hitems "rdma_ports" (by simp))
  unfold readQp
  rw [hxy, portOf_eq_of_perm hperm (hports x hx)]

/-- The links are those of linked queue pairs, each from its smaller end. -/
theorem mem_rdmaLinks (h : DistinctRdmaRelations hosts) {link : RdmaLink} :
    link ∈ rdmaLinks hosts ↔ link.a < link.b ∧ LinkedEnds hosts link.a link.b link.evidence := by
  unfold rdmaLinks
  rw [mem_sortByKey, mem_foundQps h]

/-- The links are in ascending order, and each occurs once. -/
theorem rdmaLinks_ascending (h : DistinctRdmaRelations hosts) :
    (rdmaLinks hosts).Pairwise fun x y => x.key < y.key :=
  sortByKey_ascending (nodup_foundQps h)

/-- The links do not depend on the order of the hosts, of their relations and of their ports. -/
theorem rdmaLinks_eq (h : DistinctRdmaRelations hosts) (hports : DistinctPorts hosts)
    (hsame : SameUpToOrder ["rdma_relations", "rdma_ports"] hosts hosts') :
    rdmaLinks hosts' = rdmaLinks hosts := by
  have h' : DistinctRdmaRelations hosts' := h.of_sameUpToOrder List.mem_cons_self hsame
  have hmem : ∀ qp, qp ∈ qps hosts' ↔ qp ∈ qps hosts := fun qp => (qps_perm hports hsame).mem_iff.symm
  have hlinked : ∀ a b, LinkedQps hosts' a b ↔ LinkedQps hosts a b := by
    intro a b
    constructor
    · rintro ⟨ha, hb, hcompatible, honly, honly', haddressed⟩
      exact ⟨(hmem a).mp ha, (hmem b).mp hb, hcompatible, fun c hc => honly c ((hmem c).mpr hc),
        fun c hc => honly' c ((hmem c).mpr hc), haddressed⟩
    · rintro ⟨ha, hb, hcompatible, honly, honly', haddressed⟩
      exact ⟨(hmem a).mpr ha, (hmem b).mpr hb, hcompatible, fun c hc => honly c ((hmem c).mp hc),
        fun c hc => honly' c ((hmem c).mp hc), haddressed⟩
  refine eq_of_ascending (rdmaLinks_ascending h') (rdmaLinks_ascending h) fun link => ?_
  rw [mem_rdmaLinks h, mem_rdmaLinks h']
  unfold LinkedEnds
  simp only [hlinked]

/-- The RDMA links are exactly the pairs of linked queue pairs, in order and each once, with evidence
that is the same from both ends; no queue pair occurs in two of them, and they do not depend on the
order of the hosts, of their relations and of their ports. -/
theorem rdmaLinks_correct (h : DistinctRdmaRelations hosts) :
    (∀ link, link ∈ rdmaLinks hosts ↔
        link.a < link.b ∧ LinkedEnds hosts link.a link.b link.evidence) ∧
      (∀ a b, evidence a b = evidence b a) ∧
      ((rdmaLinks hosts).Pairwise fun x y => x.key < y.key) ∧
      (∀ x ∈ rdmaLinks hosts, ∀ y ∈ rdmaLinks hosts,
        (x.a = y.a ∨ x.a = y.b ∨ x.b = y.a ∨ x.b = y.b) → x = y) ∧
      ∀ hosts', DistinctPorts hosts →
        SameUpToOrder ["rdma_relations", "rdma_ports"] hosts hosts' →
          rdmaLinks hosts' = rdmaLinks hosts := by
  refine ⟨fun link => mem_rdmaLinks h, evidence_symm, rdmaLinks_ascending h, ?_,
    fun hosts' hports hsame => rdmaLinks_eq h hports hsame⟩
  intro x hx y hy hshared
  obtain ⟨hlt, hlinked⟩ := (mem_rdmaLinks h).mp hx
  obtain ⟨hlt', hlinked'⟩ := (mem_rdmaLinks h).mp hy
  obtain ⟨ha, hb⟩ := (linkedEnds_oneToOne h).eq_of_shared ⟨_, hlinked⟩ ⟨_, hlinked'⟩ hlt hlt' hshared
  -- links have distinct pairs of ends
  have hkeys : ((rdmaLinks hosts).map RdmaLink.key).Nodup :=
    List.pairwise_map.mpr ((rdmaLinks_ascending h).imp fun hlt => hlt.ne)
  exact List.inj_on_of_nodup_map hkeys hx hy (congrArg toLex (Prod.ext ha hb))

/-- A queue pair of the first port of a device. -/
def qpRelation (id : String) (qpn remoteQpn : ℤ) (remoteGid : Json) : Json :=
  .object [("cm", .null), ("endpoint", .object [("device", .string "ib0"), ("port", .int 1),
    ("qp_type", .object [("kind", .string "rc")]), ("qpn", .int qpn)]), ("id", .string id),
    ("peer", .null), ("remote_gid", remoteGid), ("remote_qpn", .int remoteQpn)]

/-- A host with one port. -/
def rdmaHost (name gid : String) (relations : List Json) : String × Json :=
  (name, .object [("rdma_ports", .array [.object [("device", .string "ib0"), ("gid", .string gid),
    ("link_layer", .string "InfiniBand"), ("port", .int 1)]]), ("rdma_relations", .array relations)])

/-- A pair with swapped numbers whose GIDs agree, and one whose partner is ambiguous. -/
def rdmaHosts : Hosts :=
  [rdmaHost "a" "fe80::a" [qpRelation "qa" 10 20 (.string "fe80::b"), qpRelation "ra" 11 21 .null],
    rdmaHost "b" "fe80::b" [qpRelation "qb" 20 10 (.string "fe80::a"), qpRelation "rb" 21 11 .null],
    rdmaHost "c" "fe80::c" [qpRelation "rc" 21 11 .null]]

private theorem rdmaHosts_distinct : DistinctRdmaRelations rdmaHosts where
  names := by decide
  ids := by decide +kernel

/-- Only the first pair is linked. -/
theorem rdmaLinks_rdmaHosts :
    rdmaLinks rdmaHosts = [⟨⟨"a", "qa"⟩, ⟨"b", "qb"⟩, ⟨true, false⟩⟩] ∧
      ∀ link, link ∈ rdmaLinks rdmaHosts ↔
        link.a < link.b ∧ LinkedEnds rdmaHosts link.a link.b link.evidence :=
  ⟨by decide +kernel, (rdmaLinks_correct rdmaHosts_distinct).1⟩

end Procinsh.Correlation
