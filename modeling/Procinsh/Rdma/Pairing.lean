import Mathlib.Data.String.Basic
import Procinsh.Rdma.Partners

/-!
# The relations partition the queue pairs

Every queue pair is in one relation: in the one with its peer, or in one of its own.  The loop emits
the relation of a pair at whichever of its ends comes first, and both ends have the same relation; so
what is emitted does not depend on the order of the queue pairs.
-/

namespace Procinsh.Rdma

open Ipc

/-! ## The relation of an endpoint -/

/-- What can be a relation: a queue pair without a peer, or two that are paired, the one with the
smaller identifier first. -/
inductive IsRelation (context : RdmaContext) (endpoints : List Endpoint) : RdmaRelation → Prop
  | single (a : Endpoint) (ha : a ∈ endpoints) (hnone : ∀ b, ¬ Paired context endpoints a b) :
      IsRelation context endpoints (buildRelation context a none)
  | pair (a b : Endpoint) (hab : Paired context endpoints a b) (hlt : a.id < b.id) :
      IsRelation context endpoints (buildRelation context a (some b))

section Loop

variable {context : RdmaContext} {endpoints : List Endpoint}

/-- The relation of an endpoint. -/
def relationAt (context : RdmaContext) (endpoints : List Endpoint) (i : Fin endpoints.length) :
    RdmaRelation :=
  buildRelation context (endpoints.get (ends context endpoints i).1)
    ((ends context endpoints i).2.map endpoints.get)

theorem id_ne (hids : (endpoints.map Endpoint.id).Nodup) {i j : Fin endpoints.length} (h : i ≠ j) :
    (endpoints.get i).id ≠ (endpoints.get j).id := fun heq =>
  h ((get_inj hids).mp (List.inj_on_of_nodup_map hids (List.get_mem endpoints i)
    (List.get_mem endpoints j) heq))

/-- Both ends of a pair have its ends, the one with the smaller identifier first. -/
theorem ends_of_paired (hids : (endpoints.map Endpoint.id).Nodup) {i j : Fin endpoints.length}
    (h : Paired context endpoints (endpoints.get i) (endpoints.get j))
    (hlt : (endpoints.get i).id < (endpoints.get j).id) :
    ends context endpoints i = (i, some j) ∧ ends context endpoints j = (i, some j) := by
  unfold ends
  rw [(mutualPeer_eq_some_iff hids).mpr h, (mutualPeer_eq_some_iff hids).mpr h.symm]
  exact ⟨if_neg (lt_asymm hlt), if_pos hlt⟩

theorem ends_cases (context : RdmaContext) (hids : (endpoints.map Endpoint.id).Nodup)
    (i : Fin endpoints.length) :
    (mutualPeer context endpoints i = none ∧ ends context endpoints i = (i, none)) ∨
      ∃ f s, Paired context endpoints (endpoints.get f) (endpoints.get s) ∧
        (endpoints.get f).id < (endpoints.get s).id ∧ (i = f ∨ i = s) ∧
          ends context endpoints i = (f, some s) := by
  cases hpeer : mutualPeer context endpoints i with
  | none =>
    unfold ends
    rw [hpeer]
    exact .inl ⟨rfl, rfl⟩
  | some j =>
    have hpaired := (mutualPeer_eq_some_iff hids).mp hpeer
    have hne : i ≠ j := by
      rintro rfl
      exact hpaired.1.2.1.ne rfl
    rcases lt_or_gt_of_ne (id_ne hids hne) with hlt | hlt
    · exact .inr ⟨i, j, hpaired, hlt, .inl rfl, (ends_of_paired hids hpaired hlt).1⟩
    · exact .inr ⟨j, i, hpaired.symm, hlt, .inr rfl, (ends_of_paired hids hpaired.symm hlt).2⟩

theorem isRelation_relationAt (hids : (endpoints.map Endpoint.id).Nodup)
    (i : Fin endpoints.length) : IsRelation context endpoints (relationAt context endpoints i) := by
  unfold relationAt
  rcases ends_cases context hids i with ⟨hnone, hends⟩ | ⟨f, s, hpaired, hlt, -, hends⟩
  · rw [hends]
    refine .single _ (List.get_mem endpoints i) fun b hb => ?_
    obtain ⟨k, rfl⟩ := List.mem_iff_get.mp hb.1.1
    rw [(mutualPeer_eq_some_iff hids).mpr hb] at hnone
    cases hnone
  · rw [hends]
    exact .pair _ _ hpaired hlt

/-- Every relation is the relation of an endpoint. -/
theorem IsRelation.exists_relationAt (hids : (endpoints.map Endpoint.id).Nodup) {r : RdmaRelation}
    (h : IsRelation context endpoints r) : ∃ i, relationAt context endpoints i = r := by
  cases h with
  | single a ha hnone =>
    obtain ⟨i, rfl⟩ := List.mem_iff_get.mp ha
    refine ⟨i, ?_⟩
    rcases ends_cases context hids i with ⟨-, hends⟩ | ⟨f, s, hpaired, -, rfl | rfl, -⟩
    · rw [relationAt, hends]
      rfl
    · exact absurd hpaired (hnone _)
    · exact absurd hpaired.symm (hnone _)
  | pair a b hab hlt =>
    obtain ⟨i, rfl⟩ := List.mem_iff_get.mp hab.2.1
    obtain ⟨j, rfl⟩ := List.mem_iff_get.mp hab.1.1
    refine ⟨i, ?_⟩
    rw [relationAt, (ends_of_paired hids hab hlt).1]
    rfl

/-! ## The loop -/

/-- The identifier of the endpoint of a relation. -/
def firstId (r : RdmaRelation) : String :=
  endpointId r.endpoint.device r.endpoint.port r.endpoint.qpn

/-- What has been emitted when the relations of some endpoints have been. -/
structure Emitted (context : RdmaContext) (endpoints : List Endpoint)
    (done : List (Fin endpoints.length))
    (state : Finset (Fin endpoints.length) × List RdmaRelation) : Prop where
  mem_iff : ∀ i, i ∈ state.1 ↔ i ∈ done ∨ ∃ j ∈ done, mutualPeer context endpoints j = some i
  relations : ∀ r, r ∈ state.2 ↔ ∃ i ∈ done, relationAt context endpoints i = r
  nodup : (state.2.map firstId).Nodup

/-- An endpoint is emitted with its peer. -/
theorem mem_emitted_iff (hids : (endpoints.map Endpoint.id).Nodup)
    {emitted : Finset (Fin endpoints.length)} {i j : Fin endpoints.length} :
    (j ∈ match (ends context endpoints i).2 with
      | some s => insert s (insert (ends context endpoints i).1 emitted)
      | none => insert (ends context endpoints i).1 emitted) ↔
      j ∈ emitted ∨ j = i ∨ mutualPeer context endpoints i = some j := by
  rcases ends_cases context hids i with ⟨hnone, hends⟩ | ⟨f, s, hpaired, -, rfl | rfl, hends⟩
  · rw [hends, hnone]
    simp [or_comm]
  · rw [hends, (mutualPeer_eq_some_iff hids).mpr hpaired]
    simp only [Finset.mem_insert, Option.some_inj, eq_comm (a := j)]
    tauto
  · rw [hends, (mutualPeer_eq_some_iff hids).mpr hpaired.symm]
    simp only [Finset.mem_insert, Option.some_inj, eq_comm (a := j)]
    tauto

theorem mutualPeer_symm (hids : (endpoints.map Endpoint.id).Nodup) {i j : Fin endpoints.length}
    (h : mutualPeer context endpoints i = some j) : mutualPeer context endpoints j = some i :=
  (mutualPeer_eq_some_iff hids).mpr ((mutualPeer_eq_some_iff hids).mp h).symm

theorem relationAt_eq_of_mutualPeer (hids : (endpoints.map Endpoint.id).Nodup)
    {i j : Fin endpoints.length} (h : mutualPeer context endpoints i = some j) :
    relationAt context endpoints i = relationAt context endpoints j := by
  have hpaired := (mutualPeer_eq_some_iff hids).mp h
  have hne : i ≠ j := by
    rintro rfl
    exact hpaired.1.2.1.ne rfl
  unfold relationAt
  rcases lt_or_gt_of_ne (id_ne hids hne) with hlt | hlt
  · obtain ⟨hi, hj⟩ := ends_of_paired hids hpaired hlt
    rw [hi, hj]
  · obtain ⟨hj, hi⟩ := ends_of_paired hids hpaired.symm hlt
    rw [hi, hj]

/-- The endpoint of a relation. -/
theorem firstId_relationAt (context : RdmaContext) (hids : (endpoints.map Endpoint.id).Nodup)
    (i : Fin endpoints.length) : ∃ f, firstId (relationAt context endpoints i) =
      (endpoints.get f).id ∧ (f = i ∨ mutualPeer context endpoints i = some f) := by
  refine ⟨(ends context endpoints i).1, rfl, ?_⟩
  rcases ends_cases context hids i with ⟨-, hends⟩ | ⟨f, s, hpaired, -, rfl | rfl, hends⟩
  · rw [hends]
    exact .inl rfl
  · rw [hends]
    exact .inl rfl
  · rw [hends]
    exact .inr ((mutualPeer_eq_some_iff hids).mpr hpaired.symm)

/-- An endpoint is skipped if its relation has been emitted, otherwise its relation is new. -/
theorem Emitted.step (hids : (endpoints.map Endpoint.id).Nodup)
    {done : List (Fin endpoints.length)} {i : Fin endpoints.length}
    {state : Finset (Fin endpoints.length) × List RdmaRelation}
    (h : Emitted context endpoints done state) (hi : i ∉ done) :
    Emitted context endpoints (done ++ [i]) (emitRelation context endpoints state i) := by
  have hdone (P : Fin endpoints.length → Prop) :
      (∃ j ∈ done ++ [i], P j) ↔ (∃ j ∈ done, P j) ∨ P i := by
    simp only [List.mem_append, List.mem_singleton, or_and_right, exists_or, exists_eq_left]
  rw [emitRelation]
  split
  · next hin =>
    obtain ⟨j, hj, hpeer⟩ := ((h.mem_iff i).mp hin).resolve_left hi
    refine ⟨fun k => ?_, fun r => ?_, h.nodup⟩
    · rw [h.mem_iff, hdone, List.mem_append, List.mem_singleton]
      constructor
      · exact Or.imp .inl .inl
      · rintro ((hk | rfl) | hk | hk)
        · exact .inl hk
        · exact .inr ⟨j, hj, hpeer⟩
        · exact .inr hk
        · obtain rfl := Option.some.inj ((mutualPeer_symm hids hpeer).symm.trans hk)
          exact .inl hj
    · rw [h.relations, hdone]
      refine ⟨.inl, fun hr => hr.elim id fun hr => ⟨j, hj, ?_⟩⟩
      rw [relationAt_eq_of_mutualPeer hids hpeer, hr]
  · next hnot =>
    refine ⟨fun k => ?_, fun r => ?_, ?_⟩
    · refine (mem_emitted_iff hids).trans ?_
      rw [h.mem_iff, hdone, List.mem_append, List.mem_singleton]
      exact or_or_or_comm
    · rw [hdone, List.mem_append, h.relations, List.mem_singleton]
      exact or_congr_right eq_comm
    · rw [List.map_append]
      refine List.nodup_append.mpr ⟨h.nodup, List.nodup_singleton _, ?_⟩
      rintro x hx y hy rfl
      obtain ⟨r, hr, hfirst⟩ := List.mem_map.mp hx
      obtain ⟨j, hj, rfl⟩ := (h.relations r).mp hr
      have hfirst' := hfirst.trans (List.mem_singleton.mp hy)
      obtain ⟨f, hf, hfj⟩ := firstId_relationAt context hids j
      obtain ⟨g, hg, hgi⟩ := firstId_relationAt context hids i
      obtain rfl : f = g := by
        by_contra hne
        exact id_ne hids hne (hf.symm.trans (hfirst'.trans hg))
      -- The two relations would share an endpoint, so that this one would have been emitted.
      refine hnot ((h.mem_iff i).mpr ?_)
      rcases hfj with rfl | hfj
      · rcases hgi with rfl | hgi
        · exact absurd hj hi
        · exact .inr ⟨f, hj, mutualPeer_symm hids hgi⟩
      · rcases hgi with rfl | hgi
        · exact .inr ⟨j, hj, hfj⟩
        · obtain rfl := Option.some.inj ((mutualPeer_symm hids hfj).symm.trans
            (mutualPeer_symm hids hgi))
          exact absurd hj hi

theorem Emitted.run (hids : (endpoints.map Endpoint.id).Nodup)
    {done rest : List (Fin endpoints.length)} (hnodup : (done ++ rest).Nodup)
    {state : Finset (Fin endpoints.length) × List RdmaRelation}
    (h : Emitted context endpoints done state) :
    Emitted context endpoints (done ++ rest)
      (rest.foldl (emitRelation context endpoints) state) := by
  induction rest generalizing done state with
  | nil => rwa [List.append_nil]
  | cons i rest ih =>
    have hi : i ∉ done := fun hmem =>
      List.disjoint_of_nodup_append hnodup hmem List.mem_cons_self
    rw [List.append_cons] at hnodup ⊢
    exact ih hnodup (h.step hids hi)

end Loop

/-- The relations, as far as they are a set of relations with different endpoints. -/
theorem mem_buildRdmaRelations_iff {context : RdmaContext} {resources : NldevResources}
    {endpoints : List Endpoint}
    (hendpoints : resources.queuePairs.map (endpointOf context resources.cmIds) = endpoints)
    (hids : (endpoints.map Endpoint.id).Nodup) :
    ((buildRdmaRelations context resources).map firstId).Nodup ∧
      ∀ r, r ∈ buildRdmaRelations context resources ↔ IsRelation context endpoints r := by
  subst hendpoints
  have hempty : Emitted context (resources.queuePairs.map (endpointOf context resources.cmIds)) []
      (∅, []) := ⟨fun i => by simp, fun r => by simp, List.nodup_nil⟩
  have hrun := hempty.run hids (List.nodup_finRange _)
  refine ⟨hrun.nodup, fun r => (hrun.relations r).trans ⟨?_, fun hr => ?_⟩⟩
  · rintro ⟨i, -, rfl⟩
    exact isRelation_relationAt hids i
  · obtain ⟨i, hi⟩ := hr.exists_relationAt hids
    exact ⟨i, List.mem_finRange i, hi⟩

end Procinsh.Rdma
