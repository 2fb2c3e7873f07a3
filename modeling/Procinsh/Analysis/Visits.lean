import Procinsh.Analysis.Relations
import Procinsh.Foundation.Deduplication

/-!
# The run over the endpoints

The loops of the analysis visit the endpoints of all resources in turn.  `Visit.relations` is what a
visit finds without regard to limits and earlier visits; a run keeps the first relation of each id
of what its visits find.  `Visited` says what a part of a run does, and is composed along the loops:
unless something was left out, every endpoint is visited and all that it finds is considered.
-/

namespace Procinsh.Analysis

open Ipc

/-! ## Visits -/

/-- An endpoint with its place among the owners of a resource. -/
structure Visit where
  resource : IpcIdentity
  endpoints : List FdEndpoint
  index : ℕ
  endpoint : FdEndpoint

/-- The visits to the owners of a resource. -/
def visits (owner : IpcIdentity × List FdEndpoint) : List Visit :=
  owner.2.zipIdx.map fun (endpoint, index) => ⟨owner.1, owner.2, index, endpoint⟩

/-- A relation with a peer is known by its id. -/
def relationKey (relation : FdRelation) : Option String :=
  if relation.peer.isSome then some relation.id else none

section Found

variable (observations : Observations) (reverse : OrderedMap Tuple (List UInt64)) (v : Visit)

/-- The attributes of the visited socket. -/
def Visit.info : Option SocketInfo := socketInfo observations v.resource v.endpoint

/-- The peers of the visited endpoint. -/
def Visit.found : List Match :=
  endpointMatches observations reverse v.resource v.endpoints v.index v.endpoint

/-- The external relation of the visited endpoint, if it gets one. -/
def Visit.external : List FdRelation :=
  if hasExternal (v.info observations) (v.found observations reverse) then
    [externalRelation (v.info observations) v.endpoint]
  else []

/-- The relations of the visited endpoint with its first peers. -/
def Visit.relationsWithin (n : ℕ) : List FdRelation :=
  v.external observations reverse ++ ((sortMatches (v.found observations reverse)).take n).map
    (joinedRelation (v.info observations) v.endpoint)

/-- The relations of the visited endpoint. -/
def Visit.relations : List FdRelation :=
  v.external observations reverse ++ (sortMatches (v.found observations reverse)).map
    (joinedRelation (v.info observations) v.endpoint)

end Found

variable {limits limits' : Limits} {observations : Observations}
  {reverse : OrderedMap Tuple (List UInt64)}

theorem length_sortMatches (found : List Match) : (sortMatches found).length = found.length := by
  rw [sortMatches, List.length_append, ← List.countP_eq_length_filter,
    ← List.countP_eq_length_filter, List.length_eq_countP_add_countP (fun m => m.shared), add_comm]
  simp

theorem mem_sortMatches {found : List Match} {m : Match} : m ∈ sortMatches found ↔ m ∈ found := by
  rw [sortMatches, List.mem_append, List.mem_filter, List.mem_filter]
  cases m.shared with
  | false => simp
  | true => simp

/-- A visit whose peers are within the limit finds all its relations. -/
theorem Visit.relationsWithin_eq {v : Visit} {n : ℕ}
    (h : (v.found observations reverse).length ≤ n) :
    v.relationsWithin observations reverse n = v.relations observations reverse := by
  rw [Visit.relationsWithin, List.take_of_length_le ((length_sortMatches _).trans_le h)]
  rfl

/-- What is within the limit is a part of what is found. -/
theorem Visit.relationsWithin_sublist (v : Visit) (n : ℕ) :
    (v.relationsWithin observations reverse n).Sublist (v.relations observations reverse) :=
  (List.Sublist.refl _).append ((List.take_sublist n _).map _)

/-! ## One visit -/

/-- The relations and the ids that were seen. -/
def Progress.kept (progress : Progress) : List FdRelation × List String :=
  (progress.relations, progress.seen)

theorem kept_addJoined {relation : FdRelation}
    (h : relation.peer.isSome = true) (progress : Progress) :
    (addJoined progress relation).kept = push relationKey progress.kept relation ∧
      (addJoined progress relation).truncated = progress.truncated := by
  have hkey : relationKey relation = some relation.id := if_pos h
  unfold addJoined push
  rw [hkey]
  by_cases hseen : relation.id ∈ progress.seen
  · rw [if_pos hseen]
    exact ⟨(if_pos hseen).symm, rfl⟩
  · rw [if_neg hseen]
    exact ⟨(if_neg hseen).symm, rfl⟩

theorem kept_foldl_addJoined {relations : List FdRelation}
    (h : ∀ r ∈ relations, r.peer.isSome = true) (progress : Progress) :
    (relations.foldl addJoined progress).kept = pushAll relationKey progress.kept relations ∧
      (relations.foldl addJoined progress).truncated = progress.truncated := by
  induction relations generalizing progress with
  | nil => exact ⟨rfl, rfl⟩
  | cons r relations ih =>
    obtain ⟨hr, hrelations⟩ := List.forall_mem_cons.mp h
    obtain ⟨hkept, htruncated⟩ := kept_addJoined hr progress
    obtain ⟨hkept', htruncated'⟩ := ih hrelations (addJoined progress r)
    rw [List.foldl_cons, hkept', htruncated', hkept, htruncated]
    exact ⟨rfl, rfl⟩

variable (limits observations reverse) in
/-- What a visit does: it considers the relations with the first peers, and there may be more. -/
theorem relateEndpoint_spec (v : Visit) (progress : Progress) :
    let next := relateEndpoint limits observations reverse v.resource v.endpoints v.index v.endpoint
      progress
    next.kept = pushAll relationKey progress.kept
        (v.relationsWithin observations reverse limits.matchesPerEndpoint) ∧
      next.truncated = (progress.truncated ||
        decide (limits.matchesPerEndpoint < (v.found observations reverse).length)) := by
  intro next
  have hjoined : ∀ r ∈ ((sortMatches (v.found observations reverse)).take
      limits.matchesPerEndpoint).map (joinedRelation (v.info observations) v.endpoint),
      r.peer.isSome = true := by
    intro r hr
    obtain ⟨m, -, rfl⟩ := List.mem_map.mp hr
    rfl
  obtain ⟨hkept, htruncated⟩ := kept_foldl_addJoined hjoined
    (if limits.matchesPerEndpoint < (v.found observations reverse).length then
      { (if hasExternal (v.info observations) (v.found observations reverse) then
          { progress with relations :=
              progress.relations ++ [externalRelation (v.info observations) v.endpoint] }
        else progress) with truncated := true }
    else (if hasExternal (v.info observations) (v.found observations reverse) then
          { progress with relations :=
              progress.relations ++ [externalRelation (v.info observations) v.endpoint] }
        else progress))
  constructor
  · refine hkept.trans ?_
    rw [Visit.relationsWithin, pushAll_append]
    congr 1
    rw [Visit.external]
    by_cases hexternal : hasExternal (v.info observations) (v.found observations reverse) = true
    · rw [if_pos hexternal, if_pos hexternal]
      split
      · rfl
      · rfl
    · rw [if_neg hexternal, if_neg hexternal]
      split
      · rfl
      · rfl
  · refine htruncated.trans ?_
    split
    · next hmore => simp [hmore]
    · next hmore =>
      rw [decide_eq_false hmore, Bool.or_false]
      split
      · rfl
      · rfl

/-! ## Runs -/

/-- What a part of a run does that is to make the visits: it makes some of them, and if it starts
below the limit and leaves nothing out, it makes all of them and considers all that they find. -/
def Visited (limits : Limits) (observations : Observations)
    (reverse : OrderedMap Tuple (List UInt64)) (todo : List Visit) (before after : Progress) : Prop :=
  ∃ made : List Visit, made.Sublist todo ∧
    after.kept = pushAll relationKey before.kept
      (made.flatMap fun v => v.relationsWithin observations reverse limits.matchesPerEndpoint) ∧
    (before.relations.length < limits.relations → after.truncated = false →
      before.truncated = false ∧ made = todo ∧ after.relations.length < limits.relations ∧
      ∀ v ∈ todo, (v.found observations reverse).length ≤ limits.matchesPerEndpoint)

theorem visited_nil (progress : Progress) :
    Visited limits observations reverse [] progress progress :=
  ⟨[], List.Sublist.refl _, rfl, fun hlt htruncated => ⟨htruncated, rfl, hlt, nofun⟩⟩

/-- Parts of a run that follow each other, when the limit is not reached in between. -/
theorem Visited.trans {todo todo' : List Visit} {before between after : Progress}
    (h : Visited limits observations reverse todo before between)
    (hbetween : between.relations.length < limits.relations)
    (h' : Visited limits observations reverse todo' between after) :
    Visited limits observations reverse (todo ++ todo') before after := by
  obtain ⟨made, hsublist, hkept, hcomplete⟩ := h
  obtain ⟨made', hsublist', hkept', hcomplete'⟩ := h'
  refine ⟨made ++ made', hsublist.append hsublist', ?_, fun hlt htruncated => ?_⟩
  · rw [hkept', hkept, List.flatMap_append, pushAll_append]
  · obtain ⟨htruncated', rfl, hlt', hfound'⟩ := hcomplete' hbetween htruncated
    obtain ⟨hfalse, rfl, -, hfound⟩ := hcomplete hlt htruncated'
    refine ⟨hfalse, rfl, hlt', fun v hv => ?_⟩
    exact (List.mem_append.mp hv).elim (hfound v) (hfound' v)

/-- A run that ends early, because something was left out or the limit is reached. -/
theorem Visited.stop {todo : List Visit} {before after : Progress}
    (h : Visited limits observations reverse todo before after)
    (hstop : after.truncated = true ∨ limits.relations ≤ after.relations.length)
    (todo' : List Visit) :
    Visited limits observations reverse (todo ++ todo') before after := by
  obtain ⟨made, hsublist, hkept, hcomplete⟩ := h
  refine ⟨made, hsublist.trans (List.sublist_append_left _ _), hkept, fun hlt htruncated => ?_⟩
  obtain ⟨-, -, hlt', -⟩ := hcomplete hlt htruncated
  rcases hstop with htrue | hle
  · rw [htrue] at htruncated
    cases htruncated
  · exact absurd hle (not_le_of_gt hlt')

variable (limits observations reverse) in
/-- A visit that stays below the limit. -/
theorem visited_relateEndpoint (v : Visit) (progress : Progress)
    (hlt : (relateEndpoint limits observations reverse v.resource v.endpoints v.index v.endpoint
      progress).relations.length < limits.relations) :
    Visited limits observations reverse [v] progress
      (relateEndpoint limits observations reverse v.resource v.endpoints v.index v.endpoint
        progress) := by
  obtain ⟨hkept, htruncated⟩ := relateEndpoint_spec limits observations reverse v progress
  refine ⟨[v], List.Sublist.refl _, ?_, fun _ hfalse => ?_⟩
  · rw [hkept, List.flatMap_singleton]
  · rw [htruncated, Bool.or_eq_false_iff, decide_eq_false_iff_not, not_lt] at hfalse
    refine ⟨hfalse.1, rfl, hlt, fun w hw => ?_⟩
    rw [List.mem_singleton.mp hw]
    exact hfalse.2

variable (limits observations reverse) in
/-- A visit that reaches the limit. -/
theorem visited_relateEndpoint_truncated (v : Visit) (progress : Progress) :
    Visited limits observations reverse [v] progress
      { relateEndpoint limits observations reverse v.resource v.endpoints v.index v.endpoint
          progress with truncated := true } := by
  refine ⟨[v], List.Sublist.refl _, ?_, fun _ hfalse => by cases hfalse⟩
  rw [List.flatMap_singleton]
  exact (relateEndpoint_spec limits observations reverse v progress).1

variable (limits observations reverse) in
/-- The loop over owners of a resource. -/
theorem visited_relateEndpoints (resource : IpcIdentity) (endpoints : List FdEndpoint)
    (todo : List (FdEndpoint × ℕ)) (progress : Progress) :
    Visited limits observations reverse
      (todo.map fun (endpoint, index) => ⟨resource, endpoints, index, endpoint⟩) progress
      (relateEndpoints limits observations reverse resource endpoints todo progress) := by
  induction todo generalizing progress with
  | nil => exact visited_nil progress
  | cons e todo ih =>
    obtain ⟨endpoint, index⟩ := e
    rw [relateEndpoints]
    split
    · have hvisit := visited_relateEndpoint_truncated limits observations reverse
        ⟨resource, endpoints, index, endpoint⟩ progress
      exact hvisit.stop (.inl rfl) _
    · next hlt =>
      have hvisit := visited_relateEndpoint limits observations reverse
        ⟨resource, endpoints, index, endpoint⟩ progress (not_le.mp hlt)
      exact hvisit.trans (not_le.mp hlt) (ih _)

variable (limits observations reverse) in
/-- The loop over the resources. -/
theorem visited_relateOwners (owners : List (IpcIdentity × List FdEndpoint)) (progress : Progress) :
    Visited limits observations reverse (owners.flatMap visits) progress
      (relateOwners limits observations reverse owners progress) := by
  induction owners generalizing progress with
  | nil => exact visited_nil progress
  | cons owner owners ih =>
    obtain ⟨resource, endpoints⟩ := owner
    have hvisits := visited_relateEndpoints limits observations reverse resource endpoints endpoints.zipIdx progress
    rw [relateOwners, List.flatMap_cons]
    split
    · next hle => exact hvisits.stop (.inr hle) _
    · next hlt => exact hvisits.trans (not_le.mp hlt) (ih _)

/-! ## Larger limits -/

/-- Limits that allow at least as much. -/
def Limits.AtLeast (limits' limits : Limits) : Prop :=
  limits.matchesPerEndpoint ≤ limits'.matchesPerEndpoint ∧ limits.relations ≤ limits'.relations

/-- A visit that leaves nothing out does the same with larger limits. -/
theorem relateEndpoint_of_atLeast (hlimits : limits'.AtLeast limits) (v : Visit)
    (progress : Progress) (h : (relateEndpoint limits observations reverse v.resource v.endpoints
      v.index v.endpoint progress).truncated = false) :
    relateEndpoint limits' observations reverse v.resource v.endpoints v.index v.endpoint progress =
      relateEndpoint limits observations reverse v.resource v.endpoints v.index v.endpoint
        progress := by
  obtain ⟨-, htruncated⟩ := relateEndpoint_spec limits observations reverse v progress
  rw [h, eq_comm, Bool.or_eq_false_iff, decide_eq_false_iff_not, not_lt] at htruncated
  have hfound := htruncated.2
  have hfound' := hfound.trans hlimits.1
  unfold Visit.found at hfound hfound'
  unfold relateEndpoint
  dsimp only
  rw [if_neg (not_lt_of_ge hfound), if_neg (not_lt_of_ge hfound'),
    List.take_of_length_le ((length_sortMatches _).trans_le hfound),
    List.take_of_length_le ((length_sortMatches _).trans_le hfound')]

theorem relateEndpoints_of_atLeast (hlimits : limits'.AtLeast limits) (resource : IpcIdentity)
    (endpoints : List FdEndpoint) (todo : List (FdEndpoint × ℕ)) (progress : Progress)
    (h : (relateEndpoints limits observations reverse resource endpoints todo
      progress).truncated = false) :
    relateEndpoints limits' observations reverse resource endpoints todo progress =
      relateEndpoints limits observations reverse resource endpoints todo progress := by
  induction todo generalizing progress with
  | nil => rfl
  | cons e todo ih =>
    obtain ⟨endpoint, index⟩ := e
    rw [relateEndpoints] at h
    split at h
    · cases h
    · next hle =>
      have hlt := not_le.mp hle
      obtain ⟨_, _, _, hcomplete⟩ := visited_relateEndpoints limits observations reverse
        resource endpoints todo
        (relateEndpoint limits observations reverse resource endpoints index endpoint progress)
      have hvisit := relateEndpoint_of_atLeast hlimits ⟨resource, endpoints, index, endpoint⟩
        progress (hcomplete hlt h).1
      rw [relateEndpoints, relateEndpoints, hvisit, if_neg hle,
        if_neg (not_le_of_gt (hlt.trans_le hlimits.2))]
      exact ih _ h

/-- A run that leaves nothing out does the same with larger limits. -/
theorem relateOwners_of_atLeast (hlimits : limits'.AtLeast limits)
    (owners : List (IpcIdentity × List FdEndpoint)) (progress : Progress)
    (hstart : progress.relations.length < limits.relations)
    (h : (relateOwners limits observations reverse owners progress).truncated = false) :
    relateOwners limits' observations reverse owners progress =
      relateOwners limits observations reverse owners progress := by
  induction owners generalizing progress with
  | nil => rfl
  | cons owner owners ih =>
    obtain ⟨resource, endpoints⟩ := owner
    obtain ⟨_, _, _, hvisits⟩ := visited_relateEndpoints limits observations reverse
      resource endpoints endpoints.zipIdx progress
    rw [relateOwners] at h
    split at h
    · next hle => exact absurd hle (not_le_of_gt (hvisits hstart h).2.2.1)
    · next hle =>
      have hlt := not_le.mp hle
      obtain ⟨_, _, _, hcomplete⟩ := visited_relateOwners limits observations reverse owners
        (relateEndpoints limits observations reverse resource endpoints endpoints.zipIdx progress)
      have hsame := relateEndpoints_of_atLeast hlimits resource endpoints endpoints.zipIdx progress
        (hcomplete hlt h).1
      rw [relateOwners, relateOwners, hsame, if_neg hle,
        if_neg (not_le_of_gt (hlt.trans_le hlimits.2))]
      exact ih _ hlt h

end Procinsh.Analysis
