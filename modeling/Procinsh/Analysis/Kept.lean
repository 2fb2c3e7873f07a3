import Mathlib.Data.Sym.Sym2
import Procinsh.Analysis.Matches
import Procinsh.Analysis.Visits
import Procinsh.Foundation.Json
import Procinsh.Foundation.Lists

/-!
# The relations that are kept

The id of a relation determines the pair of its ends, and no external relation has the id of another
relation.  What a run keeps is a part of what its visits find, with the first relation of each id;
the enrichment of the result changes nothing but the attributes of the sockets.
-/

namespace Procinsh.Ipc

/-! ## Ids -/

variable {a b c d : FdEndpoint}

private theorem mem_toString_nat {n : ℕ} {c : Char} (h : c ∈ (toString n).toList) :
    c.isDigit = true ∨ c = '-' := Json.mem_toString_int (n := n) h

private theorem toString_nat_inj {m n : ℕ} (h : toString m = toString n) : m = n :=
  Int.ofNat_inj.mp (Json.toString_int_inj.mp h)

/-- Only digits, minus signs and colons occur in a name. -/
theorem FdEndpoint.mem_name {ch : Char} (h : ch ∈ a.name.toList) :
    ch.isDigit = true ∨ ch = '-' ∨ ch = ':' := by
  unfold FdEndpoint.name at h
  simp only [String.toList_append, List.mem_append] at h
  rcases h with (((h | h) | h) | h) | h
  · exact (Json.mem_toString_int h).imp_right .inl
  · exact .inr (.inr (by simpa using h))
  · exact (mem_toString_nat h).imp_right .inl
  · exact .inr (.inr (by simpa using h))
  · exact (mem_toString_nat h).imp_right .inl

theorem FdEndpoint.slash_notMem_name : '/' ∉ a.name.toList := by
  intro h
  rcases FdEndpoint.mem_name h with h | h | h
  · exact absurd h (by decide)
  · exact absurd h (by decide)
  · exact absurd h (by decide)

/-- A name determines the process and the descriptor. -/
theorem FdEndpoint.name_eq_iff : a.name = b.name ↔ a.key = b.key := by
  obtain ⟨⟨pid, start⟩, fd, _, _, _, _, _⟩ := a
  obtain ⟨⟨pid', start'⟩, fd', _, _, _, _, _⟩ := b
  have hcolon : ∀ n : ℤ, ':' ∉ (toString n).toList := by
    intro n hn
    rcases Json.mem_toString_int hn with hn | hn
    · exact absurd hn (by decide)
    · exact absurd hn (by decide)
  constructor
  · intro h
    have hlist := congrArg String.toList h
    simp only [FdEndpoint.name, String.toList_append, List.append_assoc] at hlist
    obtain ⟨hpid, hrest⟩ := append_cons_inj_of_notMem (hcolon _) (hcolon _) hlist
    obtain ⟨hstart, hfd⟩ := append_cons_inj_of_notMem (hcolon (start.toNat : ℤ))
      (hcolon (start'.toNat : ℤ)) hrest
    obtain rfl := Int32.toInt_inj.mp (Json.toString_int_inj.mp (String.ext hpid))
    obtain rfl := UInt64.toNat_inj.mp (toString_nat_inj (String.ext hstart))
    obtain rfl := UInt32.toNat_inj.mp (toString_nat_inj (String.ext hfd))
    rfl
  · intro h
    obtain ⟨hid, rfl⟩ := FdEndpoint.key_eq_iff.mp h
    cases hid
    rfl

end Procinsh.Ipc

namespace Procinsh.Analysis

open Ipc

variable {a b c d : FdEndpoint}

theorem joinedId_comm : joinedId a b = joinedId b a := by
  unfold joinedId
  rcases lt_trichotomy a.name b.name with h | h | h
  · rw [if_neg (lt_asymm h), if_pos h]
  · rw [h]
  · rw [if_pos h, if_neg (lt_asymm h)]

/-- The id is that of the pair in one order. -/
theorem joinedId_eq_or (a b : FdEndpoint) : joinedId a b = a.name ++ "/" ++ b.name ∨
    joinedId a b = b.name ++ "/" ++ a.name := by
  unfold joinedId
  split
  · exact .inr rfl
  · exact .inl rfl

private theorem eq_of_slash {a b c d : FdEndpoint}
    (h : a.name ++ "/" ++ b.name = c.name ++ "/" ++ d.name) : a.key = c.key ∧ b.key = d.key := by
  have hlist := congrArg String.toList h
  simp only [String.toList_append, List.append_assoc] at hlist
  obtain ⟨ha, hb⟩ := append_cons_inj_of_notMem FdEndpoint.slash_notMem_name
    FdEndpoint.slash_notMem_name hlist
  exact ⟨FdEndpoint.name_eq_iff.mp (String.ext ha), FdEndpoint.name_eq_iff.mp (String.ext hb)⟩

/-- The id of a relation with a peer determines the pair of its ends. -/
theorem joinedId_eq_iff : joinedId a b = joinedId c d ↔ s(a.key, b.key) = s(c.key, d.key) := by
  rw [Sym2.eq_iff]
  constructor
  · intro h
    rcases joinedId_eq_or a b with hab | hab
    · rcases joinedId_eq_or c d with hcd | hcd
      · exact .inl (eq_of_slash (hab.symm.trans (h.trans hcd)))
      · exact .inr (eq_of_slash (hab.symm.trans (h.trans hcd)))
    · rcases joinedId_eq_or c d with hcd | hcd
      · exact .inr (eq_of_slash (hab.symm.trans (h.trans hcd))).symm
      · exact .inl (eq_of_slash (hab.symm.trans (h.trans hcd))).symm
  · have hid : ∀ {a b c d : FdEndpoint}, a.key = c.key → b.key = d.key →
        joinedId a b = joinedId c d := by
      intro a b c d hac hbd
      unfold joinedId
      rw [FdEndpoint.name_eq_iff.mpr hac, FdEndpoint.name_eq_iff.mpr hbd]
    rintro (⟨hac, hbd⟩ | ⟨had, hbc⟩)
    · exact hid hac hbd
    · exact (hid had hbc).trans joinedId_comm

/-- The id of an external relation determines its endpoint. -/
theorem externalId_eq_iff : a.name ++ ":external" = b.name ++ ":external" ↔ a.key = b.key := by
  rw [← FdEndpoint.name_eq_iff]
  constructor
  · intro h
    have hlist := congrArg String.toList h
    rw [String.toList_append, String.toList_append] at hlist
    exact String.ext (List.append_cancel_right hlist)
  · intro h
    rw [h]

/-- No external relation has the id of a relation with a peer. -/
theorem externalId_ne_joinedId : a.name ++ ":external" ≠ joinedId b c := by
  intro h
  have hslash : '/' ∈ (a.name ++ ":external").toList := by
    rw [h]
    rcases joinedId_eq_or b c with hbc | hbc
    · rw [hbc, String.toList_append, String.toList_append]
      simp
    · rw [hbc, String.toList_append, String.toList_append]
      simp
  rw [String.toList_append, List.mem_append] at hslash
  rcases hslash with hslash | hslash
  · exact FdEndpoint.slash_notMem_name hslash
  · exact absurd hslash (by decide)

/-! ## What the visits find -/

theorem mem_visits {owner : IpcIdentity × List FdEndpoint} {v : Visit} : v ∈ visits owner ↔
    v.resource = owner.1 ∧ v.endpoints = owner.2 ∧ owner.2[v.index]? = some v.endpoint := by
  unfold visits
  rw [List.mem_map]
  constructor
  · rintro ⟨⟨endpoint, index⟩, hmem, rfl⟩
    exact ⟨rfl, rfl, List.mem_zipIdx_iff_getElem?.mp hmem⟩
  · obtain ⟨resource, endpoints, index, endpoint⟩ := v
    rintro ⟨rfl, rfl, hget⟩
    exact ⟨(endpoint, index), List.mem_zipIdx_iff_getElem?.mpr hget, rfl⟩

/-- The visits are made to the owners. -/
theorem map_endpoint_visits (owner : IpcIdentity × List FdEndpoint) :
    (visits owner).map Visit.endpoint = owner.2 := by
  rw [visits, List.map_map]
  exact List.zipIdx_map_fst 0 owner.2

/-- What a visit finds is its external relation and a relation with each of its peers. -/
theorem Visit.mem_relations {observations : Observations} {reverse : OrderedMap Tuple (List UInt64)}
    {v : Visit} {r : FdRelation} : r ∈ v.relations observations reverse ↔
      (hasExternal (v.info observations) (v.found observations reverse) = true ∧
        r = externalRelation (v.info observations) v.endpoint) ∨
      ∃ m ∈ v.found observations reverse, r = joinedRelation (v.info observations) v.endpoint m := by
  unfold Visit.relations Visit.external
  rw [List.mem_append, List.mem_map]
  refine or_congr ?_ ?_
  · split
    · next h => simp [h]
    · next h => simp [h]
  · simp only [mem_sortMatches, eq_comm]

section Build

variable (iterateOwners : List (IpcIdentity × List FdEndpoint) → List (IpcIdentity × List FdEndpoint))
  (iterateInfos : List (UInt64 × SocketInfo) → List (UInt64 × SocketInfo)) (limits : Limits)
  (snapshot : SystemSnapshot)

/-- The visits of a run that is not cut short. -/
def allVisits : List Visit := (observationsOf iterateOwners snapshot).owners.entries.flatMap visits

/-- The relations that the visits find. -/
def foundRelations : List FdRelation :=
  let observations := observationsOf iterateOwners snapshot
  (allVisits iterateOwners snapshot).flatMap
    (Visit.relations observations (reverseOf iterateInfos observations))

/-! ## What a run keeps -/

/-- Relations that may differ in the attributes of the socket and the label. -/
structure SameEnds (r s : FdRelation) : Prop where
  id : r.id = s.id
  endpoint : r.endpoint = s.endpoint
  peer : r.peer = s.peer
  candidate : r.candidate = s.candidate
  shared : r.shared = s.shared

theorem withRemoteGid_sameEnds (namespaces : OrderedMap UInt64 (UInt64 × UInt64))
    (captured : NeighborSnapshot) (r : FdRelation) :
    SameEnds (withRemoteGid namespaces captured r) r := by
  unfold withRemoteGid
  dsimp only
  split
  · exact ⟨rfl, rfl, rfl, rfl, rfl⟩
  · exact ⟨rfl, rfl, rfl, rfl, rfl⟩

/-- The relations that a run keeps: a part of what is found, with one relation of each id, and the
first relation of every id unless something was left out. -/
structure Keeps (kept : List FdRelation) : Prop where
  sublist : kept.Sublist (foundRelations iterateOwners iterateInfos snapshot)
  pairwise : kept.Pairwise (KeysDiffer relationKey)
  complete : snapshot.fdRelations.length < limits.relations →
    (buildWithin iterateOwners iterateInfos limits snapshot).2 = false →
    FirstOfKey relationKey (foundRelations iterateOwners iterateInfos snapshot) kept

/-- The relations of the result are those of the run, some with the GID of the remote port. -/
theorem exists_enrich : ∃ enrich : FdRelation → FdRelation, (∀ r, SameEnds (enrich r) r) ∧
    (buildWithin iterateOwners iterateInfos limits snapshot).1.fdRelations =
      (relateOwners limits (observationsOf iterateOwners snapshot)
        (reverseOf iterateInfos (observationsOf iterateOwners snapshot))
        (observationsOf iterateOwners snapshot).owners.entries
        ⟨snapshot.fdRelations, [], false⟩).relations.map enrich := by
  cases hneighbors : snapshot.rawNeighbors with
  | none =>
    refine ⟨fun r => r, fun r => ⟨rfl, rfl, rfl, rfl, rfl⟩, ?_⟩
    unfold buildWithin
    rw [hneighbors]
    exact (List.map_id _).symm
  | some captured =>
    refine ⟨_, withRemoteGid_sameEnds (observationsOf iterateOwners snapshot).namespaces captured, ?_⟩
    unfold buildWithin
    rw [hneighbors]

/-- The relations of the result are those of the snapshot and those that the run keeps. -/
theorem exists_keeps : ∃ (kept : List FdRelation) (enrich : FdRelation → FdRelation),
    Keeps iterateOwners iterateInfos limits snapshot kept ∧ (∀ r, SameEnds (enrich r) r) ∧
      (buildWithin iterateOwners iterateInfos limits snapshot).1.fdRelations =
        (snapshot.fdRelations ++ kept).map enrich := by
  have hvisited := visited_relateOwners limits (observationsOf iterateOwners snapshot)
    (reverseOf iterateInfos (observationsOf iterateOwners snapshot))
    (observationsOf iterateOwners snapshot).owners.entries ⟨snapshot.fdRelations, [], false⟩
  obtain ⟨made, hmade, hkept, hcomplete⟩ := hvisited
  obtain ⟨kept, hitems, hfirst, -⟩ := firstOfKey_pushAll relationKey snapshot.fdRelations
    (made.flatMap fun v => v.relationsWithin (observationsOf iterateOwners snapshot)
      (reverseOf iterateInfos (observationsOf iterateOwners snapshot)) limits.matchesPerEndpoint)
  have hrelations := (congrArg Prod.fst hkept).trans hitems
  have hsublist : (made.flatMap fun v => v.relationsWithin (observationsOf iterateOwners snapshot)
      (reverseOf iterateInfos (observationsOf iterateOwners snapshot))
      limits.matchesPerEndpoint).Sublist (foundRelations iterateOwners iterateInfos snapshot) :=
    (List.Sublist.flatMap_right made fun v _ => v.relationsWithin_sublist _).trans
      (hmade.flatMap _)
  have hkeeps : Keeps iterateOwners iterateInfos limits snapshot kept := by
    refine ⟨hfirst.sublist.trans hsublist, hfirst.pairwise, fun hstart hfalse => ?_⟩
    obtain ⟨-, rfl, -, hfound⟩ := hcomplete hstart hfalse
    have hall : ((allVisits iterateOwners snapshot).flatMap fun v =>
        v.relationsWithin (observationsOf iterateOwners snapshot)
          (reverseOf iterateInfos (observationsOf iterateOwners snapshot))
          limits.matchesPerEndpoint) = foundRelations iterateOwners iterateInfos snapshot :=
      List.flatMap_congr fun v hv => Visit.relationsWithin_eq (hfound v hv)
    exact hall ▸ hfirst
  obtain ⟨enrich, hsame, hresult⟩ := exists_enrich iterateOwners iterateInfos limits snapshot
  exact ⟨kept, enrich, hkeeps, hsame, hresult.trans (congrArg _ hrelations)⟩

end Build

end Procinsh.Analysis
