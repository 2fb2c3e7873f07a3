import Procinsh.Delivery.Complete
import Procinsh.Foundation.Transition

/-!
# Snapshot streams are lossless

Feeding complete snapshots through one encoder, and its messages through `mergeSnapshot`, gives the
receiver each snapshot back: the processes in order with their maps and other fields, the relations
and the handles up to their order, and every other field.

The invariant relates the encoder to the receiver: what the receiver has agrees with the snapshot
that the encoder sent last, the epochs of the maps are the recorded ones, and the sequence numbers
are equal.
-/

namespace Procinsh

/-! ## Deltas of arrays -/

/-- The fields of a delta. -/
lemma buildArrayDelta_fields {old current : List Json} {property : String} {change : Json}
    (h : buildArrayDelta old current property = some change) :
    truthy (some change) = true ∧
      change.field? "remove" = some (.array
        ((KeyedDelta.removed (fieldIdentityKey property) old current).map
          fun v => v.index property)) ∧
      change.field? "upsert" = some (.array
        (KeyedDelta.upsert (fieldIdentityKey property) old current)) := by
  unfold buildArrayDelta at h
  dsimp only at h
  split at h
  · obtain rfl := Option.some.inj h
    exact ⟨rfl, rfl, rfl⟩
  · cases h

/-- The delta between two collections, applied to the old one in any order, yields the current one
up to its order. -/
lemma applyDelta_buildArrayDelta {old current base : List Json} {property : String} {change : Json}
    (hold : Keyed property old) (hcurrent : Keyed property current) (hbase : base.Perm old)
    (h : buildArrayDelta old current property = some change) :
    ∃ m, applyDelta property base change = .ok m ∧ m.values.Perm current := by
  obtain ⟨-, hremove, hupsert⟩ := buildArrayDelta_fields h
  refine ⟨_, by rw [applyDelta, hremove, hupsert]; rfl, ?_⟩
  -- the removed keys are the properties of the removed values
  have hkeys : (((KeyedDelta.removed (fieldIdentityKey property) old current).map
      fun v => v.index property).map some) =
      (KeyedDelta.removed (fieldIdentityKey property) old current).map
        fun v => v.field? property := by
    rw [List.map_map]
    refine List.map_congr_left fun v hv => ?_
    obtain ⟨id, hid⟩ := hold.string v (List.mem_filter.mp hv).1
    rw [Function.comp_apply, Json.index_of_field? hid, hid]
  rw [hkeys]
  have hdistinct : KeyedDelta.Distinct (fun v : Json => v.field? property) old := hold.distinct
  exact KeyedDelta.values_applied_perm
    (hdistinct.of_imp fun v hv w hw => (hold.key_iff hold v hv w hw).mp) hdistinct
    hcurrent.distinct (hold.key_iff hcurrent) hbase

/-- The start of a map. -/
private def mapStart (m : Json) : ℤ := (bigInt (m.field? "start")).getD 0

/-- The starts of ascending maps ascend. -/
private lemma ascending_mapStart {maps : List Json} (hmaps : CompleteMaps maps) :
    maps.Pairwise fun a b => mapStart a < mapStart b := by
  refine hmaps.ascending.imp fun ⟨m, n, hm, hn, hlt⟩ => ?_
  simpa only [mapStart, hm, hn, Option.getD_some] using hlt

/-- A list that is sorted by a key that tells its values apart is the only sorted one. -/
private lemma mergeSort_perm_eq {maps shuffled : List Json} (hmaps : CompleteMaps maps)
    (hperm : shuffled.Perm maps) :
    (shuffled.map fun m => (mapStart m, m)).mergeSort (fun a b => a.1 ≤ b.1) =
      maps.map fun m => (mapStart m, m) := by
  have hascending := ascending_mapStart hmaps
  have hsorted : (maps.map fun m => (mapStart m, m)).Pairwise fun a b => a.1 ≤ b.1 :=
    List.pairwise_map.mpr (hascending.imp fun hlt => hlt.le)
  have hmerged : ((shuffled.map fun m => (mapStart m, m)).mergeSort
      fun a b => a.1 ≤ b.1).Pairwise fun a b => a.1 ≤ b.1 := by
    have h := @List.pairwise_mergeSort _ (fun a b : ℤ × Json => decide (a.1 ≤ b.1))
      (fun a b c hab hbc => by simpa using (of_decide_eq_true hab).trans (of_decide_eq_true hbc))
      (fun a b => by simpa using le_total a.1 b.1) (shuffled.map fun m => (mapStart m, m))
    exact h.imp fun hab => of_decide_eq_true hab
  refine List.Perm.eq_of_pairwise (fun a b ha hb hab hba => ?_) hmerged hsorted
    ((List.mergeSort_perm _ _).trans (hperm.map _))
  have ha' := (hperm.map fun m => (mapStart m, m)).mem_iff.mp (List.mem_mergeSort.mp ha)
  obtain ⟨m, hm, rfl⟩ := List.mem_map.mp ha'
  obtain ⟨n, hn, rfl⟩ := List.mem_map.mp hb
  have hnodup : (maps.map mapStart).Nodup :=
    List.pairwise_map.mpr (hascending.imp fun hlt => hlt.ne)
  rw [List.inj_on_of_nodup_map hnodup hm hn (le_antisymm hab hba)]

/-- Sorting the maps of a complete process by their starts gives them back. -/
lemma sortByStart_perm {maps shuffled : List Json} (hmaps : CompleteMaps maps)
    (hperm : shuffled.Perm maps) : sortByStart shuffled = .ok maps := by
  unfold sortByStart
  by_cases hlength : shuffled.length ≤ 1
  · rw [if_pos hlength]
    match shuffled, hlength with
    | [], _ => rw [List.nil_perm.mp hperm]
    | [m], _ => rw [List.singleton_perm.mp hperm]
  · have hkeyed : (shuffled.mapM fun m =>
        (bigInt (m.field? "start")).map fun start => (start, m)) =
        some (shuffled.map fun m => (mapStart m, m)) := by
      refine mapM_eq_pure_map fun m hm => ?_
      obtain ⟨text, n, htext, hn⟩ := hmaps.start m (hperm.mem_iff.mp hm)
      rw [mapStart, htext, hn]
      rfl
    rw [if_neg hlength, hkeyed]
    dsimp only
    rw [mergeSort_perm_eq hmaps hperm, List.map_map]
    exact congrArg Except.ok (List.map_id maps)

/-! ## One process -/

/-- What is sent for the process `p` after the processes `old`. -/
inductive ProcessMessage (full : Bool) (old : List Json) (epochs : OrderedMap String Json)
    (p : Json) : Json → Prop
  | whole : ProcessMessage full old epochs p p
  /-- The maps and the epoch of the previous snapshot still hold. -/
  | unchanged (before epoch : Json) (hfull : full = false) (hmem : before ∈ old)
    (hid : before.field? "identity" = p.field? "identity")
    (hmaps : before.index "maps" = p.index "maps")
    (hepoch : epochs.get? (fieldIdentityKey "identity" p) = some epoch) :
    ProcessMessage full old epochs p ((p.setField "maps_epoch" epoch).removeField "maps")
  | delta (before change : Json) (hfull : full = false) (hmem : before ∈ old)
    (hid : before.field? "identity" = p.field? "identity")
    (hchange : buildArrayDelta (entries before "maps") (entries p "maps") "start" = some change) :
    ProcessMessage full old epochs p ((p.removeField "maps").setField "maps_delta" change)

/-- The encoder sends one of the three messages for a complete process, when it has recorded an
epoch for each process of the previous snapshot. -/
lemma encodeProcess_message (full : Bool) {old : List Json} {epochs : OrderedMap String Json}
    {p : Json} (hold : ∀ q ∈ old, CompleteProcess q)
    (hdistinct : KeyedDelta.Distinct (fieldIdentityKey "identity") old) (hp : CompleteProcess p)
    (hepochs : ∀ q ∈ old, ∃ epoch, epochs.get? (fieldIdentityKey "identity" q) = some epoch) :
    ∃ p', SnapshotEncoder.encodeProcess full
        (KeyedDelta.keyed (fieldIdentityKey "identity") old) epochs p = some p' ∧
      ProcessMessage full old epochs p p' := by
  unfold SnapshotEncoder.encodeProcess
  dsimp only
  cases hbefore : (KeyedDelta.keyed (fieldIdentityKey "identity") old).get?
      (fieldIdentityKey "identity" p) with
  | none =>
    rw [if_neg (by simp)]
    refine ⟨p, ?_, .whole⟩
    cases full <;> rfl
  | some before =>
    obtain ⟨hmem, hkey⟩ := (KeyedDelta.get?_keyed hdistinct).mp hbefore
    have hid := (identity_key_iff (hold before hmem).identity hp.identity).mp hkey
    by_cases hsame : full = false ∧ before.index "maps" = p.index "maps"
    · obtain ⟨epoch, hepoch⟩ := hepochs before hmem
      rw [hkey] at hepoch
      refine ⟨_, ?_, .unchanged before epoch hsame.1 hmem hid hsame.2 hepoch⟩
      rw [if_pos (by simpa using hsame), hepoch]
      simp only [Option.bind_eq_bind, Option.bind_some, Json.assign?_of_isObject hp.object]
      exact Json.remove?_of_isObject (by simpa using hp.object) _
    · rw [if_neg (by simpa using hsame), Option.bind_some]
      cases hchange : buildArrayDelta (snapshotArrayEntries (before.index "maps"))
        (snapshotArrayEntries (p.index "maps")) "start" with
      | none =>
        refine ⟨p, ?_, .whole⟩
        cases full <;> rfl
      | some change =>
        cases full with
        | true => exact ⟨p, rfl, .whole⟩
        | false =>
          refine ⟨_, ?_, .delta before change rfl hmem hid hchange⟩
          simp only [Option.bind_eq_bind, Json.remove?_of_isObject hp.object, Option.bind_some]
          exact Json.assign?_of_isObject (by simpa using hp.object) _ _

/-- What the receiver has of a process agrees with the process that was sent; the epoch of the maps
is the recorded one. -/
structure ProcessAgrees (epochs : OrderedMap String Json) (m p : Json) : Prop where
  field : ∀ f, f ≠ "maps_epoch" → m.field? f = p.field? f
  epoch : ∃ n : ℤ, m.field? "maps_epoch" = some (.int n) ∧
    epochs.get? (fieldIdentityKey "identity" p) = some (.int n)

lemma ProcessAgrees.identity {epochs : OrderedMap String Json} {m p : Json}
    (h : ProcessAgrees epochs m p) : m.field? "identity" = p.field? "identity" :=
  h.field "identity" (by decide)

lemma ProcessAgrees.hasIdentity {epochs : OrderedMap String Json} {m p : Json}
    (h : ProcessAgrees epochs m p) (hp : HasIdentity p) : HasIdentity m := by
  rw [HasIdentity, h.identity]
  exact hp

/-- The message of a process keeps its identity. -/
lemma ProcessMessage.identity {full : Bool} {old : List Json} {epochs : OrderedMap String Json}
    {p p' : Json} (h : ProcessMessage full old epochs p p') :
    p'.field? "identity" = p.field? "identity" := by
  cases h <;> simp

/-- What the receiver has of the processes `old`. -/
structure ProcessBaseline (epochs : OrderedMap String Json) (old ms : List Json) : Prop where
  complete : ∀ q ∈ old, CompleteProcess q
  distinct : (old.map fun q => q.field? "identity").Nodup
  agrees : List.Forall₂ (ProcessAgrees epochs) ms old

/-- The receiver has a process with an identity for each process with one. -/
lemma ProcessBaseline.hasIdentity {epochs : OrderedMap String Json} {old ms : List Json}
    (h : ProcessBaseline epochs old ms) : ∀ m ∈ ms, HasIdentity m := by
  intro m hm
  obtain ⟨p, hp, hmp⟩ := exists_right_of_forall₂ h.agrees hm
  exact hmp.hasIdentity (h.complete p hp).identity

/-- The process that the receiver has under an identity. -/
lemma known_get?_eq {epochs : OrderedMap String Json} {old ms : List Json}
    (h : ProcessBaseline epochs old ms) {before p : Json} (hmem : before ∈ old)
    (hp : HasIdentity p) (hid : before.field? "identity" = p.field? "identity") :
    ∃ m, ProcessAgrees epochs m before ∧
      (KeyedDelta.keyed receiverKey ms).get? (receiverKey p) = some m := by
  obtain ⟨m, hm, hmp⟩ := exists_left_of_forall₂ h.agrees hmem
  have hms := h.hasIdentity
  have hfield : KeyedDelta.Distinct (fun q : Json => q.field? "identity") ms := by
    rw [KeyedDelta.Distinct, map_eq_map_of_forall₂ (h.agrees.imp fun _ _ h => h.identity)]
    exact h.distinct
  have hreceiver : KeyedDelta.Distinct receiverKey ms :=
    hfield.of_imp fun v hv w hw => (receiverKey_iff (hms v hv) (hms w hw)).mp
  refine ⟨m, hmp, (KeyedDelta.get?_keyed hreceiver).mpr ⟨hm, ?_⟩⟩
  exact (receiverKey_iff (hms m hm) hp).mpr (hmp.identity.trans hid)

/-- The maps that the receiver keeps for a process are those of the process that was sent. -/
lemma ProcessAgrees.maps {epochs : OrderedMap String Json} {m p : Json}
    (h : ProcessAgrees epochs m p) (hp : CompleteProcess p) :
    m.field? "maps" = some (.array (entries p "maps")) :=
  (h.field "maps" (by decide)).trans hp.array

/-- A message with the maps and an epoch put in has the fields of the process that was sent. -/
private lemma merged_field {p p' : Json} {maps : List Json} (epoch : Json)
    (hobject : p'.isObject = true) (hmaps : p.field? "maps" = some (.array maps))
    (hdelta : p.field? "maps_delta" = none)
    (hrest : ∀ f, f ≠ "maps" → f ≠ "maps_delta" → f ≠ "maps_epoch" → p'.field? f = p.field? f) :
    (∀ f, f ≠ "maps_epoch" → (((p'.removeField "maps_delta").setField "maps"
      (.array maps)).setField "maps_epoch" epoch).field? f = p.field? f) ∧
    (((p'.removeField "maps_delta").setField "maps" (.array maps)).setField "maps_epoch"
      epoch).field? "maps_epoch" = some epoch := by
  refine ⟨fun f hf => ?_, ?_⟩
  · rw [Json.field?_setField_ne _ hf]
    by_cases hfm : f = "maps"
    · rw [hfm, Json.field?_setField_self (by simpa using hobject), hmaps]
    · rw [Json.field?_setField_ne _ hfm]
      by_cases hfd : f = "maps_delta"
      · rw [hfd, Json.field?_removeField_self, hdelta]
      · rw [Json.field?_removeField_ne _ hfd, hrest f hfm hfd hf]
  · exact Json.field?_setField_self (by simpa using hobject) _ _

/-- The receiver merges a message to the process that was sent, with the epoch that the message
has. -/
lemma mergeProcess_message {full : Bool} {epochs : OrderedMap String Json} {old ms : List Json}
    (hbaseline : full = false → ProcessBaseline epochs old ms) {p p' : Json}
    (hp : CompleteProcess p) (h : ProcessMessage full old epochs p p') :
    ∃ m, mergeProcess full (KeyedDelta.keyed receiverKey ms) p' = .ok m ∧
      (∀ f, f ≠ "maps_epoch" → m.field? f = p.field? f) ∧
      ∃ n : ℤ, m.field? "maps_epoch" = some (.int n) ∧ p'.index "maps_epoch" = .int n := by
  obtain ⟨n, hn⟩ := hp.epoch
  have hkey : processKey (p'.field? "identity") = .ok (receiverKey p) := by
    rw [h.identity]
    exact processKey_of_identity hp.identity
  unfold mergeProcess
  rw [hkey]
  cases h with
  | whole =>
    obtain ⟨hfield, hepoch⟩ := merged_field (.int n) hp.object hp.array hp.not_delta
      fun f _ _ _ => rfl
    refine ⟨_, ?_, hfield, n, hepoch, Json.index_of_field? hn⟩
    cases full <;>
      simp [mergeMaps, hp.not_delta, hp.array, hn, truthy, orElse, bind, Except.bind, Except.map]
  | unchanged before epoch hfull hmem hid hmaps hrecorded =>
    subst hfull
    obtain ⟨hold, hdistinct, hagrees⟩ := hbaseline rfl
    obtain ⟨b, hb, hget⟩ := known_get?_eq (hbaseline rfl) hmem hp.identity hid
    obtain ⟨k, hk, hkept⟩ := hb.epoch
    -- the recorded epoch is the one that the receiver has
    have hkeys := (identity_key_iff (hold before hmem).identity hp.identity).mpr hid
    rw [hkeys, hrecorded] at hkept
    obtain rfl := Option.some.inj hkept
    have hbmaps : b.field? "maps" = some (.array (entries p "maps")) := by
      rw [hb.maps (hold before hmem), entries, entries, hmaps]
    have hobject : ((p.setField "maps_epoch" (Json.int k)).removeField "maps").isObject = true := by
      simpa using hp.object
    obtain ⟨hfield, hepoch⟩ := merged_field (.int k) hobject hp.array hp.not_delta
      fun f hf hd he => by simp [hf, he]
    refine ⟨_, ?_, hfield, k, hepoch, ?_⟩
    · simp [mergeMaps, hget, hbmaps, hk, hp.not_delta, truthy, orElse, bind, Except.bind, Except.map,
        Json.int]
    · exact Json.index_of_field? (by simp [hp.object])
  | delta before change hfull hmem hid hchange =>
    subst hfull
    obtain ⟨hold, hdistinct, hagrees⟩ := hbaseline rfl
    obtain ⟨b, hb, hget⟩ := known_get?_eq (hbaseline rfl) hmem hp.identity hid
    obtain ⟨entries', hentries, hperm⟩ := applyDelta_buildArrayDelta (hold before hmem).maps.keyed
      hp.maps.keyed (List.Perm.refl _) hchange
    have hobject : ((p.removeField "maps").setField "maps_delta" change).isObject = true := by
      simpa using hp.object
    obtain ⟨hfield, hepoch⟩ := merged_field (.int n) hobject hp.array hp.not_delta
      fun f hf hd he => by simp [hf, hd]
    have hdelta : ((p.removeField "maps").setField "maps_delta" change).field? "maps_delta" =
        some change := Json.field?_setField_self (by simpa using hp.object) _ _
    refine ⟨_, ?_, hfield, n, hepoch, ?_⟩
    · simp [mergeMaps, hget, hdelta, hb.maps (hold before hmem), hn, Json.index,
        (buildArrayDelta_fields hchange).1, hentries, sortByStart_perm hp.maps hperm, arrayItems,
        bind, Except.bind, Except.map]
    · exact Json.index_of_field? (by simp [hn])

/-! ## Collections -/

/-- What is sent for the collection `f` of the snapshot `s` after the values `old`. -/
inductive CollectionMessage (full : Bool) (old : List Json) (s output : Json) (f : String) : Prop
  | whole (hfield : output.field? f = s.field? f) (hdelta : output.field? (f ++ "_delta") = none)
  | delta (change : Json) (hfull : full = false)
    (hchange : buildArrayDelta old (entries s f) "id" = some change)
    (hfield : output.field? f = none) (hdelta : output.field? (f ++ "_delta") = some change)

/-- The encoder sends one of the two messages for a collection, and leaves the other fields. -/
lemma encodeCollection_message (full : Bool) (old : Json) {s output : Json} {f : String}
    (hobject : output.isObject = true) (hne : f ++ "_delta" ≠ f)
    (hfield : output.field? f = s.field? f) (hdelta : output.field? (f ++ "_delta") = none) :
    ∃ output', SnapshotEncoder.encodeCollection full old output f = some output' ∧
      output'.isObject = true ∧ CollectionMessage full (entries old f) s output' f ∧
      ∀ g, g ≠ f → g ≠ f ++ "_delta" → output'.field? g = output.field? g := by
  have hentries : entries output f = entries s f := by
    rw [entries, entries, Json.index, Json.index, hfield]
  unfold SnapshotEncoder.encodeCollection
  dsimp only
  rw [← entries, ← entries, hentries]
  cases hchange : buildArrayDelta (entries old f) (entries s f) "id" with
  | none =>
    refine ⟨output, ?_, hobject, .whole hfield hdelta, fun g _ _ => rfl⟩
    cases full <;> rfl
  | some change =>
    cases full with
    | true => exact ⟨output, rfl, hobject, .whole hfield hdelta, fun g _ _ => rfl⟩
    | false =>
      have hremoved : (output.removeField f).isObject = true := by simpa using hobject
      refine ⟨(output.removeField f).setField (f ++ "_delta") change, ?_, by simpa using hobject,
        .delta change rfl hchange ?_ ?_, fun g hg hgd => by simp [hg, hgd]⟩
      · simp only [Option.bind_eq_bind, Json.remove?_of_isObject hobject, Option.bind_some]
        exact Json.assign?_of_isObject hremoved _ _
      · simp [Ne.symm hne]
      · exact Json.field?_setField_self hremoved _ _

/-- The receiver merges a message of a collection to the collection, up to its order. -/
lemma mergeField_message {full : Bool} {old s output : Json} {f : String} (base : List Json)
    (previous : Option Json) (hold : full = false → Keyed "id" (entries old f))
    (hs : Keyed "id" (entries s f)) (harray : s.field? f = some (.array (entries s f)))
    (hprevious : full = false → previous = some (.array base) ∧ base.Perm (entries old f))
    (h : CollectionMessage full (entries old f) s output f) :
    ∃ items, mergeField full output f previous = .ok (.array items) ∧
      items.Perm (entries s f) := by
  unfold mergeField
  cases h with
  | whole hfield hdelta =>
    refine ⟨entries s f, ?_, List.Perm.refl _⟩
    rw [hdelta, hfield, harray]
    cases full with
    | true => rfl
    | false =>
      rw [(hprevious rfl).1]
      rfl
  | delta change hfull hchange hfield hdelta =>
    obtain ⟨hbase, hperm⟩ := hprevious hfull
    subst hfull
    obtain ⟨m, hm, hvalues⟩ := applyDelta_buildArrayDelta (hold rfl) hs hperm hchange
    refine ⟨m.values, ?_, hvalues⟩
    rw [hdelta, hfield, hbase]
    simp [mergeCollection, (buildArrayDelta_fields hchange).1, hm, arrayItems, orElse, bind,
      Except.bind, Except.map]

/-! ## One snapshot -/

/-- What the receiver has agrees with the snapshot `s`. -/
structure Agrees (epochs : OrderedMap String Json) (m s : Json) : Prop where
  processes : ∃ ms, m.field? "processes" = some (.array ms) ∧
    List.Forall₂ (ProcessAgrees epochs) ms (entries s "processes")
  collection : ∀ f ∈ collectionFields, ∃ items, m.field? f = some (.array items) ∧
    items.Perm (entries s f)
  field : ∀ f v, f ∉ "processes" :: collectionFields → s.field? f = some v → m.field? f = some v

/-- What the encoder sends for the snapshot `s`. -/
structure SnapshotMessage (full : Bool) (old s output : Json) (encoder encoder' : SnapshotEncoder) :
    Prop where
  object : output.isObject = true
  kind : output.field? "kind" = some (.string (if full then "full" else "delta"))
  sequence : output.field? "sequence" = some (.int encoder'.sequence.toNat)
  base : full = false → output.field? "base_sequence" = some (.int encoder.sequence.toNat)
  processes : ∃ ps, output.field? "processes" = some (.array ps) ∧
    List.Forall₂ (ProcessMessage full (entries old "processes") encoder.epochs)
      (entries s "processes") ps ∧
    encoder'.epochs = .ofList (((entries s "processes").map (fieldIdentityKey "identity")).zip
      (ps.map fun p => p.index "maps_epoch"))
  collection : ∀ f ∈ collectionFields, CollectionMessage full (entries old f) s output f
  field : ∀ f, f ∉ "processes" :: (collectionFields ++ messageFields) →
    output.field? f = s.field? f
  previous : encoder'.previous = some s
  lastFull : encoder'.lastFull.isSome = (full || encoder.lastFull.isSome)

/-- The encoder has what it needs of the previous snapshot. -/
structure EncoderReady (encoder : SnapshotEncoder) (old : Json) : Prop where
  previous : encoder.previous.getD .null = old
  process : ∀ q ∈ entries old "processes", CompleteProcess q
  distinct : ((entries old "processes").map fun q => q.field? "identity").Nodup
  epoch : ∀ q ∈ entries old "processes",
    ∃ epoch, encoder.epochs.get? (fieldIdentityKey "identity" q) = some epoch

/-- What the loop over the processes does. -/
private lemma encodeProcesses_message (full : Bool) {encoder : SnapshotEncoder} {old s : Json}
    (hready : EncoderReady encoder old) (hs : CompleteSnapshot s) :
    ∃ ps, SnapshotEncoder.encodeProcesses full (KeyedDelta.keyed (fieldIdentityKey "identity")
        (entries old "processes")) encoder.epochs s =
        some (s.setField "processes" (.array ps),
          .ofList (((entries s "processes").map (fieldIdentityKey "identity")).zip
            (ps.map fun p => p.index "maps_epoch"))) ∧
      List.Forall₂ (ProcessMessage full (entries old "processes") encoder.epochs)
        (entries s "processes") ps := by
  have hkey := distinct_identity_key hready.process hready.distinct
  obtain ⟨ps, hps, hmessages⟩ := exists_mapM_eq_pure (m := Option)
    (R := fun p q => p = q ∧ p ∈ entries s "processes")
    (P := ProcessMessage full (entries old "processes") encoder.epochs)
    (List.forall₂_same.mpr fun p hp => ⟨rfl, hp⟩) (fun p q hpq => by
      obtain ⟨rfl, hp⟩ := hpq
      exact encodeProcess_message full hready.process hkey (hs.process p hp) hready.epoch)
  refine ⟨ps, ?_, hmessages⟩
  have harray := hs.array "processes" List.mem_cons_self
  unfold SnapshotEncoder.encodeProcesses
  rw [if_neg (by simp [harray])]
  simp only [Option.bind_eq_bind, Option.bind_some, Json.index_of_field? harray]
  rw [hps]
  simp [Json.assign?_of_isObject hs.object]

/-- What is sent for a collection is read off two fields. -/
private lemma CollectionMessage.congr {full : Bool} {old : List Json} {s output output' : Json}
    {f : String} (h : CollectionMessage full old s output f)
    (hfield : output'.field? f = output.field? f)
    (hdelta : output'.field? (f ++ "_delta") = output.field? (f ++ "_delta")) :
    CollectionMessage full old s output' f := by
  cases h with
  | whole hwhole hnone => exact .whole (hfield.trans hwhole) (hdelta.trans hnone)
  | delta change hfull hchange hnone hsome =>
    exact .delta change hfull hchange (hfield.trans hnone) (hdelta.trans hsome)

/-- What the loop over the collections does. -/
private lemma encodeCollections_message (full : Bool) (old : Json) {s : Json} (fs : List String)
    (hfs : (fs ++ fs.map fun f => f ++ "_delta").Nodup) {output : Json}
    (hobject : output.isObject = true) (hfield : ∀ f ∈ fs, output.field? f = s.field? f)
    (hdelta : ∀ f ∈ fs, output.field? (f ++ "_delta") = none) :
    ∃ output', fs.foldlM (SnapshotEncoder.encodeCollection full old) output = some output' ∧
      output'.isObject = true ∧
      (∀ f ∈ fs, CollectionMessage full (entries old f) s output' f) ∧
      ∀ g, g ∉ fs → g ∉ (fs.map fun f => f ++ "_delta") → output'.field? g = output.field? g := by
  induction fs generalizing output with
  | nil => exact ⟨output, rfl, hobject, by simp, fun _ _ _ => rfl⟩
  | cons f fs ih =>
    obtain ⟨hnodup, hnodup', hacross⟩ := List.nodup_append.mp hfs
    rw [List.map_cons, List.nodup_cons] at hnodup'
    rw [List.nodup_cons] at hnodup
    have hself : f ++ "_delta" ≠ f :=
      (hacross f List.mem_cons_self _ (List.mem_map_of_mem List.mem_cons_self)).symm
    obtain ⟨output₁, hencode, hobject₁, hmessage, hrest⟩ := encodeCollection_message full old
      hobject hself (hfield f List.mem_cons_self) (hdelta f List.mem_cons_self)
    -- the other collections are untouched
    have hfield₁ : ∀ g ∈ fs, output₁.field? g = s.field? g := by
      intro g hg
      have hgf : g ≠ f := fun h => hnodup.1 (h ▸ hg)
      have hgd : g ≠ f ++ "_delta" :=
        hacross g (List.mem_cons_of_mem _ hg) _ (List.mem_map_of_mem List.mem_cons_self)
      rw [hrest g hgf hgd, hfield g (List.mem_cons_of_mem _ hg)]
    have hdelta₁ : ∀ g ∈ fs, output₁.field? (g ++ "_delta") = none := by
      intro g hg
      have hgf : g ++ "_delta" ≠ f :=
        (hacross f List.mem_cons_self _ (List.mem_map_of_mem (List.mem_cons_of_mem _ hg))).symm
      have hgd : g ++ "_delta" ≠ f ++ "_delta" := fun h =>
        hnodup'.1 (h ▸ List.mem_map_of_mem (f := fun f => f ++ "_delta") hg)
      rw [hrest _ hgf hgd, hdelta g (List.mem_cons_of_mem _ hg)]
    have hfs' : (fs ++ fs.map fun f => f ++ "_delta").Nodup :=
      hfs.sublist ((List.sublist_cons_self f fs).append (List.sublist_cons_self _ _))
    obtain ⟨output', hfold, hobject', hmessages, hrest'⟩ := ih hfs' hobject₁ hfield₁ hdelta₁
    refine ⟨output', ?_, hobject', fun g hg => ?_, fun g hg hgd => ?_⟩
    · rw [List.foldlM_cons, hencode]
      exact hfold
    · rcases List.mem_cons.mp hg with rfl | hg
      · refine hmessage.congr (hrest' _ hnodup.1 ?_) (hrest' _ ?_ hnodup'.1)
        · intro hmem
          exact hacross _ List.mem_cons_self _ (List.mem_cons_of_mem _ hmem) rfl
        · intro hmem
          exact hacross _ (List.mem_cons_of_mem _ hmem) _
            (List.mem_map_of_mem List.mem_cons_self) rfl
      · exact hmessages g hg
    · rw [List.mem_cons, not_or] at hg
      rw [List.map_cons, List.mem_cons, not_or] at hgd
      rw [hrest' g hg.2 hgd.2, hrest g hg.1 hgd.1]

/-- The fields that are added to a message at the end. -/
private lemma addSequence_message {output : Json} (hobject : output.isObject = true) (full : Bool)
    (sequence : UInt64) :
    ∃ output', SnapshotEncoder.addSequence full sequence output = some output' ∧
      output'.isObject = true ∧ output'.field? "kind" = some (.string (if full then "full" else "delta")) ∧
      output'.field? "sequence" = some (.int sequence.toNat) ∧
      (full = false → output'.field? "base_sequence" = some (.int (sequence - 1).toNat)) ∧
      ∀ f, f ≠ "kind" → f ≠ "sequence" → f ≠ "base_sequence" →
        output'.field? f = output.field? f := by
  have hkind : ∀ kind, (output.setField "kind" kind).isObject = true := by simpa using hobject
  have hnumbered : ∀ kind, ((output.setField "kind" kind).setField "sequence"
      (.int sequence.toNat)).isObject = true := by simpa using hobject
  unfold SnapshotEncoder.addSequence
  simp only [Option.bind_eq_bind, Json.assign?_of_isObject hobject, Option.bind_some,
    Json.assign?_of_isObject (hkind _), Json.assign?_of_isObject (hnumbered _)]
  cases full with
  | true =>
    refine ⟨_, rfl, hnumbered _, ?_, ?_, nofun, fun f hk hs _ => ?_⟩
    · simp [hobject]
    · simp [hobject]
    · simp [hk, hs]
  | false =>
    refine ⟨_, rfl, ?_, ?_, ?_, fun _ => ?_, fun f hk hs hb => ?_⟩
    · rw [Json.isObject_setField, hnumbered]
    · simp [hobject]
    · simp [hobject]
    · simp [hobject]
    · simp [hk, hs, hb]

/-- The encoder sends one message for a complete snapshot. -/
lemma encode_message {encoder : SnapshotEncoder} {old s : Json} (hready : EncoderReady encoder old)
    (hs : CompleteSnapshot s) (forceFull : Bool) (now : ℕ) :
    ∃ output encoder', encoder.encode s forceFull now = some (output, encoder') ∧
      SnapshotMessage (encoder.fullDue forceFull now) old s output encoder encoder' := by
  generalize hfull : encoder.fullDue forceFull now = full
  obtain ⟨ps, hps, hmessages⟩ := encodeProcesses_message full hready hs
  have hobject : (s.setField "processes" (.array ps)).isObject = true := by simpa using hs.object
  have hfield : ∀ f, f ≠ "processes" → (s.setField "processes" (.array ps)).field? f = s.field? f :=
    fun f hf => Json.field?_setField_ne _ hf _
  have hdistinct : (∀ f ∈ collectionFields, f ≠ "processes" ∧ f ++ "_delta" ∈ messageFields ∧
      f ++ "_delta" ≠ "processes") := by decide
  obtain ⟨output, hfold, hobject₁, hcollection, hrest⟩ := encodeCollections_message full old
    collectionFields (by decide) hobject (fun f hf => hfield f (hdistinct f hf).1) fun f hf => by
      rw [hfield _ (hdistinct f hf).2.2, hs.not_message _ (hdistinct f hf).2.1]
  obtain ⟨output', hnumbered, hobject₂, hkind, hsequence, hbase, hrest'⟩ :=
    addSequence_message hobject₁ full (encoder.sequence + 1)
  have hkept : ∀ f ∈ "processes" :: (collectionFields ++ collectionFields.map fun f => f ++ "_delta"),
      f ≠ "kind" ∧ f ≠ "sequence" ∧ f ≠ "base_sequence" := by decide
  refine ⟨output', ⟨some s, if full then some now else encoder.lastFull, _, encoder.sequence + 1⟩,
    ?_, ⟨hobject₂, hkind, hsequence, ?_, ⟨ps, ?_, hmessages, rfl⟩, ?_, ?_, rfl, ?_⟩⟩
  · unfold SnapshotEncoder.encode
    dsimp only
    rw [hfull, hready.previous, ← entries, hps]
    simp only [Option.bind_eq_bind, Option.bind_some]
    rw [← collectionFields, hfold]
    simp only [Option.bind_some, hnumbered]
    rfl
  · intro h
    rw [hbase h, show encoder.sequence + 1 - 1 = encoder.sequence by simp]
  · obtain ⟨hk, hq, hb⟩ := hkept "processes" (by decide)
    rw [hrest' _ hk hq hb, hrest _ (by decide) (by decide)]
    exact Json.field?_setField_self hs.object _ _
  · intro f hf
    have hmem : f ∈ "processes" :: (collectionFields ++ collectionFields.map fun f => f ++ "_delta") :=
      List.mem_cons_of_mem _ (List.mem_append_left _ hf)
    have hmem' : f ++ "_delta" ∈
        "processes" :: (collectionFields ++ collectionFields.map fun f => f ++ "_delta") :=
      List.mem_cons_of_mem _ (List.mem_append_right _ (List.mem_map_of_mem hf))
    obtain ⟨hk, hq, hb⟩ := hkept _ hmem
    obtain ⟨hk', hq', hb'⟩ := hkept _ hmem'
    exact (hcollection f hf).congr (hrest' _ hk hq hb) (hrest' _ hk' hq' hb')
  · intro f hf
    rw [List.mem_cons, not_or, List.mem_append, not_or] at hf
    obtain ⟨hp, hc, hm⟩ := hf
    have hne : ∀ g ∈ messageFields, f ≠ g := fun g hg h => hm (h ▸ hg)
    rw [hrest' f (hne _ (by decide)) (hne _ (by decide)) (hne _ (by decide)), hrest f hc ?_,
      hfield f hp]
    intro hmem
    obtain ⟨g, hg, rfl⟩ := List.mem_map.mp hmem
    exact hm (hdistinct g hg).2.1
  · cases full with
    | true => rfl
    | false => simp

/-! ## Merging one message -/

/-- The processes of what the receiver has carry identities. -/
def ReceiverReady (m : Json) : Prop :=
  ∃ ms, m.field? "processes" = some (.array ms) ∧ ∀ p ∈ ms, HasIdentity p

/-- What the receiver has is the baseline of the deltas of the encoder. -/
structure Baseline (encoder : SnapshotEncoder) (old m : Json) : Prop where
  complete : CompleteSnapshot old
  agrees : Agrees encoder.epochs m old
  sequence : m.field? "sequence" = some (.int encoder.sequence.toNat)

lemma Agrees.receiverReady {epochs : OrderedMap String Json} {m s : Json} (h : Agrees epochs m s)
    (hs : CompleteSnapshot s) : ReceiverReady m := by
  obtain ⟨ms, hms, hagrees⟩ := h.processes
  exact ⟨ms, hms, (ProcessBaseline.mk hs.process hs.distinct hagrees).hasIdentity⟩

variable {full : Bool} {old s output m : Json} {encoder encoder' : SnapshotEncoder}

/-- The receiver takes the message for what it is. -/
private lemma checkUpdate_message (h : SnapshotMessage full old s output encoder encoder')
    (hbaseline : full = false → Baseline encoder old m) : checkUpdate m output = .ok full := by
  unfold checkUpdate
  rw [h.kind]
  cases full with
  | true => rfl
  | false =>
    have hsequence := (hbaseline rfl).sequence
    rw [h.base rfl, hsequence]
    simp

/-- The receiver merges the processes of a message to those of the snapshot. -/
private lemma mergeProcesses_message (hs : CompleteSnapshot s)
    (h : SnapshotMessage full old s output encoder encoder') {ms : List Json}
    (hbaseline : full = false → ProcessBaseline encoder.epochs (entries old "processes") ms) :
    ∃ ps ms', output.field? "processes" = some (.array ps) ∧
      ps.mapM (mergeProcess full (KeyedDelta.keyed receiverKey ms)) = .ok ms' ∧
      List.Forall₂ (ProcessAgrees encoder'.epochs) ms' (entries s "processes") := by
  obtain ⟨ps, hps, hmessages, hepochs⟩ := h.processes
  obtain ⟨zs, hfst, hsnd, hzs⟩ := exists_pairs_of_forall₂ hmessages
  have hcomplete : ∀ z ∈ zs, CompleteProcess z.1 := fun z hz =>
    hs.process z.1 (hfst ▸ List.mem_map_of_mem hz)
  -- each process is merged to itself, with the epoch of its message
  obtain ⟨ms', hms', hmerged⟩ := exists_mapM_eq_pure (m := Except String)
    (f := mergeProcess full (KeyedDelta.keyed receiverKey ms))
    (R := fun z p => z ∈ zs ∧ z.2 = p)
    (P := fun z m => z ∈ zs ∧ (∀ f, f ≠ "maps_epoch" → m.field? f = z.1.field? f) ∧
      ∃ n : ℤ, m.field? "maps_epoch" = some (.int n) ∧ z.2.index "maps_epoch" = .int n)
    (List.forall₂_map_right_iff.mpr (List.forall₂_same.mpr fun z hz => ⟨hz, rfl⟩))
    (fun z p ⟨hz, hp⟩ => by
      obtain ⟨m, hm, hfield, hepoch⟩ := mergeProcess_message hbaseline (hcomplete z hz) (hzs z hz)
      exact ⟨m, hp ▸ hm, hz, hfield, hepoch⟩)
  rw [hsnd] at hms'
  refine ⟨ps, ms', hps, hms', ?_⟩
  -- the epochs of the messages are the recorded ones
  have hentries : encoder'.epochs.entries =
      zs.map fun z => (fieldIdentityKey "identity" z.1, z.2.index "maps_epoch") := by
    rw [hepochs, ← hfst, ← hsnd, List.map_map, List.map_map, List.zip_map']
    refine OrderedMap.entries_ofList ?_
    have hdistinct := distinct_identity_key hs.process hs.distinct
    rw [KeyedDelta.Distinct, ← hfst, List.map_map] at hdistinct
    rw [List.map_map]
    exact hdistinct
  rw [← hfst, List.forall₂_map_right_iff]
  refine (hmerged.imp fun z m ⟨hz, hfield, n, hn, hindex⟩ => ?_).flip
  refine ⟨hfield, n, hn, OrderedMap.get?_eq_some_iff.mpr ?_⟩
  rw [hentries, ← hindex]
  exact List.mem_map_of_mem (f := fun z : Json × Json =>
    (fieldIdentityKey "identity" z.1, z.2.index "maps_epoch")) hz

/-- The fields of a merged snapshot. -/
private lemma merged_fields {rest : Json} (hrest : rest.isObject = true)
    (fd rdma ports devices paths handles processes : Json) :
    ∃ merged, merged = ([("fd_relations", fd), ("rdma_relations", rdma), ("rdma_ports", ports),
        ("hardware_devices", devices), ("hardware_paths", paths), ("device_handles", handles),
        ("processes", processes)].foldl (fun merged f => merged.setField f.1 f.2) rest) ∧
      merged.field? "fd_relations" = some fd ∧ merged.field? "rdma_relations" = some rdma ∧
      merged.field? "device_handles" = some handles ∧
      merged.field? "processes" = some processes ∧
      merged.field? "rdma_ports" = some ports ∧
      merged.field? "hardware_devices" = some devices ∧
      merged.field? "hardware_paths" = some paths ∧
      ∀ f, f ∉ "processes" :: (collectionFields ++ wholeFields) →
        merged.field? f = rest.field? f := by
  refine ⟨_, rfl, ?_, ?_, ?_, ?_, ?_, ?_, ?_, fun f hf => ?_⟩
  · simp [hrest]
  · simp [hrest]
  · simp [hrest]
  · simp [hrest]
  · simp [hrest]
  · simp [hrest]
  · simp [hrest]
  · simp only [collectionFields, wholeFields, List.mem_cons, List.cons_append, List.nil_append,
      not_or] at hf
    simp [hf]

/-- The receiver merges a collection of a message to the one of the snapshot. -/
private lemma mergeCollection_message (hs : CompleteSnapshot s)
    (h : SnapshotMessage full old s output encoder encoder')
    (hbaseline : full = false → Baseline encoder old m) {f : String} (hf : f ∈ collectionFields)
    (previous : Option Json)
    (hprevious : ∀ items, m.field? f = some (.array items) → previous = some (.array items)) :
    ∃ items, mergeField full output f previous = .ok (.array items) ∧
      items.Perm (entries s f) := by
  have harray := hs.array f (List.mem_cons_of_mem _ (List.mem_append_left _ hf))
  cases full with
  | true =>
    exact mergeField_message [] previous nofun (hs.keyed f hf) harray nofun (h.collection f hf)
  | false =>
    obtain ⟨items, hitems, hperm⟩ := (hbaseline rfl).agrees.collection f hf
    exact mergeField_message items previous (fun _ => (hbaseline rfl).complete.keyed f hf)
      (hs.keyed f hf) harray (fun _ => ⟨hprevious items hitems, hperm⟩) (h.collection f hf)

/-- The receiver merges the message of a snapshot to the snapshot; a full message on any baseline,
a delta on the baseline of its encoder. -/
lemma merge_message (hs : CompleteSnapshot s)
    (h : SnapshotMessage full old s output encoder encoder') (hready : ReceiverReady m)
    (hbaseline : full = false → Baseline encoder old m) :
    ∃ m', mergeSnapshot m output = .ok m' ∧ Baseline encoder' s m' := by
  obtain ⟨ms, hms, hidentity⟩ := hready
  have hprocess : full = false → ProcessBaseline encoder.epochs (entries old "processes") ms := by
    intro hfull
    obtain ⟨hold, hagrees, -⟩ := hbaseline hfull
    obtain ⟨ms', hms', hforall⟩ := hagrees.processes
    obtain rfl : ms' = ms := by simpa [hms] using hms'.symm
    exact ⟨hold.process, hold.distinct, hforall⟩
  obtain ⟨ps, ms', hps, hms', hagrees⟩ := mergeProcesses_message hs h hprocess
  have horElse : ∀ f items, m.field? f = some (.array items) →
      some (orElse (m.field? f) (.array [])) = some (.array items) := by
    intro f items hitems
    rw [hitems]
    rfl
  obtain ⟨fds, hfds, hfds'⟩ := mergeCollection_message hs h hbaseline (f := "fd_relations")
    (by decide) (m.field? "fd_relations") fun _ => id
  obtain ⟨handles, hhandles, hhandles'⟩ := mergeCollection_message hs h hbaseline
    (f := "device_handles") (by decide) _ (horElse "device_handles")
  obtain ⟨rdmas, hrdmas, hrdmas'⟩ := mergeCollection_message hs h hbaseline
    (f := "rdma_relations") (by decide) _ (horElse "rdma_relations")
  have hrest : ((output.removeField "device_handles_delta").removeField
      "rdma_relations_delta").isObject = true := by simpa using h.object
  obtain ⟨merged, hmerged, hfd, hrdma, hhandle, hprocesses, hports, hdevices, hpaths, hothers⟩ :=
    merged_fields hrest (.array fds) (.array rdmas) (wholeField m output "rdma_ports")
      (wholeField m output "hardware_devices") (wholeField m output "hardware_paths")
      (.array handles) (.array ms')
  refine ⟨merged, ?_, hs, ⟨⟨ms', hprocesses, hagrees⟩, ?_, ?_⟩, ?_⟩
  · unfold mergeSnapshot
    simp only [checkUpdate_message h hbaseline, knownProcesses_eq hms hidentity, hfds, hhandles,
      hrdmas, hps, hms', arrayItems, bind, Except.bind]
    rw [hmerged]
  · intro f hf
    simp only [collectionFields, List.mem_cons, List.not_mem_nil, or_false] at hf
    rcases hf with rfl | rfl | rfl
    · exact ⟨fds, hfd, hfds'⟩
    · exact ⟨rdmas, hrdma, hrdmas'⟩
    · exact ⟨handles, hhandle, hhandles'⟩
  · intro f v hf hv
    have hmessage : f ∉ messageFields := by
      intro hmem
      rw [hs.not_message f hmem] at hv
      cases hv
    have houtput : output.field? f = some v := by
      rw [h.field f, hv]
      rw [List.mem_cons, not_or] at hf ⊢
      exact ⟨hf.1, fun hmem => (List.mem_append.mp hmem).elim hf.2 hmessage⟩
    by_cases hwhole : f ∈ wholeFields
    · -- a field that is always there is sent whole
      have harray := hs.array f (List.mem_cons_of_mem _ (List.mem_append_right _ hwhole))
      obtain rfl := Option.some.inj (harray.symm.trans hv)
      have hkept : wholeField m output f = .array (entries s f) := by
        rw [wholeField, houtput]
        rfl
      simp only [wholeFields, List.mem_cons, List.not_mem_nil, or_false] at hwhole
      rcases hwhole with rfl | rfl | rfl
      · rw [hports, hkept]
      · rw [hdevices, hkept]
      · rw [hpaths, hkept]
    · rw [hothers f, Json.field?_removeField_ne, Json.field?_removeField_ne, houtput]
      · rintro rfl
        exact hmessage (by decide)
      · rintro rfl
        exact hmessage (by decide)
      · rw [List.mem_cons, not_or] at hf ⊢
        exact ⟨hf.1, fun hmem => (List.mem_append.mp hmem).elim hf.2 hwhole⟩
  · rw [hothers "sequence" (by decide)]
    simpa using h.sequence

/-! ## Streams -/

/-- What is given to the encoder for one message. -/
structure SnapshotInput where
  snapshot : Json
  forceFull : Bool
  now : ℕ

/-- Sends a snapshot and merges its message; `none` when the encoder panics or the merge throws. -/
def deliver (ends : SnapshotEncoder × Json) (input : SnapshotInput) : Option (SnapshotEncoder × Json) :=
  (ends.1.encode input.snapshot input.forceFull input.now).bind fun (output, encoder) =>
    (mergeSnapshot ends.2 output).toOption.map fun merged => (encoder, merged)

/-- A new encoder and a receiver without a snapshot. -/
def newStream : SnapshotEncoder × Json := (.new, emptySnapshot)

/-- The two ends of a stream fit: nothing has been sent, or the receiver has the baseline of the
next delta. -/
def StreamInv (ends : SnapshotEncoder × Json) : Prop :=
  ends = newStream ∨ ∃ s, ends.1.previous = some s ∧ Baseline ends.1 s ends.2

/-- The encoder has recorded an epoch for each process that the receiver has. -/
lemma Baseline.encoderReady (h : Baseline encoder s m) (hprevious : encoder.previous = some s) :
    EncoderReady encoder s := by
  obtain ⟨ms, -, hagrees⟩ := h.agrees.processes
  refine ⟨by rw [hprevious, Option.getD_some], h.complete.process, h.complete.distinct, ?_⟩
  intro q hq
  obtain ⟨m, -, hmq⟩ := exists_left_of_forall₂ hagrees hq
  obtain ⟨n, -, hn⟩ := hmq.epoch
  exact ⟨_, hn⟩

/-- A complete snapshot is sent in one message, and merging it gives the receiver the baseline of
the next delta. -/
lemma StreamInv.message (hinv : StreamInv (encoder, m)) (hs : CompleteSnapshot s)
    (forceFull : Bool) (now : ℕ) :
    ∃ old output encoder' m', encoder.encode s forceFull now = some (output, encoder') ∧
      SnapshotMessage (encoder.fullDue forceFull now) old s output encoder encoder' ∧
      (encoder.fullDue forceFull now = false → encoder.previous = some old) ∧
      mergeSnapshot m output = .ok m' ∧ Baseline encoder' s m' := by
  -- what the encoder has sent last, and what the receiver has
  obtain ⟨old, hencoder, hreceiver, hbaseline⟩ : ∃ old, EncoderReady encoder old ∧
      ReceiverReady m ∧ (encoder.fullDue forceFull now = false →
        encoder.previous = some old ∧ Baseline encoder old m) := by
    rcases hinv with hnew | ⟨old, hprevious, hbaseline⟩
    · obtain ⟨rfl, rfl⟩ := Prod.mk.inj hnew
      refine ⟨.null, ⟨rfl, nofun, List.nodup_nil, nofun⟩, ⟨[], rfl, nofun⟩, fun hfull => ?_⟩
      rw [SnapshotEncoder.fullDue, show SnapshotEncoder.new.lastFull = none from rfl] at hfull
      simp at hfull
    · exact ⟨old, hbaseline.encoderReady hprevious,
        hbaseline.agrees.receiverReady hbaseline.complete, fun _ => ⟨hprevious, hbaseline⟩⟩
  obtain ⟨output, encoder', hencode, hmessage⟩ := encode_message hencoder hs forceFull now
  obtain ⟨m', hmerge, hbaseline'⟩ :=
    merge_message hs hmessage hreceiver fun hfull => (hbaseline hfull).2
  exact ⟨old, output, encoder', m', hencode, hmessage, fun hfull => (hbaseline hfull).1, hmerge,
    hbaseline'⟩

/-- Delivering a complete snapshot succeeds, and gives the receiver the baseline of the next
delta. -/
lemma deliver_complete {ends : SnapshotEncoder × Json} (hinv : StreamInv ends)
    {input : SnapshotInput} (hs : CompleteSnapshot input.snapshot) :
    ∃ ends', deliver ends input = some ends' ∧ ends'.1.previous = some input.snapshot ∧
      Baseline ends'.1 input.snapshot ends'.2 := by
  obtain ⟨encoder, m⟩ := ends
  obtain ⟨old, output, encoder', m', hencode, hmessage, -, hmerge, hbaseline⟩ :=
    hinv.message hs input.forceFull input.now
  refine ⟨(encoder', m'), ?_, hmessage.previous, hbaseline⟩
  rw [deliver, hencode, Option.bind_some]
  simp only [hmerge]
  rfl

/-- Complete snapshots can be delivered one after another. -/
lemma run_deliver {inputs : List SnapshotInput} {ends : SnapshotEncoder × Json}
    (hinv : StreamInv ends) (hcomplete : ∀ input ∈ inputs, CompleteSnapshot input.snapshot) :
    ∃ ends', run deliver ends inputs = some ends' ∧ StreamInv ends' := by
  induction inputs generalizing ends with
  | nil => exact ⟨ends, rfl, hinv⟩
  | cons input inputs ih =>
    obtain ⟨ends₁, hdeliver, hprevious, hbaseline⟩ :=
      deliver_complete hinv (hcomplete input List.mem_cons_self)
    obtain ⟨ends', hrun, hinv'⟩ := ih (Or.inr ⟨_, hprevious, hbaseline⟩)
      fun i hi => hcomplete i (List.mem_cons_of_mem _ hi)
    exact ⟨ends', run_cons_eq_some.mpr ⟨ends₁, hdeliver, hrun⟩, hinv'⟩

/-- Streams of complete snapshots are lossless: no merge throws, and after each message what the
receiver has agrees with the snapshot that was sent. -/
theorem stream_lossless {inputs : List SnapshotInput}
    (hcomplete : ∀ input ∈ inputs, CompleteSnapshot input.snapshot) :
    (∃ ends, run deliver newStream inputs = some ends) ∧
      ∀ front input rest, inputs = front ++ input :: rest →
        ∃ encoder merged, run deliver newStream (front ++ [input]) = some (encoder, merged) ∧
          Agrees encoder.epochs merged input.snapshot := by
  refine ⟨?_, fun front input rest hinputs => ?_⟩
  · obtain ⟨ends, hrun, -⟩ := run_deliver (Or.inl rfl) hcomplete
    exact ⟨ends, hrun⟩
  · subst hinputs
    obtain ⟨ends, hrun, hinv⟩ := run_deliver (Or.inl rfl) fun i hi =>
      hcomplete i (List.mem_append_left (input :: rest) hi)
    obtain ⟨⟨encoder, merged⟩, hdeliver, -, hbaseline⟩ := deliver_complete hinv
      (hcomplete input (List.mem_append_right _ List.mem_cons_self))
    exact ⟨encoder, merged, run_concat_eq_some.mpr ⟨ends, hrun, hdeliver⟩, hbaseline.agrees⟩

/-- A snapshot of one process with one map. -/
def sampleSnapshot (epoch : ℤ) : Json :=
  .object [("device_handles", .array []), ("fd_relations", .array []),
    ("hardware_devices", .array []), ("hardware_paths", .array []),
    ("processes", .array [.object [("identity", processIdentity 42 7),
      ("maps", .array [.object [("start", .string "0x1000")]]), ("maps_epoch", .int epoch)]]),
    ("rdma_ports", .array []), ("rdma_relations", .array [])]

/-- The sample is complete. -/
lemma sampleSnapshot_complete (epoch : ℤ) : CompleteSnapshot (sampleSnapshot epoch) := by
  have hmaps : CompleteMaps [.object [("start", .string "0x1000")]] := by
    refine ⟨fun m hm => ⟨"0x1000", 4096, ?_, by decide⟩, List.pairwise_singleton _ _⟩
    rw [List.mem_singleton.mp hm]
    rfl
  refine ⟨rfl, fun f hf => ?_, fun p hp => ?_, List.nodup_singleton _, fun f hf => ?_, fun f hf => ?_⟩
  · simp only [collectionFields, wholeFields, List.mem_cons, List.cons_append, List.nil_append,
      List.not_mem_nil, or_false] at hf
    rcases hf with rfl | rfl | rfl | rfl | rfl | rfl | rfl <;> rfl
  · obtain rfl := List.mem_singleton.mp hp
    exact ⟨rfl, ⟨42, 7, rfl⟩, rfl, hmaps, ⟨epoch, rfl⟩, rfl⟩
  · have hentries : entries (sampleSnapshot epoch) f = [] := by
      simp only [collectionFields, List.mem_cons, List.not_mem_nil, or_false] at hf
      rcases hf with rfl | rfl | rfl <;> rfl
    rw [hentries]
    exact ⟨nofun, List.nodup_nil⟩
  · simp only [messageFields, List.mem_cons, List.not_mem_nil, or_false] at hf
    rcases hf with rfl | rfl | rfl | rfl | rfl | rfl <;> rfl

/-- Two snapshots of one process with the same map. -/
def sampleInputs : List SnapshotInput :=
  [⟨sampleSnapshot 3, false, 0⟩, ⟨sampleSnapshot 4, false, 1000⟩]

/-- The receiver of the two samples has the second one, with the epoch of the first. -/
theorem stream_lossless_of_samples :
    ∃ encoder merged, run deliver newStream sampleInputs = some (encoder, merged) ∧
      Agrees encoder.epochs merged (sampleSnapshot 4) := by
  have hcomplete : ∀ input ∈ sampleInputs, CompleteSnapshot input.snapshot := by
    intro input hinput
    simp only [sampleInputs, List.mem_cons, List.not_mem_nil, or_false] at hinput
    rcases hinput with rfl | rfl
    · exact sampleSnapshot_complete 3
    · exact sampleSnapshot_complete 4
  exact (stream_lossless hcomplete).2 [⟨sampleSnapshot 3, false, 0⟩] ⟨sampleSnapshot 4, false, 1000⟩
    [] rfl

end Procinsh
