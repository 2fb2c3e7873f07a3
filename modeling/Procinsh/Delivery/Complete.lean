import Procinsh.Delivery.Encoder
import Procinsh.Delivery.Merge
import Procinsh.Foundation.Lists

/-!
# Complete snapshots

What the serialisation of a `SystemSnapshot` guarantees and both sides of a stream rely on: which
fields are there, that processes have distinct identities and relations distinct ids, and that the
maps of a process are in ascending order.

The sender identifies values by the text of a field, the receiver by the field itself, and processes
by a key of its own.  On complete snapshots these identify the same values.
-/

namespace Procinsh

/-! ## Identities -/

/-- The identity of a process. -/
def processIdentity (pid ticks : ℤ) : Json :=
  .object [("pid", .int pid), ("start_time_ticks", .int ticks)]

/-- The decimal text of an integer up to a separator determines the integer and the rest. -/
private lemma int_text_inj {m n : ℤ} {c : Char} (hdigit : c.isDigit = false) (hminus : c ≠ '-')
    {l l' : List Char} (h : (toString m).toList ++ c :: l = (toString n).toList ++ c :: l') :
    m = n ∧ l = l' := by
  have hmem : ∀ k : ℤ, c ∉ (toString k).toList := by
    intro k hc
    rcases Json.mem_toString_int hc with hc | hc
    · rw [hdigit] at hc
      cases hc
    · exact hminus hc
  obtain ⟨htext, hrest⟩ := append_cons_inj_of_notMem (hmem m) (hmem n) h
  exact ⟨Json.toString_int_inj.mp (String.ext htext), hrest⟩

private lemma textChars_processIdentity (pid ticks : ℤ) :
    (processIdentity pid ticks).textChars =
      ('\x7b' :: Json.stringText "pid" ++ [':']) ++ ((toString pid).toList ++
        ',' :: ((Json.stringText "start_time_ticks" ++ [':']) ++
          ((toString ticks).toList ++ '\x7d' :: []))) := by
  simp [processIdentity, Json.textChars, Json.fieldsText, Json.int, Json.numberText]

/-- The text of an identity determines it. -/
theorem text_processIdentity_inj {pid ticks pid' ticks' : ℤ} :
    (processIdentity pid ticks).text = (processIdentity pid' ticks').text ↔
      processIdentity pid ticks = processIdentity pid' ticks' := by
  constructor
  · intro h
    have hchars := congrArg String.toList h
    simp only [Json.text, String.toList_ofList, textChars_processIdentity] at hchars
    -- the pid ends at the comma, the start time at the closing brace
    obtain ⟨rfl, hrest⟩ := int_text_inj (by decide) (by decide) (List.append_cancel_left hchars)
    obtain ⟨rfl, -⟩ := int_text_inj (by decide) (by decide) (List.append_cancel_left hrest)
    rfl
  · exact congrArg Json.text

/-- The key that the receiver makes of an identity. -/
def identityKey (pid ticks : ℤ) : String := toString pid ++ ":" ++ toString ticks

theorem processKey_processIdentity (pid ticks : ℤ) :
    processKey (some (processIdentity pid ticks)) = .ok (identityKey pid ticks) := by
  simp [processKey, processIdentity, identityKey, Json.field?, Json.lookupField, templateText,
    Json.int, Json.text, Json.textChars, Json.numberText]

/-- The receiver's key determines the identity. -/
theorem identityKey_inj {pid ticks pid' ticks' : ℤ} :
    identityKey pid ticks = identityKey pid' ticks' ↔
      processIdentity pid ticks = processIdentity pid' ticks' := by
  constructor
  · intro h
    have hchars := congrArg String.toList h
    simp only [identityKey, String.toList_append, List.append_assoc] at hchars
    obtain ⟨rfl, hticks⟩ := int_text_inj (c := ':') (by decide) (by decide) hchars
    rw [Json.toString_int_inj.mp (String.ext hticks)]
  · intro h
    simp only [processIdentity, Json.int, Json.object.injEq, List.cons.injEq, Prod.mk.injEq,
      Json.number.injEq, Number.int.injEq, true_and, and_true] at h
    rw [h.1, h.2]

/-! ## What is guaranteed -/

/-- The items of a field. -/
def entries (s : Json) (field : String) : List Json := snapshotArrayEntries (s.index field)

/-- The values have distinct strings under the property. -/
structure Keyed (property : String) (vs : List Json) : Prop where
  string : ∀ v ∈ vs, ∃ id, v.field? property = some (.string id)
  distinct : (vs.map fun v => v.field? property).Nodup

/-- The first map starts at a lower address than the second. -/
def StartsBefore (a b : Json) : Prop :=
  ∃ m n, bigInt (a.field? "start") = some m ∧ bigInt (b.field? "start") = some n ∧ m < n

/-- The maps of a process. -/
structure CompleteMaps (maps : List Json) : Prop where
  start : ∀ m ∈ maps, ∃ text n, m.field? "start" = some (.string text) ∧
    bigInt (some (.string text)) = some n
  ascending : maps.Pairwise StartsBefore

/-- The value has the identity of a process. -/
def HasIdentity (p : Json) : Prop :=
  ∃ pid ticks, p.field? "identity" = some (processIdentity pid ticks)

/-- A process of a complete snapshot. -/
structure CompleteProcess (p : Json) : Prop where
  object : p.isObject = true
  identity : HasIdentity p
  array : p.field? "maps" = some (.array (entries p "maps"))
  maps : CompleteMaps (entries p "maps")
  epoch : ∃ n, p.field? "maps_epoch" = some (.int n)
  not_delta : p.field? "maps_delta" = none

/-- The fields that may be sent as a delta. -/
def collectionFields : List String := ["fd_relations", "rdma_relations", "device_handles"]

/-- The other fields that hold arrays. -/
def wholeFields : List String := ["rdma_ports", "hardware_devices", "hardware_paths"]

/-- The fields that only messages have. -/
def messageFields : List String :=
  ["kind", "sequence", "base_sequence", "fd_relations_delta", "rdma_relations_delta",
    "device_handles_delta"]

/-- A complete snapshot. -/
structure CompleteSnapshot (s : Json) : Prop where
  object : s.isObject = true
  array : ∀ f ∈ "processes" :: (collectionFields ++ wholeFields),
    s.field? f = some (.array (entries s f))
  process : ∀ p ∈ entries s "processes", CompleteProcess p
  distinct : ((entries s "processes").map fun p => p.field? "identity").Nodup
  keyed : ∀ f ∈ collectionFields, Keyed "id" (entries s f)
  not_message : ∀ f ∈ messageFields, s.field? f = none

/-! ## Keys -/

/-- The text of a string field determines the field. -/
lemma fieldIdentityKey_string {property : String} {v w : Json} {id id' : String}
    (hv : v.field? property = some (.string id)) (hw : w.field? property = some (.string id')) :
    fieldIdentityKey property v = fieldIdentityKey property w ↔
      v.field? property = w.field? property := by
  rw [fieldIdentityKey, fieldIdentityKey, Json.index_of_field? hv, Json.index_of_field? hw, hv, hw]
  constructor
  · intro h
    have hchars : Json.stringText id = Json.stringText id' := by
      simpa [Json.text, Json.textChars] using congrArg String.toList h
    rw [Json.stringText_inj.mp hchars]
  · intro h
    rw [Option.some.inj h]

/-- The sender's key and the receiver's property identify the same values. -/
lemma Keyed.key_iff {property : String} {vs ws : List Json} (hvs : Keyed property vs)
    (hws : Keyed property ws) : ∀ v ∈ vs, ∀ w ∈ ws,
      fieldIdentityKey property v = fieldIdentityKey property w ↔
        v.field? property = w.field? property := by
  intro v hv w hw
  obtain ⟨id, hid⟩ := hvs.string v hv
  obtain ⟨id', hid'⟩ := hws.string w hw
  exact fieldIdentityKey_string hid hid'

/-- Ascending maps have distinct starts. -/
lemma CompleteMaps.keyed {maps : List Json} (h : CompleteMaps maps) : Keyed "start" maps := by
  refine ⟨fun m hm => ?_, ?_⟩
  · obtain ⟨text, -, htext, -⟩ := h.start m hm
    exact ⟨text, htext⟩
  · refine List.pairwise_map.mpr (h.ascending.imp fun ⟨m, n, hm, hn, hlt⟩ heq => ?_)
    rw [heq, hn] at hm
    exact absurd (Option.some.inj hm) hlt.ne'

/-- The text of an identity determines it, also inside two processes. -/
lemma identity_key_iff {p q : Json} (hp : HasIdentity p) (hq : HasIdentity q) :
    fieldIdentityKey "identity" p = fieldIdentityKey "identity" q ↔
      p.field? "identity" = q.field? "identity" := by
  obtain ⟨pid, ticks, hid⟩ := hp
  obtain ⟨pid', ticks', hid'⟩ := hq
  rw [fieldIdentityKey, fieldIdentityKey, Json.index_of_field? hid, Json.index_of_field? hid', hid,
    hid', text_processIdentity_inj, Option.some.injEq]

/-- The key under which the receiver keeps a process. -/
def receiverKey (p : Json) : String := (processKey (p.field? "identity")).toOption.getD ""

lemma processKey_of_identity {p : Json} (hp : HasIdentity p) :
    processKey (p.field? "identity") = .ok (receiverKey p) := by
  obtain ⟨pid, ticks, hid⟩ := hp
  rw [receiverKey, hid, processKey_processIdentity]
  rfl

/-- The receiver's key determines the identity, also inside two processes. -/
lemma receiverKey_iff {p q : Json} (hp : HasIdentity p) (hq : HasIdentity q) :
    receiverKey p = receiverKey q ↔ p.field? "identity" = q.field? "identity" := by
  obtain ⟨pid, ticks, hid⟩ := hp
  obtain ⟨pid', ticks', hid'⟩ := hq
  rw [receiverKey, receiverKey, hid, hid', processKey_processIdentity, processKey_processIdentity,
    Option.some.injEq, ← identityKey_inj]
  rfl

/-- Processes with distinct identities are told apart by the texts of these. -/
lemma distinct_identity_key {ps : List Json} (hps : ∀ p ∈ ps, CompleteProcess p)
    (hdistinct : (ps.map fun p => p.field? "identity").Nodup) :
    KeyedDelta.Distinct (fieldIdentityKey "identity") ps := by
  have hfield : KeyedDelta.Distinct (fun p : Json => p.field? "identity") ps := hdistinct
  exact hfield.of_imp fun p hp q hq =>
    (identity_key_iff (hps p hp).identity (hps q hq).identity).mp

/-- The receiver keeps processes with distinct identities under their keys. -/
lemma knownProcesses_eq {m : Json} {ms : List Json} (hm : m.field? "processes" = some (.array ms))
    (hms : ∀ p ∈ ms, HasIdentity p) :
    knownProcesses m = .ok (KeyedDelta.keyed receiverKey ms) := by
  have hkeys : (ms.mapM fun p => processKey (p.field? "identity")) = .ok (ms.map receiverKey) :=
    mapM_eq_pure_map fun p hp => processKey_of_identity (hms p hp)
  unfold knownProcesses
  rw [hm]
  simp only [arrayItems, hkeys, bind, Except.bind]
  rw [← List.map_prod_right_eq_zip, KeyedDelta.keyed]

end Procinsh
