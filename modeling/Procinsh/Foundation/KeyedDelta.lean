import Procinsh.Foundation.OrderedMap

/-!
# Deltas between keyed collections

A collection is a list of values with distinct keys.  A delta from an old to a current collection
names the keys that are gone and lists the values that are new or changed.  Applied to a map of the
old values it yields the current ones, up to their order.

The side that makes a delta and the side that applies it may use different keys, as long as these
identify the same values.
-/

namespace Procinsh

namespace KeyedDelta

variable {κ κ' β : Type*} [DecidableEq κ] [DecidableEq κ']

/-- The values under their keys; of two values with one key the last wins. -/
def keyed (key : β → κ) (vs : List β) : OrderedMap κ β :=
  OrderedMap.ofList (vs.map fun v => (key v, v))

/-- Distinct values have distinct keys. -/
def Distinct (key : β → κ) (vs : List β) : Prop := (vs.map key).Nodup

instance (key : β → κ) (vs : List β) : Decidable (Distinct key vs) :=
  inferInstanceAs (Decidable (List.Nodup _))

/-- The current values that are new, or differ from the old value of their key. -/
def upsert [DecidableEq β] (key : β → κ) (old current : List β) : List β :=
  current.filter fun v => (keyed key old).get? (key v) ≠ some v

/-- The old values whose key is gone. -/
def removed (key : β → κ) (old current : List β) : List β :=
  old.filter fun v => key v ∉ current.map key

/-- A map after the removal of keys and the insertion of values. -/
def applied (key : β → κ) (m : OrderedMap κ β) (remove : List κ) (upsert : List β) :
    OrderedMap κ β :=
  (m.eraseAll remove).setAll (upsert.map fun v => (key v, v))

variable {key : β → κ} {key' : β → κ'} {old current : List β}

omit [DecidableEq κ] in
private lemma map_fst_keyed (key : β → κ) (vs : List β) :
    ((vs.map fun v => (key v, v)).map Prod.fst) = vs.map key := by
  rw [List.map_map]
  rfl

/-- The entries of a collection under its keys. -/
theorem entries_keyed {vs : List β} (h : Distinct key vs) :
    (keyed key vs).entries = vs.map fun v => (key v, v) :=
  OrderedMap.entries_ofList (by rw [map_fst_keyed]; exact h)

/-- The values of a collection under its keys. -/
theorem values_keyed {vs : List β} (h : Distinct key vs) : (keyed key vs).values = vs := by
  rw [OrderedMap.values, entries_keyed h, List.map_map]
  exact List.map_id vs

/-- A key leads to the value of the collection that has it. -/
theorem get?_keyed {vs : List β} (h : Distinct key vs) {k : κ} {v : β} :
    (keyed key vs).get? k = some v ↔ v ∈ vs ∧ key v = k := by
  rw [OrderedMap.get?_eq_some_iff, entries_keyed h, List.mem_map]
  constructor
  · rintro ⟨w, hw, hkey⟩
    obtain ⟨rfl, rfl⟩ := Prod.mk.inj hkey
    exact ⟨hw, rfl⟩
  · rintro ⟨hv, rfl⟩
    exact ⟨v, hv, rfl⟩

omit [DecidableEq κ] [DecidableEq κ'] in
/-- Values that one key tells apart are told apart by every key that identifies no more. -/
theorem Distinct.of_imp {vs : List β} (h : Distinct key' vs)
    (hkeys : ∀ v ∈ vs, ∀ w ∈ vs, key v = key w → key' v = key' w) : Distinct key vs :=
  List.Nodup.map_on (fun v hv w hw hkey =>
    List.inj_on_of_nodup_map h hv hw (hkeys v hv w hw hkey)) (List.Nodup.of_map _ h)

/-- What is inserted are the current values that are not among the old ones, by whatever key. -/
theorem upsert_eq [DecidableEq β] (h : Distinct key old) :
    upsert key old current = current.filter fun v => v ∉ old := by
  unfold upsert
  refine List.filter_congr fun v _ => ?_
  have hget : (keyed key old).get? (key v) = some v ↔ v ∈ old := by
    rw [get?_keyed h]
    exact ⟨fun hv => hv.1, fun hv => ⟨hv, rfl⟩⟩
  simp only [ne_eq, hget]

/-- A delta made with one key and applied with another that identifies the same values turns a map
of the old values into one of the current values. -/
theorem get?_applied [DecidableEq β] (hold : Distinct key old) (hold' : Distinct key' old)
    (hcurrent' : Distinct key' current)
    (hkeys : ∀ v ∈ old, ∀ w ∈ current, key v = key w ↔ key' v = key' w)
    {m : OrderedMap κ' β} (hm : ∀ k, m.get? k = (keyed key' old).get? k) (k : κ') :
    (applied key' m ((removed key old current).map key') (upsert key old current)).get? k =
      (keyed key' current).get? k := by
  unfold applied
  rw [upsert_eq hold]
  have hnodup : (((current.filter fun v => v ∉ old).map fun v => (key' v, v)).map Prod.fst).Nodup := by
    rw [map_fst_keyed]
    exact hcurrent'.sublist (List.filter_sublist.map key')
  cases hk : (keyed key' current).get? k with
  | some v =>
    obtain ⟨hv, rfl⟩ := (get?_keyed hcurrent').mp hk
    by_cases hnew : v ∈ old
    · -- an unchanged value: its key is neither set nor removed
      rw [OrderedMap.get?_setAll_of_notMem, OrderedMap.get?_eraseAll, if_neg, hm]
      · exact (get?_keyed hold').mpr ⟨hnew, rfl⟩
      · intro hremove
        obtain ⟨w, hw, hkey⟩ := List.mem_map.mp hremove
        obtain ⟨hw, hgone⟩ := List.mem_filter.mp hw
        have hsame : key w = key v := (hkeys w hw v hv).mpr hkey
        exact absurd (List.mem_map.mpr ⟨v, hv, hsame.symm⟩) (by simpa using hgone)
      · rw [map_fst_keyed]
        intro hset
        obtain ⟨w, hw, hkey⟩ := List.mem_map.mp hset
        obtain ⟨hw, hwnew⟩ := List.mem_filter.mp hw
        obtain rfl := List.inj_on_of_nodup_map hcurrent' hw hv hkey
        exact absurd hnew (by simpa using hwnew)
    · refine OrderedMap.get?_setAll_of_mem hnodup ?_ _
      exact List.mem_map.mpr ⟨v, List.mem_filter.mpr ⟨hv, by simpa using hnew⟩, rfl⟩
  | none =>
    have hnone : ∀ v ∈ current, key' v ≠ k := by
      intro v hv hkey
      rw [(get?_keyed hcurrent').mpr ⟨hv, hkey⟩] at hk
      cases hk
    rw [OrderedMap.get?_setAll_of_notMem, OrderedMap.get?_eraseAll]
    · cases hm' : (keyed key' old).get? k with
      | none => rw [hm, hm', ite_self]
      | some w =>
        -- an old value whose key is gone
        obtain ⟨hw, rfl⟩ := (get?_keyed hold').mp hm'
        refine if_pos (List.mem_map.mpr ⟨w, List.mem_filter.mpr ⟨hw, ?_⟩, rfl⟩)
        rw [decide_eq_true_eq]
        intro hmem
        obtain ⟨v, hv, hkey⟩ := List.mem_map.mp hmem
        exact hnone v hv ((hkeys w hw v hv).mp hkey.symm).symm
    · rw [map_fst_keyed]
      intro hset
      obtain ⟨w, hw, hkey⟩ := List.mem_map.mp hset
      exact hnone w (List.mem_filter.mp hw).1 hkey

/-- The values after a delta are the current ones, up to their order, whatever the order of the
values that it is applied to. -/
theorem values_applied_perm [DecidableEq β] (hold : Distinct key old) (hold' : Distinct key' old)
    (hcurrent' : Distinct key' current)
    (hkeys : ∀ v ∈ old, ∀ w ∈ current, key v = key w ↔ key' v = key' w)
    {base : List β} (hbase : base.Perm old) :
    (applied key' (keyed key' base) ((removed key old current).map key')
      (upsert key old current)).values.Perm current := by
  have hbase' : Distinct key' base := (hbase.map key').nodup_iff.mpr hold'
  have hget : ∀ k, (keyed key' base).get? k = (keyed key' old).get? k := by
    intro k
    apply Option.ext
    intro v
    rw [get?_keyed hbase', get?_keyed hold', hbase.mem_iff]
  have hperm := OrderedMap.perm_of_get?_eq (get?_applied hold hold' hcurrent' hkeys hget)
  have hvalues := hperm.map Prod.snd
  rwa [← OrderedMap.values, ← OrderedMap.values, values_keyed hcurrent'] at hvalues

end KeyedDelta

end Procinsh
