import Procinsh.Foundation.OrderedMap

/-!
# Taking pairs out of a map

A list of links, each between two keys, takes pairs of values out of a map: a link whose two keys are
both there takes their values and removes them, any other link is passed over.  Every value is then
either left in the map or on one side of one pair.

The values of the map carry their keys, as `key` reads them.
-/

namespace Procinsh.OrderedMap

variable {κ β ι : Type*} [DecidableEq κ]

/-- Every value is under its own key. -/
def Keyed (key : β → κ) (m : OrderedMap κ β) : Prop := ∀ k v, m.get? k = some v → key v = k

theorem Keyed.erase {key : β → κ} {m : OrderedMap κ β} (h : m.Keyed key) (k : κ) :
    (m.erase k).Keyed key := by
  intro l v hget
  by_cases hl : l = k
  · rw [hl, get?_erase_self] at hget
    cases hget
  · rw [get?_erase_ne _ hl] at hget
    exact h l v hget

/-- Values under their own keys that are distinct keep their places. -/
theorem keyed_ofList {key : β → κ} {values : List β} (h : (values.map key).Nodup) :
    (ofList (values.map fun v => (key v, v))).Keyed key := by
  have hkeys : ((values.map fun v => (key v, v)).map Prod.fst).Nodup := by
    rw [List.map_map]
    exact h
  intro k v hget
  rw [get?_eq_some_iff, entries_ofList hkeys, List.mem_map] at hget
  obtain ⟨w, -, hw⟩ := hget
  cases hw
  rfl

theorem values_ofList {key : β → κ} {values : List β} (h : (values.map key).Nodup) :
    (ofList (values.map fun v => (key v, v))).values = values := by
  have hkeys : ((values.map fun v => (key v, v)).map Prod.fst).Nodup := by
    rw [List.map_map]
    exact h
  rw [OrderedMap.values, entries_ofList hkeys, List.map_map]
  exact List.map_id _

/-- Removing a key takes its value out. -/
theorem perm_values_erase {m : OrderedMap κ β} {k : κ} {v : β} (h : m.get? k = some v) :
    m.values.Perm (v :: (m.erase k).values) := by
  have hentries : m.entries.Perm ((k, v) :: (m.erase k).entries) := by
    have hnodup : ((k, v) :: (m.erase k).entries).Nodup := by
      refine List.nodup_cons.mpr ⟨?_, List.Nodup.of_map _ (m.erase k).nodup⟩
      rw [← get?_eq_some_iff, get?_erase_self]
      exact fun h => by cases h
    refine (List.perm_ext_iff_of_nodup (List.Nodup.of_map _ m.nodup) hnodup).mpr ?_
    rintro ⟨l, w⟩
    rw [List.mem_cons, ← get?_eq_some_iff, ← get?_eq_some_iff]
    by_cases hl : l = k
    · subst hl
      rw [h, get?_erase_self]
      constructor
      · intro hw
        cases hw
        exact .inl rfl
      · rintro (hw | hw)
        · cases hw
          rfl
        · cases hw
    · rw [get?_erase_ne _ hl]
      constructor
      · exact .inr
      · rintro (hw | hw)
        · cases hw
          exact absurd rfl hl
        · exact hw
  exact hentries.map Prod.snd

section TakePairs

variable (key : β → κ) (ends : ι → κ × κ)

/-- Takes the values of the two keys of each link out of the map, if both are there. -/
def takePairs (m : OrderedMap κ β) : List ι → OrderedMap κ β × List (ι × β × β)
  | [] => (m, [])
  | link :: links =>
    match m.get? (ends link).1, m.get? (ends link).2 with
    | some a, some b =>
      let (rest, pairs) := takePairs ((m.erase (key a)).erase (key b)) links
      (rest, (link, a, b) :: pairs)
    | _, _ => takePairs m links

/-- The two sides of a pair. -/
def sides (pair : ι × β × β) : List β := [pair.2.1, pair.2.2]

/-- What a link takes, and what it leaves. -/
theorem takePairs_cons (m : OrderedMap κ β) (link : ι) (links : List ι) :
    (∃ a b, m.get? (ends link).1 = some a ∧ m.get? (ends link).2 = some b ∧
      takePairs key ends m (link :: links) =
        ((takePairs key ends ((m.erase (key a)).erase (key b)) links).1,
          (link, a, b) :: (takePairs key ends ((m.erase (key a)).erase (key b)) links).2)) ∨
      ((m.get? (ends link).1 = none ∨ m.get? (ends link).2 = none) ∧
        takePairs key ends m (link :: links) = takePairs key ends m links) := by
  rw [takePairs]
  cases ha : m.get? (ends link).1 with
  | none => exact .inr ⟨.inl rfl, rfl⟩
  | some a =>
    cases hb : m.get? (ends link).2 with
    | none => exact .inr ⟨.inr rfl, rfl⟩
    | some b => exact .inl ⟨a, b, rfl, rfl, rfl⟩

variable {key ends} {m : OrderedMap κ β}

/-- Every value is left in the map or on one side of one pair. -/
theorem takePairs_perm (hm : m.Keyed key) {links : List ι}
    (hends : ∀ link ∈ links, (ends link).1 ≠ (ends link).2) :
    ((takePairs key ends m links).1.values ++ (takePairs key ends m links).2.flatMap sides).Perm
      m.values := by
  induction links generalizing m with
  | nil =>
    rw [takePairs, List.flatMap_nil, List.append_nil]
  | cons link links ih =>
    obtain ⟨hlink, hlinks⟩ := List.forall_mem_cons.mp hends
    rcases takePairs_cons key ends m link links with
      ⟨a, b, ha, hb, heq⟩ | ⟨-, heq⟩
    · have hka : key a = (ends link).1 := hm _ _ ha
      have hkb : key b = (ends link).2 := hm _ _ hb
      have hb' : (m.erase (key a)).get? (key b) = some b := by
        rw [get?_erase_ne _ (by rw [hka, hkb]; exact hlink.symm), hkb, hb]
      have hrest := ih ((hm.erase (key a)).erase (key b)) hlinks
      have htaken : m.values.Perm (a :: b :: ((m.erase (key a)).erase (key b)).values) :=
        (perm_values_erase (hka ▸ ha)).trans ((perm_values_erase hb').cons a)
      rw [heq, List.flatMap_cons]
      refine List.Perm.trans ?_ ((hrest.cons b).cons a |>.trans htaken.symm)
      exact List.perm_middle.trans (List.perm_middle.cons a)
    · rw [heq]
      exact ih hm hlinks

/-- A pair is taken by its link. -/
theorem mem_takePairs (hm : m.Keyed key) {links : List ι} {pair : ι × β × β}
    (h : pair ∈ (takePairs key ends m links).2) :
    pair.1 ∈ links ∧ key pair.2.1 = (ends pair.1).1 ∧ key pair.2.2 = (ends pair.1).2 := by
  induction links generalizing m with
  | nil => cases h
  | cons link links ih =>
    rcases takePairs_cons key ends m link links with
      ⟨a, b, ha, hb, heq⟩ | ⟨-, heq⟩
    · rw [heq] at h
      rcases List.mem_cons.mp h with rfl | h
      · exact ⟨List.mem_cons_self, hm _ _ ha, hm _ _ hb⟩
      · exact (ih ((hm.erase _).erase _) h).imp_left (List.mem_cons_of_mem _)
    · rw [heq] at h
      exact (ih hm h).imp_left (List.mem_cons_of_mem _)

/-- Links are taken one after the other. -/
theorem takePairs_append (m : OrderedMap κ β) (links later : List ι) :
    takePairs key ends m (links ++ later) =
      ((takePairs key ends (takePairs key ends m links).1 later).1,
        (takePairs key ends m links).2 ++
          (takePairs key ends (takePairs key ends m links).1 later).2) := by
  induction links generalizing m with
  | nil => rfl
  | cons link links ih =>
    rw [List.cons_append, takePairs, takePairs]
    split
    · rw [ih]
      rfl
    · exact ih m

/-- A key is left in the map unless it was not there or is on one side of a pair. -/
theorem get?_takePairs_eq_none (hm : m.Keyed key) {links : List ι} {k : κ} :
    (takePairs key ends m links).1.get? k = none ↔
      m.get? k = none ∨ ∃ pair ∈ (takePairs key ends m links).2, ∃ v ∈ sides pair, key v = k := by
  induction links generalizing m with
  | nil => simp [takePairs]
  | cons link links ih =>
    rcases takePairs_cons key ends m link links with
      ⟨a, b, ha, hb, heq⟩ | ⟨-, heq⟩
    · rw [heq, ih ((hm.erase _).erase _)]
      have herased : ((m.erase (key a)).erase (key b)).get? k = none ↔
          m.get? k = none ∨ key a = k ∨ key b = k := by
        by_cases hkb : k = key b
        · rw [hkb, get?_erase_self]
          exact iff_of_true rfl (.inr (.inr rfl))
        · rw [get?_erase_ne _ hkb]
          by_cases hka : k = key a
          · rw [hka, get?_erase_self]
            exact iff_of_true rfl (.inr (.inl rfl))
          · rw [get?_erase_ne _ hka]
            simp [Ne.symm hka, Ne.symm hkb]
      rw [herased]
      simp [sides, or_assoc]
    · rw [heq]
      exact ih hm

/-- A link one of whose keys is not there is passed over. -/
theorem takePairs_skip {links later : List ι} {link : ι}
    (h : (takePairs key ends m links).1.get? (ends link).1 = none ∨
      (takePairs key ends m links).1.get? (ends link).2 = none) :
    takePairs key ends m (links ++ link :: later) = takePairs key ends m (links ++ later) := by
  rw [takePairs_append, takePairs_append]
  rcases takePairs_cons key ends (takePairs key ends m links).1 link later with
    ⟨a, b, ha, hb, -⟩ | ⟨-, heq⟩
  · rw [ha, hb] at h
    rcases h with h | h
    · cases h
    · cases h
  · rw [heq]

end TakePairs

end Procinsh.OrderedMap
