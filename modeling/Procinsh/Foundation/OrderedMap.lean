import Mathlib.Data.List.Nodup
import Mathlib.Data.List.Perm.Basic

/-!
# Finite maps in insertion order

An `OrderedMap` is a finite map given by the list of its entries, in the order in which their keys
were first set; setting a key that is there replaces its value in place.  That every key occurs once
is a field of the structure.  Where the order does not matter a map is what `get?` says, and two
maps that agree under `get?` have the same entries up to their order.
-/

namespace Procinsh

/-- A finite map as the list of its entries, in insertion order. -/
structure OrderedMap (κ β : Type*) where
  entries : List (κ × β)
  /-- No two entries share a key. -/
  nodup : (entries.map Prod.fst).Nodup
  deriving DecidableEq

namespace OrderedMap

variable {κ β : Type*} [DecidableEq κ]

/-- Setting a key in a list of entries. -/
def setEntry (k : κ) (v : β) : List (κ × β) → List (κ × β)
  | [] => [(k, v)]
  | e :: es => if e.1 = k then (k, v) :: es else e :: setEntry k v es

/-- Setting a key that is there keeps the keys. -/
theorem keys_setEntry_of_mem {k : κ} {v : β} {es : List (κ × β)} (h : k ∈ es.map Prod.fst) :
    (setEntry k v es).map Prod.fst = es.map Prod.fst := by
  induction es with
  | nil => cases h
  | cons e es ih =>
    rw [setEntry]
    by_cases he : e.1 = k
    · rw [if_pos he, List.map_cons, List.map_cons, he]
    · have hes : k ∈ es.map Prod.fst := by
        rcases List.mem_cons.mp h with rfl | h
        · exact absurd rfl he
        · exact h
      rw [if_neg he, List.map_cons, List.map_cons, ih hes]

/-- Setting a key that is not there appends an entry. -/
theorem setEntry_of_notMem {k : κ} {v : β} {es : List (κ × β)} (h : k ∉ es.map Prod.fst) :
    setEntry k v es = es ++ [(k, v)] := by
  induction es with
  | nil => rfl
  | cons e es ih =>
    rw [List.map_cons, List.mem_cons, not_or] at h
    rw [setEntry, if_neg (Ne.symm h.1), ih h.2, List.cons_append]

theorem nodup_setEntry {k : κ} {v : β} {es : List (κ × β)} (h : (es.map Prod.fst).Nodup) :
    ((setEntry k v es).map Prod.fst).Nodup := by
  by_cases hk : k ∈ es.map Prod.fst
  · rw [keys_setEntry_of_mem hk]
    exact h
  · rw [setEntry_of_notMem hk, List.map_append]
    refine List.nodup_append.mpr ⟨h, List.nodup_singleton _, fun a ha b hb hab => ?_⟩
    obtain rfl : b = k := List.mem_singleton.mp hb
    exact hk (hab ▸ ha)

/-- The map without entries. -/
def empty : OrderedMap κ β := ⟨[], List.nodup_nil⟩

/-- The value of a key. -/
def get? (m : OrderedMap κ β) (k : κ) : Option β :=
  (m.entries.find? fun e => e.1 = k).map Prod.snd

/-- Sets a key; its value is replaced, or a new entry appended. -/
def set (m : OrderedMap κ β) (k : κ) (v : β) : OrderedMap κ β :=
  ⟨setEntry k v m.entries, nodup_setEntry m.nodup⟩

/-- Removes a key. -/
def erase (m : OrderedMap κ β) (k : κ) : OrderedMap κ β :=
  ⟨m.entries.filter fun e => e.1 ≠ k,
    m.nodup.sublist (List.filter_sublist.map Prod.fst)⟩

/-- Keeps the entries that satisfy the test. -/
def retain (m : OrderedMap κ β) (p : κ → β → Bool) : OrderedMap κ β :=
  ⟨m.entries.filter fun e => p e.1 e.2, m.nodup.sublist (List.filter_sublist.map Prod.fst)⟩

/-- The number of entries. -/
def size (m : OrderedMap κ β) : ℕ := m.entries.length

/-- The values, in insertion order. -/
def values (m : OrderedMap κ β) : List β := m.entries.map Prod.snd

/-- Sets the keys of the entries, one after another. -/
def setAll (m : OrderedMap κ β) (es : List (κ × β)) : OrderedMap κ β :=
  es.foldl (fun m e => m.set e.1 e.2) m

/-- Removes the keys. -/
def eraseAll (m : OrderedMap κ β) (ks : List κ) : OrderedMap κ β := ks.foldl erase m

/-- The map of a list of entries; the last entry of a key wins. -/
def ofList (es : List (κ × β)) : OrderedMap κ β := empty.setAll es

/-! ### What a key is set to -/

/-- The value of a key is the one in its entry. -/
theorem get?_eq_some_iff {m : OrderedMap κ β} {k : κ} {v : β} :
    m.get? k = some v ↔ (k, v) ∈ m.entries := by
  constructor
  · intro h
    obtain ⟨e, he, rfl⟩ := Option.map_eq_some_iff.mp h
    have hk : e.1 = k := by simpa using List.find?_some he
    rw [← hk]
    exact List.mem_of_find?_eq_some he
  · intro h
    cases hfind : m.entries.find? fun e => e.1 = k with
    | none => exact absurd (List.find?_eq_none.mp hfind _ h) (by simp)
    | some e =>
      have hk : e.1 = k := by simpa using List.find?_some hfind
      have he : e = (k, v) :=
        List.inj_on_of_nodup_map m.nodup (List.mem_of_find?_eq_some hfind) h hk
      rw [get?, hfind, he]
      rfl

/-- A key has no value exactly when it has no entry. -/
theorem get?_eq_none_iff {m : OrderedMap κ β} {k : κ} :
    m.get? k = none ↔ k ∉ m.entries.map Prod.fst := by
  rw [get?, Option.map_eq_none_iff, List.find?_eq_none, List.mem_map]
  simp only [decide_eq_true_eq, not_exists, not_and]

@[simp] theorem get?_empty (k : κ) : (empty : OrderedMap κ β).get? k = none := rfl

@[simp] theorem get?_set_self (m : OrderedMap κ β) (k : κ) (v : β) :
    (m.set k v).get? k = some v := by
  have hmem : ∀ es : List (κ × β), (k, v) ∈ setEntry k v es := by
    intro es
    induction es with
    | nil => exact List.mem_cons_self
    | cons e es ih =>
      rw [setEntry]
      split
      · exact List.mem_cons_self
      · exact List.mem_cons_of_mem _ ih
  exact get?_eq_some_iff.mpr (hmem _)

@[simp] theorem get?_set_ne (m : OrderedMap κ β) {k l : κ} (h : l ≠ k) (v : β) :
    (m.set k v).get? l = m.get? l := by
  have hfind : ∀ es : List (κ × β),
      ((setEntry k v es).find? fun e => e.1 = l) = es.find? fun e => e.1 = l := by
    intro es
    induction es with
    | nil => simp [setEntry, Ne.symm h]
    | cons e es ih =>
      rw [setEntry]
      split
      · next he => simp [Ne.symm h, he]
      · rw [List.find?_cons, List.find?_cons, ih]
  rw [get?, get?, set, hfind]

@[simp] theorem get?_erase_self (m : OrderedMap κ β) (k : κ) : (m.erase k).get? k = none := by
  rw [get?_eq_none_iff, erase]
  simp

@[simp] theorem get?_erase_ne (m : OrderedMap κ β) {k l : κ} (h : l ≠ k) :
    (m.erase k).get? l = m.get? l := by
  apply Option.ext
  intro v
  rw [get?_eq_some_iff, get?_eq_some_iff, erase]
  simp [h]

/-- What is kept of a key is its value, if the test holds. -/
theorem get?_retain (m : OrderedMap κ β) (p : κ → β → Bool) (k : κ) :
    (m.retain p).get? k = (m.get? k).filter (p k) := by
  apply Option.ext
  intro v
  rw [get?_eq_some_iff, Option.filter_eq_some_iff, get?_eq_some_iff, retain, List.mem_filter]

/-! ### Sizes -/

omit [DecidableEq κ] in
theorem size_empty : (empty : OrderedMap κ β).size = 0 := rfl

omit [DecidableEq κ] in
theorem size_retain_le (m : OrderedMap κ β) (p : κ → β → Bool) : (m.retain p).size ≤ m.size :=
  List.length_filter_le _ _

theorem size_erase_le (m : OrderedMap κ β) (k : κ) : (m.erase k).size ≤ m.size :=
  List.length_filter_le _ _

/-- Setting a key that has a value keeps the number of entries. -/
theorem size_set_of_get?_eq_some {m : OrderedMap κ β} {k : κ} {u : β} (h : m.get? k = some u)
    (v : β) : (m.set k v).size = m.size := by
  have hk : k ∈ m.entries.map Prod.fst :=
    List.mem_map.mpr ⟨(k, u), get?_eq_some_iff.mp h, rfl⟩
  have hkeys := congrArg List.length (keys_setEntry_of_mem (v := v) hk)
  rwa [List.length_map, List.length_map] at hkeys

/-- Setting a key that has no value appends its entry. -/
theorem entries_set_of_get?_eq_none {m : OrderedMap κ β} {k : κ} (h : m.get? k = none) (v : β) :
    (m.set k v).entries = m.entries ++ [(k, v)] :=
  setEntry_of_notMem (get?_eq_none_iff.mp h)

/-- Setting a key that has no value adds one entry. -/
theorem size_set_of_get?_eq_none {m : OrderedMap κ β} {k : κ} (h : m.get? k = none) (v : β) :
    (m.set k v).size = m.size + 1 := by
  rw [size, entries_set_of_get?_eq_none h, List.length_append, List.length_singleton, size]

/-- Setting a key of a map with fewer entries stays within the bound. -/
theorem size_set_le_of_lt {m : OrderedMap κ β} {n : ℕ} (h : m.size < n) (k : κ) (v : β) :
    (m.set k v).size ≤ n := by
  cases hget : m.get? k with
  | some u =>
    rw [size_set_of_get?_eq_some hget]
    exact Nat.le_of_lt h
  | none =>
    rw [size_set_of_get?_eq_none hget]
    exact h

/-! ### Many keys -/

theorem setAll_cons (m : OrderedMap κ β) (e : κ × β) (es : List (κ × β)) :
    m.setAll (e :: es) = (m.set e.1 e.2).setAll es := rfl

/-- A key that is not set keeps its value. -/
theorem get?_setAll_of_notMem {es : List (κ × β)} {k : κ} (h : k ∉ es.map Prod.fst)
    (m : OrderedMap κ β) : (m.setAll es).get? k = m.get? k := by
  induction es generalizing m with
  | nil => rfl
  | cons e es ih =>
    rw [List.map_cons, List.mem_cons, not_or] at h
    rw [setAll_cons, ih h.2, get?_set_ne _ h.1]

/-- A key that is set once has the value that it was set to. -/
theorem get?_setAll_of_mem {es : List (κ × β)} (hes : (es.map Prod.fst).Nodup) {k : κ} {v : β}
    (h : (k, v) ∈ es) (m : OrderedMap κ β) : (m.setAll es).get? k = some v := by
  induction es generalizing m with
  | nil => cases h
  | cons e es ih =>
    rw [List.map_cons, List.nodup_cons] at hes
    rw [setAll_cons]
    rcases List.mem_cons.mp h with rfl | h
    · rw [get?_setAll_of_notMem hes.1, get?_set_self]
    · exact ih hes.2 h _

/-- Removed keys have no value, other keys keep theirs. -/
theorem get?_eraseAll (m : OrderedMap κ β) (ks : List κ) (k : κ) :
    (m.eraseAll ks).get? k = if k ∈ ks then none else m.get? k := by
  induction ks generalizing m with
  | nil => rfl
  | cons l ks ih =>
    rw [eraseAll, List.foldl_cons, ← eraseAll, ih]
    by_cases hk : k ∈ ks
    · rw [if_pos hk, if_pos (List.mem_cons_of_mem _ hk)]
    · rw [if_neg hk]
      by_cases hkl : k = l
      · rw [hkl, get?_erase_self, if_pos List.mem_cons_self]
      · rw [get?_erase_ne _ hkl, if_neg]
        exact fun h => (List.mem_cons.mp h).elim hkl hk

/-- Entries with new and distinct keys are appended. -/
theorem entries_setAll {m : OrderedMap κ β} {es : List (κ × β)}
    (h : ((m.entries ++ es).map Prod.fst).Nodup) : (m.setAll es).entries = m.entries ++ es := by
  induction es generalizing m with
  | nil => exact (List.append_nil _).symm
  | cons e es ih =>
    have hnew : e.1 ∉ m.entries.map Prod.fst := by
      rw [List.map_append, List.map_cons, List.nodup_append] at h
      exact fun he => h.2.2 _ he _ List.mem_cons_self rfl
    have hset : (m.set e.1 e.2).entries = m.entries ++ [e] := setEntry_of_notMem hnew
    rw [setAll_cons, ih, hset, List.append_assoc, List.singleton_append]
    rw [hset, List.append_assoc]
    exact h

/-- A list of entries with distinct keys is the list of the entries of its map. -/
theorem entries_ofList {es : List (κ × β)} (hes : (es.map Prod.fst).Nodup) :
    (ofList es).entries = es :=
  entries_setAll (m := empty) hes

/-- An entry after setting a key is the new one or was there before. -/
theorem eq_or_mem_of_mem_setEntry {k : κ} {v : β} {es : List (κ × β)} {e : κ × β}
    (h : e ∈ setEntry k v es) : e = (k, v) ∨ e ∈ es := by
  induction es with
  | nil => exact .inl (List.mem_singleton.mp h)
  | cons x es ih =>
    rw [setEntry] at h
    split at h
    · exact (List.mem_cons.mp h).imp_right (List.mem_cons_of_mem _)
    · rcases List.mem_cons.mp h with rfl | h
      · exact .inr List.mem_cons_self
      · exact (ih h).imp_right (List.mem_cons_of_mem _)

/-- The entries of the map of a list are entries of the list. -/
theorem mem_of_mem_entries_ofList {es : List (κ × β)} {e : κ × β} (h : e ∈ (ofList es).entries) :
    e ∈ es := by
  have hall : ∀ (es : List (κ × β)) (m : OrderedMap κ β), e ∈ (m.setAll es).entries →
      e ∈ m.entries ∨ e ∈ es := by
    intro es
    induction es with
    | nil => exact fun m h => .inl h
    | cons x es ih =>
      intro m h
      rw [setAll_cons] at h
      rcases ih _ h with h | h
      · rcases eq_or_mem_of_mem_setEntry h with h | h
        · exact .inr (h ▸ List.mem_cons_self)
        · exact .inl h
      · exact .inr (List.mem_cons_of_mem _ h)
  exact (hall es empty h).resolve_left List.not_mem_nil

/-- The map of a list with distinct keys does not depend on the order of the list. -/
theorem get?_ofList_of_perm {es es' : List (κ × β)} (h : es.Perm es')
    (hes : (es.map Prod.fst).Nodup) (k : κ) : (ofList es).get? k = (ofList es').get? k := by
  apply Option.ext
  intro v
  rw [get?_eq_some_iff, get?_eq_some_iff, entries_ofList hes,
    entries_ofList ((h.map Prod.fst).nodup_iff.mp hes), h.mem_iff]

/-- A map is that of its entries, in whatever order they are listed. -/
theorem get?_ofList_of_perm_entries {es : List (κ × β)} {m : OrderedMap κ β}
    (h : es.Perm m.entries) (k : κ) : (ofList es).get? k = m.get? k := by
  apply Option.ext
  intro v
  rw [get?_eq_some_iff, get?_eq_some_iff, entries_ofList ((h.map Prod.fst).nodup_iff.mpr m.nodup),
    h.mem_iff]

/-- Maps that agree on every key have the same entries, up to their order. -/
theorem perm_of_get?_eq {m n : OrderedMap κ β} (h : ∀ k, m.get? k = n.get? k) :
    m.entries.Perm n.entries := by
  refine (List.perm_ext_iff_of_nodup (List.Nodup.of_map _ m.nodup)
    (List.Nodup.of_map _ n.nodup)).mpr fun e => ?_
  rw [← get?_eq_some_iff, ← get?_eq_some_iff, h]

/-! ### Values that are updated one after another -/

/-- Updating the values of keys is, at each key, updating its value by what has the key. -/
theorem get?_foldl_update {α : Type*} (key : α → κ) (f : Option β → α → β) (as : List α)
    (m : OrderedMap κ β) (k : κ) :
    (as.foldl (fun m a => m.set (key a) (f (m.get? (key a)) a)) m).get? k =
      (as.filter fun a => key a = k).foldl (fun v a => some (f v a)) (m.get? k) := by
  induction as generalizing m with
  | nil => rfl
  | cons a as ih =>
    rw [List.foldl_cons, ih]
    by_cases ha : key a = k
    · rw [List.filter_cons_of_pos (by simpa using ha), List.foldl_cons, ha, get?_set_self]
    · rw [List.filter_cons_of_neg (by simpa using ha), get?_set_ne _ (Ne.symm ha)]

/-- What an update makes true of a value, and later updates keep, is true of the value of its key. -/
theorem get?_foldl_update_of_mem {α : Type*} (key : α → κ) (f : Option β → α → β)
    {P : α → β → Prop} (hnew : ∀ v a, P a (f v a)) (hkeep : ∀ v a b, P a v → P a (f (some v) b))
    {as : List α} {a : α} (ha : a ∈ as) (m : OrderedMap κ β) :
    ∃ v, (as.foldl (fun m a => m.set (key a) (f (m.get? (key a)) a)) m).get? (key a) = some v ∧
      P a v := by
  rw [get?_foldl_update]
  have hfold : ∀ (bs : List α) (v : Option β), a ∈ bs ∨ (∃ w, v = some w ∧ P a w) →
      ∃ w, bs.foldl (fun v b => some (f v b)) v = some w ∧ P a w := by
    intro bs
    induction bs with
    | nil => exact fun v h => h.resolve_left List.not_mem_nil
    | cons b bs ih =>
      intro v h
      refine ih _ ?_
      rcases h with h | ⟨w, rfl, hw⟩
      · rcases List.mem_cons.mp h with rfl | h
        · exact .inr ⟨_, rfl, hnew v a⟩
        · exact .inl h
      · exact .inr ⟨_, rfl, hkeep w a b hw⟩
  exact hfold _ _ (.inl (List.mem_filter.mpr ⟨ha, by simp⟩))

end OrderedMap

end Procinsh
