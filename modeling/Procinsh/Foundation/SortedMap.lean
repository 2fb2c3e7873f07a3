import Mathlib.Data.List.Pairwise
import Mathlib.Order.Lattice

/-!
# Finite maps in ascending key order

A `SortedMap` is a finite map given by the list of its entries in strictly ascending key order.
The order is a field of the structure, so two entries of one map never share a key.  The
operations are those of an ordered tree map: lookup, insertion that replaces, removal, and
retaining the entries that satisfy a test.
-/

namespace Procinsh

/-- A finite map as the list of its entries, in strictly ascending key order. -/
structure SortedMap (κ β : Type*) [LinearOrder κ] where
  /-- The entries. -/
  entries : List (κ × β)
  /-- Every key is greater than the keys before it. -/
  ascending : entries.Pairwise fun a b => a.1 < b.1

namespace SortedMap

variable {κ β : Type*} [LinearOrder κ]

/-- Insertion into the list of entries: the entry of an equal key is replaced. -/
def insertEntry (k : κ) (v : β) : List (κ × β) → List (κ × β)
  | [] => [(k, v)]
  | e :: es =>
    if k < e.1 then (k, v) :: e :: es
    else if k = e.1 then (k, v) :: es
    else e :: insertEntry k v es

/-- The entries after an insertion are the new one and the old ones under other keys. -/
theorem mem_insertEntry {k : κ} {v : β} {es : List (κ × β)}
    (hes : es.Pairwise fun a b => a.1 < b.1) {e : κ × β} :
    e ∈ insertEntry k v es ↔ e = (k, v) ∨ (e ∈ es ∧ e.1 ≠ k) := by
  induction es with
  | nil => simp [insertEntry]
  | cons a es ih =>
    obtain ⟨ha, hes⟩ := List.pairwise_cons.mp hes
    rw [insertEntry]
    split
    · next hlt =>
      constructor
      · intro he
        rcases List.mem_cons.mp he with rfl | he
        · exact Or.inl rfl
        · refine Or.inr ⟨he, ?_⟩
          rcases List.mem_cons.mp he with rfl | he
          · exact hlt.ne'
          · exact (hlt.trans (ha _ he)).ne'
      · rintro (rfl | ⟨he, -⟩)
        · exact List.mem_cons_self
        · exact List.mem_cons_of_mem _ he
    · next hlt =>
      split
      · next heq =>
        subst heq
        constructor
        · intro he
          rcases List.mem_cons.mp he with rfl | he
          · exact Or.inl rfl
          · exact Or.inr ⟨List.mem_cons_of_mem _ he, (ha _ he).ne'⟩
        · rintro (rfl | ⟨he, hne⟩)
          · exact List.mem_cons_self
          · rcases List.mem_cons.mp he with rfl | he
            · exact absurd rfl hne
            · exact List.mem_cons_of_mem _ he
      · next hne =>
        rw [List.mem_cons, ih hes, List.mem_cons]
        constructor
        · rintro (rfl | rfl | ⟨he, hek⟩)
          · exact Or.inr ⟨Or.inl rfl, Ne.symm hne⟩
          · exact Or.inl rfl
          · exact Or.inr ⟨Or.inr he, hek⟩
        · rintro (rfl | ⟨rfl | he, hek⟩)
          · exact Or.inr (Or.inl rfl)
          · exact Or.inl rfl
          · exact Or.inr (Or.inr ⟨he, hek⟩)

/-- Insertion keeps the keys ascending. -/
theorem insertEntry_ascending {k : κ} {v : β} {es : List (κ × β)}
    (hes : es.Pairwise fun a b => a.1 < b.1) :
    (insertEntry k v es).Pairwise fun a b => a.1 < b.1 := by
  induction es with
  | nil => simp [insertEntry]
  | cons a es ih =>
    obtain ⟨ha, htail⟩ := List.pairwise_cons.mp hes
    rw [insertEntry]
    split
    · next hlt =>
      refine List.pairwise_cons.mpr ⟨fun b hb => ?_, hes⟩
      rcases List.mem_cons.mp hb with rfl | hb
      · exact hlt
      · exact hlt.trans (ha b hb)
    · next hlt =>
      split
      · next heq =>
        subst heq
        exact List.pairwise_cons.mpr ⟨ha, htail⟩
      · next hne =>
        refine List.pairwise_cons.mpr ⟨fun b hb => ?_, ih htail⟩
        rcases (mem_insertEntry htail).mp hb with rfl | ⟨hb, -⟩
        · exact lt_of_le_of_ne (not_lt.mp hlt) (Ne.symm hne)
        · exact ha b hb

/-- The map without entries. -/
def empty : SortedMap κ β := ⟨[], List.Pairwise.nil⟩

instance : EmptyCollection (SortedMap κ β) := ⟨empty⟩

instance : Inhabited (SortedMap κ β) := ⟨empty⟩

/-- The value under a key. -/
def get? (m : SortedMap κ β) (k : κ) : Option β :=
  (m.entries.find? fun e => e.1 == k).map Prod.snd

/-- Insertion; an existing entry of the key is replaced. -/
def insert (m : SortedMap κ β) (k : κ) (v : β) : SortedMap κ β :=
  ⟨insertEntry k v m.entries, insertEntry_ascending m.ascending⟩

/-- The entries that satisfy the test. -/
def filter (m : SortedMap κ β) (p : κ → β → Bool) : SortedMap κ β :=
  ⟨m.entries.filter fun e => p e.1 e.2, m.ascending.filter _⟩

/-- The map with other values under the same keys. -/
def mapEntries {γ : Type*} (m : SortedMap κ β) (f : κ → β → γ) : SortedMap κ γ :=
  ⟨m.entries.map fun e => (e.1, f e.1 e.2), List.pairwise_map.mpr m.ascending⟩

/-- Removal of a key. -/
def erase (m : SortedMap κ β) (k : κ) : SortedMap κ β := m.filter fun k' _ => k' ≠ k

/-- The number of entries. -/
def size (m : SortedMap κ β) : ℕ := m.entries.length

/-- The keys in ascending order. -/
def keys (m : SortedMap κ β) : List κ := m.entries.map Prod.fst

/-! ### Entries and lookups -/

/-- In a list with ascending keys, the search for a key finds the entry of that key. -/
theorem find?_eq_some_iff {k : κ} {es : List (κ × β)} (hes : es.Pairwise fun a b => a.1 < b.1)
    {e : κ × β} : (es.find? fun e => e.1 == k) = some e ↔ e ∈ es ∧ e.1 = k := by
  induction es with
  | nil => simp
  | cons a es ih =>
    obtain ⟨ha, htail⟩ := List.pairwise_cons.mp hes
    rw [List.find?_cons]
    by_cases hk : a.1 = k
    · simp only [beq_iff_eq.mpr hk, Option.some.injEq, List.mem_cons]
      constructor
      · rintro rfl
        exact ⟨Or.inl rfl, hk⟩
      · rintro ⟨rfl | he, hek⟩
        · rfl
        · exact absurd (hk.trans hek.symm) (ha _ he).ne
    · simp only [beq_eq_false_iff_ne.mpr hk, ih htail, List.mem_cons]
      constructor
      · rintro ⟨he, hek⟩
        exact ⟨Or.inr he, hek⟩
      · rintro ⟨rfl | he, hek⟩
        · exact absurd hek hk
        · exact ⟨he, hek⟩

/-- A lookup finds exactly the entries of the map. -/
theorem get?_eq_some_iff {m : SortedMap κ β} {k : κ} {v : β} :
    m.get? k = some v ↔ (k, v) ∈ m.entries := by
  rw [get?, Option.map_eq_some_iff]
  constructor
  · rintro ⟨⟨k', v'⟩, he, rfl⟩
    obtain ⟨hmem, rfl⟩ := (find?_eq_some_iff m.ascending).mp he
    exact hmem
  · intro he
    exact ⟨(k, v), (find?_eq_some_iff m.ascending).mpr ⟨he, rfl⟩, rfl⟩

/-- A key is absent exactly when no entry has it. -/
theorem get?_eq_none_iff {m : SortedMap κ β} {k : κ} :
    m.get? k = none ↔ ∀ v, (k, v) ∉ m.entries := by
  simp only [Option.eq_none_iff_forall_ne_some, ne_eq, get?_eq_some_iff]

/-- The keys of a map are those with an entry. -/
theorem mem_keys {m : SortedMap κ β} {k : κ} : k ∈ m.keys ↔ (m.get? k).isSome := by
  rw [keys, List.mem_map, Option.isSome_iff_exists]
  constructor
  · rintro ⟨⟨l, v⟩, he, rfl⟩
    exact ⟨v, get?_eq_some_iff.mpr he⟩
  · rintro ⟨v, hv⟩
    exact ⟨(k, v), get?_eq_some_iff.mp hv, rfl⟩

/-- No two entries have the same key. -/
theorem nodup_keys (m : SortedMap κ β) : m.keys.Nodup := by
  rw [keys, List.Nodup, List.pairwise_map]
  exact m.ascending.imp fun h => h.ne

/-- Two maps with the same lookups at a key have the same entry there. -/
private theorem get?_eq_of_forall {m n : SortedMap κ β} {k l : κ}
    (h : ∀ v, (k, v) ∈ m.entries ↔ (l, v) ∈ n.entries) : m.get? k = n.get? l := by
  ext v
  rw [get?_eq_some_iff, get?_eq_some_iff, h]

@[simp] theorem get?_empty (k : κ) : (empty : SortedMap κ β).get? k = none := rfl

@[simp] theorem entries_insert (m : SortedMap κ β) (k : κ) (v : β) :
    (m.insert k v).entries = insertEntry k v m.entries := rfl

@[simp] theorem get?_insert_self (m : SortedMap κ β) (k : κ) (v : β) :
    (m.insert k v).get? k = some v := by
  rw [get?_eq_some_iff, entries_insert, mem_insertEntry m.ascending]
  exact Or.inl rfl

@[simp] theorem get?_insert_ne (m : SortedMap κ β) {k l : κ} (v : β) (h : l ≠ k) :
    (m.insert k v).get? l = m.get? l := by
  refine get?_eq_of_forall fun w => ?_
  rw [entries_insert, mem_insertEntry m.ascending]
  simp [h]

/-- A lookup after an insertion. -/
theorem get?_insert (m : SortedMap κ β) (k l : κ) (v : β) :
    (m.insert k v).get? l = if l = k then some v else m.get? l := by
  split
  · next h => subst h; exact get?_insert_self m l v
  · next h => exact get?_insert_ne m v h

/-- A lookup among the retained entries. -/
theorem get?_filter (m : SortedMap κ β) (p : κ → β → Bool) (k : κ) :
    (m.filter p).get? k = (m.get? k).filter (p k) := by
  ext v
  rw [get?_eq_some_iff, Option.filter_eq_some_iff, get?_eq_some_iff]
  simp [filter]

@[simp] theorem get?_mapEntries {γ : Type*} (m : SortedMap κ β) (f : κ → β → γ) (k : κ) :
    (m.mapEntries f).get? k = (m.get? k).map (f k) := by
  apply Option.ext
  intro w
  rw [get?_eq_some_iff, Option.map_eq_some_iff]
  simp only [mapEntries, List.mem_map, Prod.mk.injEq]
  constructor
  · rintro ⟨e, he, rfl, rfl⟩
    exact ⟨e.2, get?_eq_some_iff.mpr he, rfl⟩
  · rintro ⟨v, hv, rfl⟩
    exact ⟨(k, v), get?_eq_some_iff.mp hv, rfl, rfl⟩

@[simp] theorem get?_erase_self (m : SortedMap κ β) (k : κ) : (m.erase k).get? k = none := by
  rw [erase, get?_filter]
  cases m.get? k <;> simp

@[simp] theorem get?_erase_ne (m : SortedMap κ β) {k l : κ} (h : l ≠ k) :
    (m.erase k).get? l = m.get? l := by
  rw [erase, get?_filter]
  cases m.get? l <;> simp [h]

/-- A lookup after a removal. -/
theorem get?_erase (m : SortedMap κ β) (k l : κ) :
    (m.erase k).get? l = if l = k then none else m.get? l := by
  split
  · next h => subst h; exact get?_erase_self m l
  · next h => exact get?_erase_ne m h

/-- Removing an absent key changes nothing. -/
theorem erase_of_get?_eq_none {m : SortedMap κ β} {k : κ} (h : m.get? k = none) :
    m.erase k = m := by
  obtain ⟨es, hes⟩ := m
  have hall : ∀ e ∈ es, e.1 ≠ k := fun e he hk =>
    get?_eq_none_iff.mp h e.2 (by subst hk; exact he)
  simpa [erase, filter] using hall

/-! ### Sizes -/

@[simp] theorem size_empty : (empty : SortedMap κ β).size = 0 := rfl

/-- Retaining entries does not add any. -/
theorem size_filter_le (m : SortedMap κ β) (p : κ → β → Bool) : (m.filter p).size ≤ m.size :=
  List.length_filter_le _ _

/-- Retaining entries keeps the number of entries only when it keeps them all. -/
theorem filter_eq_self_of_size {m : SortedMap κ β} {p : κ → β → Bool}
    (h : (m.filter p).size = m.size) : m.filter p = m := by
  obtain ⟨es, hes⟩ := m
  simp only [filter, mk.injEq]
  exact List.filter_eq_self.mpr (List.length_filter_eq_length_iff.mp h)

/-- The length of the list of entries after an insertion. -/
private theorem length_insertEntry (k : κ) (v : β) {es : List (κ × β)}
    (hes : es.Pairwise fun a b => a.1 < b.1) :
    (insertEntry k v es).length = if ∃ e ∈ es, e.1 = k then es.length else es.length + 1 := by
  induction es with
  | nil => simp [insertEntry]
  | cons a es ih =>
    obtain ⟨ha, htail⟩ := List.pairwise_cons.mp hes
    rw [insertEntry]
    split
    · next hlt =>
      have hnone : ¬ ∃ e ∈ a :: es, e.1 = k := by
        rintro ⟨e, he, rfl⟩
        rcases List.mem_cons.mp he with rfl | he
        · exact hlt.false
        · exact (hlt.trans (ha _ he)).false
      rw [if_neg hnone, List.length_cons]
    · split
      · next heq => rw [if_pos ⟨a, List.mem_cons_self, heq.symm⟩, List.length_cons, List.length_cons]
      · next hne =>
        have hiff : (∃ e ∈ a :: es, e.1 = k) ↔ ∃ e ∈ es, e.1 = k := by
          simp [Ne.symm hne]
        simp only [List.length_cons, ih htail, hiff]
        split <;> rfl

/-- Inserting under a present key keeps the number of entries. -/
theorem size_insert_of_some {m : SortedMap κ β} {k : κ} {w : β} (h : m.get? k = some w) (v : β) :
    (m.insert k v).size = m.size := by
  rw [size, entries_insert, length_insertEntry k v m.ascending,
    if_pos ⟨(k, w), get?_eq_some_iff.mp h, rfl⟩, size]

/-- Inserting under an absent key adds one entry. -/
theorem size_insert_of_none {m : SortedMap κ β} {k : κ} (h : m.get? k = none) (v : β) :
    (m.insert k v).size = m.size + 1 := by
  have hnone : ¬ ∃ e ∈ m.entries, e.1 = k := by
    rintro ⟨e, he, rfl⟩
    exact get?_eq_none_iff.mp h e.2 he
  rw [size, entries_insert, length_insertEntry k v m.ascending, if_neg hnone, size]

/-- Insertion adds at most one entry. -/
theorem size_insert_le (m : SortedMap κ β) (k : κ) (v : β) : (m.insert k v).size ≤ m.size + 1 := by
  cases h : m.get? k with
  | none => exact Nat.le_of_eq (size_insert_of_none h v)
  | some w =>
    rw [size_insert_of_some h v]
    exact Nat.le_succ _

/-- Removal does not add entries. -/
theorem size_erase_le (m : SortedMap κ β) (k : κ) : (m.erase k).size ≤ m.size :=
  size_filter_le m _

end SortedMap

end Procinsh
