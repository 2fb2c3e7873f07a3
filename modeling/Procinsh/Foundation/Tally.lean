import Procinsh.Foundation.OrderedMap
import Procinsh.Foundation.Saturating
import Mathlib.Data.List.Induction
import Mathlib.Data.List.Count

/-!
# Bounded tallies

A tally combines the values of each key of a stream of items in a table, and counts what it drops
once the table is full.  A tally that looks a key up before it asks whether the table is full drops
only items of keys that are not in the table: what it reports for a key are all values of that key.
A tally that asks first drops every item behind a prefix of the stream, also those of keys in its
table; what it reports for a key are all its values exactly if no such key occurs behind the prefix.
-/

namespace Procinsh

variable {κ β γ : Type*} [DecidableEq κ]

/-! ## Distinct keys -/

/-- The keys of a list in the order in which they first occur. -/
def distinct (keys : List κ) : List κ :=
  keys.foldl (fun seen k => if k ∈ seen then seen else seen ++ [k]) []

@[simp] theorem distinct_nil : distinct ([] : List κ) = [] := rfl

theorem distinct_concat (keys : List κ) (k : κ) :
    distinct (keys ++ [k]) = if k ∈ distinct keys then distinct keys else distinct keys ++ [k] := by
  rw [distinct, List.foldl_append]
  rfl

theorem mem_distinct {keys : List κ} {k : κ} : k ∈ distinct keys ↔ k ∈ keys := by
  induction keys using List.reverseRecOn generalizing k with
  | nil => rfl
  | append_singleton keys l ih =>
    rw [distinct_concat, List.mem_append, List.mem_singleton]
    by_cases hl : l ∈ distinct keys
    · have hmem : l ∈ keys := ih.mp hl
      rw [if_pos hl, ih]
      refine (or_iff_left_of_imp ?_).symm
      rintro rfl
      exact hmem
    · rw [if_neg hl, List.mem_append, List.mem_singleton, ih]

/-- Keys that are all different are their distinct keys. -/
theorem distinct_of_nodup {keys : List κ} (h : keys.Nodup) : distinct keys = keys := by
  induction keys using List.reverseRecOn with
  | nil => rfl
  | append_singleton keys l ih =>
    obtain ⟨hkeys, -, hl⟩ := List.nodup_append.mp h
    have hnew : l ∉ keys := fun hmem => hl l hmem l (List.mem_singleton_self l) rfl
    rw [distinct_concat, ih hkeys, if_neg hnew]

/-- Later keys do not change the keys before them. -/
theorem distinct_prefix_append (keys later : List κ) :
    distinct keys <+: distinct (keys ++ later) := by
  induction later using List.reverseRecOn with
  | nil =>
    rw [List.append_nil]
  | append_singleton later k ih =>
    rw [← List.append_assoc, distinct_concat]
    split
    · exact ih
    · exact ih.trans (List.prefix_append _ _)

/-- No key among the first `bound` distinct keys occurs again behind them. -/
def NoLateKey (bound : ℕ) (keys : List κ) : Prop :=
  ∀ before k later, keys = before ++ k :: later → bound ≤ (distinct before).length →
    k ∉ (distinct before).take bound

theorem NoLateKey.of_append {bound : ℕ} {keys later : List κ} (h : NoLateKey bound (keys ++ later)) :
    NoLateKey bound keys := by
  intro before k rest hkeys
  refine h before k (rest ++ later) ?_
  rw [hkeys, List.append_assoc, List.cons_append]

/-! ## The values of a key -/

variable (init : γ → β) (add : β → γ → β)

/-- A value added to what there is of its key. -/
def addTo (total : Option β) (v : γ) : β :=
  match total with
  | none => init v
  | some t => add t v

/-- The values of a key in a list of items, combined. -/
def collect (items : List (κ × γ)) (k : κ) : Option β :=
  items.foldl (fun total e => if e.1 = k then some (addTo init add total e.2) else total) none

variable {init add}

theorem collect_concat (items : List (κ × γ)) (e : κ × γ) (k : κ) :
    collect init add (items ++ [e]) k =
      if e.1 = k then some (addTo init add (collect init add items k) e.2)
      else collect init add items k := by
  rw [collect, List.foldl_append]
  rfl

variable (init add) in
theorem collect_eq_none_iff {items : List (κ × γ)} {k : κ} :
    collect init add items k = none ↔ k ∉ items.map Prod.fst := by
  induction items using List.reverseRecOn with
  | nil => exact iff_of_true rfl List.not_mem_nil
  | append_singleton items e ih =>
    rw [collect_concat, List.map_append, List.mem_append, not_or]
    by_cases he : e.1 = k
    · rw [if_pos he]
      refine iff_of_false (by simp) fun h => h.2 ?_
      exact List.mem_singleton.mpr he.symm
    · rw [if_neg he, ih]
      refine (and_iff_left ?_).symm
      exact fun hk => he (List.mem_singleton.mp hk).symm

/-- A key of which nothing is collected has no items. -/
theorem filter_eq_nil_of_collect {items : List (κ × γ)} {k : κ}
    (h : collect init add items k = none) : items.filter (fun e => e.1 = k) = [] := by
  rw [List.filter_eq_nil_iff]
  intro x hx hk
  have hmem := List.mem_map_of_mem (f := Prod.fst) hx
  rw [of_decide_eq_true hk] at hmem
  exact (collect_eq_none_iff init add).mp h hmem

/-- A number that is added up with saturation is the sum over the items of the key. -/
theorem saturating_collect {f : β → UInt64} {g : γ → UInt64} (hinit : ∀ v, f (init v) = g v)
    (hadd : ∀ t v, f (add t v) = saturatingAdd (f t) (g v)) {items : List (κ × γ)} {k : κ} {v : β}
    (h : collect init add items k = some v) :
    (f v).toNat = saturatedSum ((items.filter fun e => e.1 = k).map fun e => g e.2) := by
  induction items using List.reverseRecOn generalizing v with
  | nil => exact nomatch h
  | append_singleton items e ih =>
    rw [collect_concat] at h
    rw [List.filter_append, List.map_append]
    by_cases he : e.1 = k
    · rw [if_pos he, Option.some_inj] at h
      rw [List.filter_singleton, decide_eq_true he, cond_true, List.map_singleton,
        saturatedSum_concat, ← h]
      cases hprior : collect init add items k with
      | none =>
        have hlt := (g e.2).toNat_lt
        rw [filter_eq_nil_of_collect hprior, addTo, hinit]
        change _ = min (0 + (g e.2).toNat) _
        omega
      | some t => rw [addTo, hadd, toNat_saturatingAdd, ih hprior]
    · rw [if_neg he] at h
      rw [List.filter_singleton, decide_eq_false he, cond_false, List.map_nil, List.append_nil]
      exact ih h

/-- A measure that grows by what each value adds, as long as the sum stays below a bound, is the sum
over the items of the key. -/
theorem sum_collect {f : β → ℕ} {g : γ → ℕ} {n : ℕ} (hinit : ∀ v, g v < n → f (init v) = g v)
    (hadd : ∀ t v, f t + g v < n → f (add t v) = f t + g v) {items : List (κ × γ)} {k : κ} {v : β}
    (h : collect init add items k = some v)
    (hn : ((items.filter fun e => e.1 = k).map fun e => g e.2).sum < n) :
    f v = ((items.filter fun e => e.1 = k).map fun e => g e.2).sum := by
  induction items using List.reverseRecOn generalizing v with
  | nil => exact nomatch h
  | append_singleton items e ih =>
    rw [collect_concat] at h
    rw [List.filter_append, List.map_append, List.sum_append] at hn ⊢
    by_cases he : e.1 = k
    · rw [if_pos he, Option.some_inj] at h
      rw [List.filter_singleton, decide_eq_true he, cond_true, List.map_singleton,
        List.sum_singleton] at hn ⊢
      rw [← h]
      cases hprior : collect init add items k with
      | none =>
        rw [filter_eq_nil_of_collect hprior, List.map_nil, List.sum_nil, Nat.zero_add] at hn ⊢
        exact hinit _ hn
      | some t =>
        have ht := ih hprior (Nat.lt_of_le_of_lt (Nat.le_add_right _ _) hn)
        rw [addTo, ← ht]
        exact hadd _ _ (ht ▸ hn)
    · rw [if_neg he] at h
      rw [List.filter_singleton, decide_eq_false he, cond_false, List.map_nil, List.sum_nil,
        Nat.add_zero] at hn ⊢
      exact ih h hn

/-! ## Tables of values -/

variable (init add)

/-- Adds an item to a table. -/
def accumulate (m : OrderedMap κ β) (e : κ × γ) : OrderedMap κ β :=
  m.set e.1 (addTo init add (m.get? e.1) e.2)

variable {init add}

theorem get?_accumulate (m : OrderedMap κ β) (e : κ × γ) (k : κ) :
    (accumulate init add m e).get? k =
      if e.1 = k then some (addTo init add (m.get? k) e.2) else m.get? k := by
  unfold accumulate
  by_cases he : e.1 = k
  · rw [if_pos he, ← he, OrderedMap.get?_set_self]
  · rw [if_neg he, OrderedMap.get?_set_ne _ (Ne.symm he)]

variable (init add) in
/-- The keys of a table that an item is added to. -/
theorem keys_accumulate (m : OrderedMap κ β) (e : κ × γ) :
    (accumulate init add m e).entries.map Prod.fst =
      if e.1 ∈ m.entries.map Prod.fst then m.entries.map Prod.fst
      else m.entries.map Prod.fst ++ [e.1] := by
  change (OrderedMap.setEntry e.1 _ m.entries).map Prod.fst = _
  split
  · next he => exact OrderedMap.keys_setEntry_of_mem he
  · next he =>
    rw [OrderedMap.setEntry_of_notMem he, List.map_append]
    rfl

/-- The values of a key in a table that items are added to. -/
theorem get?_foldl_accumulate (m : OrderedMap κ β) (items : List (κ × γ)) (k : κ) :
    (items.foldl (accumulate init add) m).get? k =
      items.foldl (fun total e => if e.1 = k then some (addTo init add total e.2) else total)
        (m.get? k) := by
  induction items generalizing m with
  | nil => rfl
  | cons e items ih => rw [List.foldl_cons, ih, get?_accumulate, List.foldl_cons]

/-- A table whose entries are added to what there is of a key adds at most one value. -/
theorem foldl_entries_of_key (m : OrderedMap κ γ) (total : Option β) (k : κ) :
    m.entries.foldl (fun total e => if e.1 = k then some (addTo init add total e.2) else total)
        total = (m.get? k).elim total fun v => some (addTo init add total v) := by
  rw [OrderedMap.get?]
  have hnodup := m.nodup
  generalize m.entries = es at hnodup ⊢
  induction es generalizing total with
  | nil => rfl
  | cons e es ih =>
    obtain ⟨hnew, hes⟩ := List.nodup_cons.mp hnodup
    rw [List.foldl_cons]
    by_cases he : e.1 = k
    · have hnone : es.find? (fun e => e.1 = k) = none := by
        refine List.find?_eq_none.mpr fun x hx hk => hnew ?_
        rw [he, ← of_decide_eq_true hk]
        exact List.mem_map_of_mem hx
      rw [if_pos he, ih _ hes, hnone, List.find?_cons_of_pos (by simpa using he)]
      rfl
    · rw [if_neg he, ih _ hes, List.find?_cons_of_neg (by simpa using he)]

/-- Setting a key replaces what its value adds to a sum over the values. -/
theorem OrderedMap.sum_values_set (w : β → ℕ) (m : OrderedMap κ β) (k : κ) (v : β) :
    ((m.set k v).values.map w).sum + (m.get? k).elim 0 w = (m.values.map w).sum + w v := by
  have hentries : ∀ es : List (κ × β),
      (((setEntry k v es).map Prod.snd).map w).sum +
        ((es.find? fun e => e.1 = k).map Prod.snd).elim 0 w = ((es.map Prod.snd).map w).sum + w v := by
    intro es
    induction es with
    | nil => exact Nat.add_comm (w v) 0
    | cons e es ih =>
      rw [setEntry]
      by_cases he : e.1 = k
      · have hfind : (e :: es).find? (fun e => e.1 = k) = some e :=
          List.find?_cons_of_pos (decide_eq_true he)
        rw [if_pos he, hfind]
        change w v + ((es.map Prod.snd).map w).sum + w e.2 =
          w e.2 + ((es.map Prod.snd).map w).sum + w v
        omega
      · have hfind : (e :: es).find? (fun e => e.1 = k) = es.find? fun e => e.1 = k :=
          List.find?_cons_of_neg (mt of_decide_eq_true he)
        rw [if_neg he, hfind]
        exact (Nat.add_assoc _ _ _).trans ((congrArg (w e.2 + ·) ih).trans (Nat.add_assoc _ _ _).symm)
  exact hentries m.entries

/-! ## Tallies -/

/-- Combined values by key, and how many items were dropped. -/
structure Tally (κ β : Type*) [DecidableEq κ] where
  table : OrderedMap κ β
  dropped : ℕ

namespace Tally

/-- A tally of nothing. -/
def empty : Tally κ β := ⟨.empty, 0⟩

variable (init add)

/-- Adds an item to the table. -/
def put (t : Tally κ β) (e : κ × γ) : Tally κ β :=
  { t with table := accumulate init add t.table e }

/-- Drops an item. -/
def drop (t : Tally κ β) : Tally κ β := { t with dropped := t.dropped + 1 }

/-- Adds an item whose key is in the table, or fits. -/
def record (bound : ℕ) (t : Tally κ β) (e : κ × γ) : Tally κ β :=
  if (t.table.get? e.1).isSome ∨ t.table.entries.length < bound then put init add t e else drop t

/-- Adds an item unless the table is full. -/
def recordUnlessFull (bound : ℕ) (t : Tally κ β) (e : κ × γ) : Tally κ β :=
  if bound ≤ t.table.entries.length then drop t else put init add t e

variable {init add}

theorem length_le_length_put (t : Tally κ β) (e : κ × γ) :
    t.table.entries.length ≤ (put init add t e).table.entries.length := by
  have hkeys := congrArg List.length (keys_accumulate init add t.table e)
  rw [List.length_map] at hkeys
  rw [put, hkeys]
  split
  · exact Nat.le_of_eq (List.length_map _).symm
  · rw [List.length_append, List.length_map]
    exact Nat.le_add_right _ _

/-! ### Complete and exact tallies -/

/-- A tally reports all values of all keys of the items. -/
def Complete (init : γ → β) (add : β → γ → β) (t : Tally κ β) (items : List (κ × γ)) : Prop :=
  ∀ k, t.table.get? k = collect init add items k

/-- A tally reports all values of each key that it reports. -/
def Exact (init : γ → β) (add : β → γ → β) (t : Tally κ β) (items : List (κ × γ)) : Prop :=
  ∀ k v, t.table.get? k = some v → collect init add items k = some v

theorem Complete.exact {t : Tally κ β} {items : List (κ × γ)} (h : Complete init add t items) :
    Exact init add t items := fun k _ hv => (h k).symm.trans hv

theorem complete_empty : Complete init add (empty : Tally κ β) [] := fun _ => rfl

theorem Complete.put {t : Tally κ β} {items : List (κ × γ)} (h : Complete init add t items)
    (e : κ × γ) : Complete init add (put init add t e) (items ++ [e]) := by
  intro k
  rw [Tally.put, get?_accumulate, collect_concat, h k]

/-- An item of a reported key, or of a key without items, leaves a tally exact. -/
theorem Exact.put {t : Tally κ β} {items : List (κ × γ)} (h : Exact init add t items) {e : κ × γ}
    (he : (t.table.get? e.1).isSome ∨ Complete init add t items) :
    Exact init add (put init add t e) (items ++ [e]) := by
  rcases he with he | hall
  · intro k v hv
    rw [Tally.put, get?_accumulate] at hv
    rw [collect_concat]
    by_cases hk : e.1 = k
    · obtain ⟨w, hw⟩ := Option.isSome_iff_exists.mp he
      rw [← hk] at hv ⊢
      rw [if_pos rfl, hw] at hv
      rw [if_pos rfl, h _ w hw]
      exact hv
    · rw [if_neg hk] at hv ⊢
      exact h k v hv
  · exact (hall.put e).exact

/-- An item that is dropped leaves a tally exact if its key is not reported. -/
theorem Exact.drop {t : Tally κ β} {items : List (κ × γ)} (h : Exact init add t items) {e : κ × γ}
    (he : t.table.get? e.1 = none) : Exact init add (drop t) (items ++ [e]) := by
  intro k v hv
  have hk : e.1 ≠ k := by
    rintro rfl
    exact nomatch he.symm.trans hv
  rw [collect_concat, if_neg hk]
  exact h k v hv

/-! ### Looking up first -/

variable (init add) in
/-- What a tally that looks up first reports for a key are all values of that key, and it reports
all keys until it is full. -/
theorem record_exact (bound : ℕ) (items : List (κ × γ)) :
    Exact init add (items.foldl (record init add bound) empty) items ∧
      ((items.foldl (record init add bound) empty).table.entries.length < bound →
        Complete init add (items.foldl (record init add bound) empty) items) := by
  induction items using List.reverseRecOn with
  | nil => exact ⟨complete_empty.exact, fun _ => complete_empty⟩
  | append_singleton items e ih =>
    obtain ⟨hexact, hall⟩ := ih
    rw [List.foldl_append, List.foldl_cons, List.foldl_nil]
    generalize items.foldl (record init add bound) empty = t at hexact hall
    unfold record
    split
    · next he =>
      refine ⟨hexact.put (he.imp_right hall), fun hlen => (hall ?_).put e⟩
      exact Nat.lt_of_le_of_lt (length_le_length_put t e) hlen
    · next he =>
      obtain ⟨hnone, hfull⟩ := not_or.mp he
      refine ⟨hexact.drop (Option.not_isSome_iff_eq_none.mp hnone), fun hlen => ?_⟩
      exact absurd hlen hfull

variable (init add) in
/-- A tally that looks up first drops the items of the keys that it does not report. -/
theorem record_dropped (bound : ℕ) (items : List (κ × γ)) :
    (items.foldl (record init add bound) empty).dropped =
      items.countP fun e =>
        ((items.foldl (record init add bound) empty).table.get? e.1).isNone := by
  induction items using List.reverseRecOn with
  | nil => rfl
  | append_singleton items e ih =>
    have hall := (record_exact init add bound items).2
    rw [List.foldl_append, List.foldl_cons, List.foldl_nil, List.countP_append]
    generalize items.foldl (record init add bound) empty = t at ih hall
    unfold record
    split
    · next he =>
      -- A key that is new to the table has no items before, none of which was dropped.
      have hkeys : ∀ x ∈ items, ((put init add t e).table.get? x.1).isNone =
          (t.table.get? x.1).isNone := by
        intro x hx
        rw [put, get?_accumulate]
        by_cases hk : e.1 = x.1
        · have hsome : (t.table.get? x.1).isSome := by
            rcases he with he | hlen
            · exact hk ▸ he
            · rw [hall hlen, Option.isSome_iff_ne_none, Ne, collect_eq_none_iff init add, not_not]
              exact List.mem_map_of_mem hx
          rw [if_pos hk, Option.isNone_some, Option.isNone_eq_false_iff.mpr hsome]
        · rw [if_neg hk]
      have hnew : ((put init add t e).table.get? e.1).isNone = false := by
        rw [put, get?_accumulate, if_pos rfl, Option.isNone_some]
      rw [List.countP_congr fun x hx => by rw [hkeys x hx], ← ih, List.countP_singleton, hnew]
      rfl
    · next he =>
      have hnone : ((drop t).table.get? e.1).isNone = true :=
        Option.isNone_iff_eq_none.mpr (Option.not_isSome_iff_eq_none.mp (not_or.mp he).1)
      rw [List.countP_singleton, hnone, if_pos rfl]
      exact congrArg (· + 1) ih

/-! ### Asking first whether the table is full -/

theorem recordUnlessFull_of_full {bound : ℕ} {t : Tally κ β}
    (hfull : bound ≤ t.table.entries.length) (e : κ × γ) :
    recordUnlessFull init add bound t e = drop t := if_pos hfull

variable (init add) in
/-- The table has the first distinct keys of the items. -/
theorem keys_recordUnlessFull (bound : ℕ) (items : List (κ × γ)) :
    (items.foldl (recordUnlessFull init add bound) empty).table.entries.map Prod.fst =
      (distinct (items.map Prod.fst)).take bound := by
  induction items using List.reverseRecOn with
  | nil => exact List.take_nil.symm
  | append_singleton items e ih =>
    rw [List.foldl_append, List.foldl_cons, List.foldl_nil, List.map_append, List.map_singleton]
    generalize items.foldl (recordUnlessFull init add bound) empty = t at ih
    have hlen := congrArg List.length ih
    rw [List.length_map, List.length_take] at hlen
    unfold recordUnlessFull
    split
    · next hfull =>
      have hbound : bound ≤ (distinct (items.map Prod.fst)).length := by omega
      obtain ⟨rest, hrest⟩ := distinct_prefix_append (items.map Prod.fst) [e.1]
      rw [← hrest, List.take_append_of_le_length hbound]
      exact ih
    · next hspace =>
      have hbound : (distinct (items.map Prod.fst)).length < bound := by omega
      rw [List.take_of_length_le (Nat.le_of_lt hbound)] at ih
      rw [put, keys_accumulate, ih, distinct_concat, List.take_of_length_le]
      split
      · exact Nat.le_of_lt hbound
      · rw [List.length_append]
        exact hbound

variable (init add) in
/-- As long as no key of the table occurs behind the items that filled it, what a tally reports for
a key are all values of that key. -/
theorem recordUnlessFull_exact {bound : ℕ} {items : List (κ × γ)}
    (h : NoLateKey bound (items.map Prod.fst)) :
    Exact init add (items.foldl (recordUnlessFull init add bound) empty) items ∧
      ((items.foldl (recordUnlessFull init add bound) empty).table.entries.length < bound →
        Complete init add (items.foldl (recordUnlessFull init add bound) empty) items) := by
  induction items using List.reverseRecOn with
  | nil => exact ⟨complete_empty.exact, fun _ => complete_empty⟩
  | append_singleton items e ih =>
    rw [List.map_append, List.map_singleton] at h
    obtain ⟨hexact, hall⟩ := ih h.of_append
    have hkeys := keys_recordUnlessFull init add bound items
    rw [List.foldl_append, List.foldl_cons, List.foldl_nil]
    generalize items.foldl (recordUnlessFull init add bound) empty = t at hexact hall hkeys
    unfold recordUnlessFull
    split
    · next hfull =>
      have hlen := congrArg List.length hkeys
      rw [List.length_map, List.length_take] at hlen
      have hlate : e.1 ∉ (distinct (items.map Prod.fst)).take bound :=
        h _ _ [] rfl (by omega)
      refine ⟨hexact.drop ?_, fun hspace => absurd hspace (Nat.not_lt.mpr hfull)⟩
      exact OrderedMap.get?_eq_none_iff.mpr (hkeys ▸ hlate)
    · next hspace =>
      have hcomplete := (hall (Nat.not_le.mp hspace)).put e
      exact ⟨hcomplete.exact, fun _ => hcomplete⟩

/-- Items behind a full table do not change it. -/
theorem table_foldl_of_full {bound : ℕ} {t : Tally κ β} (hfull : bound ≤ t.table.entries.length)
    (items : List (κ × γ)) :
    (items.foldl (recordUnlessFull init add bound) t).table = t.table := by
  induction items generalizing t with
  | nil => rfl
  | cons e items ih =>
    rw [List.foldl_cons, recordUnlessFull_of_full hfull]
    exact ih (t := drop t) hfull

/-! ### How many items a value stands for -/

section Weight

variable {weight : β → ℕ} (hinit : ∀ v, weight (init v) = 1)
  (hadd : ∀ t v, weight (add t v) = weight t + 1)

include hinit hadd

theorem weight_collect {items : List (κ × γ)} {k : κ} {v : β}
    (h : collect init add items k = some v) : weight v = items.countP fun e => e.1 = k := by
  induction items using List.reverseRecOn generalizing v with
  | nil => exact nomatch h
  | append_singleton items e ih =>
    rw [collect_concat] at h
    rw [List.countP_append, List.countP_singleton]
    by_cases he : e.1 = k
    · rw [if_pos he, Option.some_inj] at h
      rw [if_pos (decide_eq_true he), ← h]
      cases hprior : collect init add items k with
      | none =>
        have hnone : (items.countP fun e => e.1 = k) = 0 := by
          rw [List.countP_eq_length_filter, filter_eq_nil_of_collect hprior]
          rfl
        rw [hnone]
        exact hinit _
      | some t => rw [addTo, hadd, ih hprior]
    · rw [if_neg he] at h
      rw [if_neg (mt of_decide_eq_true he), ih h, Nat.add_zero]

/-- An item that is added makes the values stand for one item more. -/
theorem sum_weight_put (t : Tally κ β) (e : κ × γ) :
    ((put init add t e).table.values.map weight).sum = (t.table.values.map weight).sum + 1 := by
  have hset := OrderedMap.sum_values_set weight t.table e.1 (addTo init add (t.table.get? e.1) e.2)
  change ((t.table.set e.1 _).values.map weight).sum = _
  cases hprior : t.table.get? e.1 with
  | none =>
    rw [hprior, addTo, hinit] at hset
    exact hset
  | some total =>
    rw [hprior, addTo, hadd, Option.elim_some] at hset
    rw [addTo]
    omega

/-- No value stands for more items than there are of its key. -/
theorem weight_recordUnlessFull_le (bound : ℕ) (items : List (κ × γ)) {k : κ} {v : β}
    (h : (items.foldl (recordUnlessFull init add bound) empty).table.get? k = some v) :
    weight v ≤ items.countP fun e => e.1 = k := by
  induction items using List.reverseRecOn generalizing v with
  | nil => exact nomatch h
  | append_singleton items e ih =>
    rw [List.foldl_append, List.foldl_cons, List.foldl_nil] at h
    rw [List.countP_append, List.countP_singleton]
    generalize items.foldl (recordUnlessFull init add bound) empty = t at ih h
    unfold recordUnlessFull at h
    split at h
    · exact Nat.le_add_right_of_le (ih h)
    · rw [put, get?_accumulate] at h
      by_cases he : e.1 = k
      · rw [if_pos he, Option.some_inj] at h
        rw [← h, if_pos (decide_eq_true he)]
        cases hprior : t.table.get? k with
        | none => exact Nat.le_trans (Nat.le_of_eq (hinit e.2)) (Nat.le_add_left _ _)
        | some total =>
          rw [addTo, hadd]
          exact Nat.succ_le_succ (ih hprior)
      · rw [if_neg he] at h
        exact Nat.le_add_right_of_le (ih h)

/-- If each reported value stands for all items of its key, no key of the table occurs behind the
items that filled it. -/
theorem noLateKey_of_weight {bound : ℕ} {items : List (κ × γ)}
    (h : ∀ k v, (items.foldl (recordUnlessFull init add bound) empty).table.get? k = some v →
      weight v = items.countP fun e => e.1 = k) : NoLateKey bound (items.map Prod.fst) := by
  intro before k later hitems hbound hk
  obtain ⟨taken, rest, rfl, rfl, hrest⟩ := List.map_eq_append_iff.mp hitems
  obtain ⟨e, late, rfl, rfl, rfl⟩ := List.map_eq_cons_iff.mp hrest
  have hkeys := keys_recordUnlessFull init add bound taken
  have hlen := congrArg List.length hkeys
  rw [List.length_map, List.length_take, Nat.min_eq_left hbound] at hlen
  rw [List.foldl_append, table_foldl_of_full (Nat.le_of_eq hlen.symm)] at h
  rw [← hkeys] at hk
  obtain ⟨v, hv⟩ := Option.ne_none_iff_exists'.mp (mt OrderedMap.get?_eq_none_iff.mp (not_not.mpr hk))
  have hle := weight_recordUnlessFull_le hinit hadd bound taken hv
  have hall := h _ v hv
  have hlate : 0 < (e :: late).countP fun x => x.1 = e.1 :=
    List.countP_pos_iff.mpr ⟨e, List.mem_cons_self, decide_eq_true rfl⟩
  rw [List.countP_append] at hall
  omega

/-- The reported values and the dropped items are all items. -/
theorem sum_weight_recordUnlessFull (bound : ℕ) (items : List (κ × γ)) :
    ((items.foldl (recordUnlessFull init add bound) empty).table.values.map weight).sum +
      (items.foldl (recordUnlessFull init add bound) empty).dropped = items.length := by
  induction items using List.reverseRecOn with
  | nil => rfl
  | append_singleton items e ih =>
    rw [List.foldl_append, List.foldl_cons, List.foldl_nil, List.length_append,
      List.length_singleton, ← ih]
    generalize items.foldl (recordUnlessFull init add bound) empty = t
    unfold recordUnlessFull
    split
    · exact (Nat.add_assoc _ _ _).symm
    · have hput := sum_weight_put hinit hadd t e
      change _ + t.dropped = _
      omega

end Weight

end Tally

end Procinsh
