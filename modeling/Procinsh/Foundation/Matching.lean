import Mathlib.Data.List.Induction
import Mathlib.Data.List.Sort
import Procinsh.Foundation.OrderedMap

/-!
# Grouping and matching

Pairs of a key and a value are grouped by their keys: `group` is the map from each key to the list of
its values, in their order.  A value is the only one of its key when that list has one item.

A one-to-one relation is symmetric and gives every element at most one partner.  Listing each of its
pairs from the smaller element gives every element at most one place, and when the list is sorted it
does not depend on the order in which the pairs were found.
-/

namespace Procinsh

variable {κ α : Type*}

/-! ## Grouping -/

section Group

variable [DecidableEq κ]

/-- The values of a key, in their order. -/
def valuesOf (k : κ) (pairs : List (κ × α)) : List α :=
  (pairs.filter fun p => p.1 = k).map Prod.snd

/-- The values by their keys. -/
def group (pairs : List (κ × α)) : OrderedMap κ (List α) :=
  pairs.foldl (fun m p => m.set p.1 ((m.get? p.1).getD [] ++ [p.2])) .empty

theorem valuesOf_append (k : κ) (pairs later : List (κ × α)) :
    valuesOf k (pairs ++ later) = valuesOf k pairs ++ valuesOf k later := by
  rw [valuesOf, List.filter_append, List.map_append]
  rfl

theorem mem_valuesOf {k : κ} {pairs : List (κ × α)} {a : α} :
    a ∈ valuesOf k pairs ↔ (k, a) ∈ pairs := by
  unfold valuesOf
  simp

/-- The values of a key are those of the pairs with the key; a key without pairs has no entry. -/
theorem get?_group (pairs : List (κ × α)) (k : κ) :
    (group pairs).get? k = if valuesOf k pairs = [] then none else some (valuesOf k pairs) := by
  induction pairs using List.reverseRecOn with
  | nil => rfl
  | append_singleton pairs p ih =>
    have hset : group (pairs ++ [p]) =
        (group pairs).set p.1 (((group pairs).get? p.1).getD [] ++ [p.2]) := List.foldl_concat ..
    rw [hset, valuesOf_append]
    by_cases hk : p.1 = k
    · subst hk
      have hsingle : valuesOf p.1 [p] = [p.2] := by simp [valuesOf]
      have hold : ((group pairs).get? p.1).getD [] = valuesOf p.1 pairs := by
        rw [ih]
        split
        · next hnil => exact hnil.symm
        · rfl
      have hne : valuesOf p.1 pairs ++ [p.2] ≠ [] :=
        List.append_ne_nil_of_right_ne_nil _ (List.cons_ne_nil _ _)
      rw [OrderedMap.get?_set_self, hold, hsingle, if_neg hne]
    · have hnone : valuesOf k [p] = [] := by simp [valuesOf, hk]
      rw [OrderedMap.get?_set_ne _ (Ne.symm hk), ih, hnone, List.append_nil]

/-- The entry of a key has the values of the key. -/
theorem get?_group_eq_some_iff {pairs : List (κ × α)} {k : κ} {values : List α} :
    (group pairs).get? k = some values ↔ values = valuesOf k pairs ∧ values ≠ [] := by
  rw [get?_group]
  split
  · next hnil =>
    refine iff_of_false nofun ?_
    rintro ⟨rfl, hne⟩
    exact hne hnil
  · next hne =>
    rw [Option.some_inj]
    constructor
    · rintro rfl
      exact ⟨rfl, hne⟩
    · rintro ⟨rfl, -⟩
      rfl

/-- The values of a key, whether the key has an entry or not. -/
theorem getD_get?_group (pairs : List (κ × α)) (k : κ) :
    ((group pairs).get? k).getD [] = valuesOf k pairs := by
  rw [get?_group]
  split
  · next hnil => exact hnil.symm
  · rfl

end Group

/-- A list without duplicates has one item when the item is its only one. -/
theorem eq_singleton_iff {l : List α} (hl : l.Nodup) {a : α} :
    l = [a] ↔ a ∈ l ∧ ∀ b ∈ l, b = a := by
  constructor
  · rintro rfl
    exact ⟨List.mem_singleton_self a, fun b hb => List.mem_singleton.mp hb⟩
  · rintro ⟨ha, hall⟩
    have hlength : l.length ≤ 1 := by
      by_contra hlong
      have hone : 1 < l.length := by omega
      have hpair := List.nodup_iff_injective_get.mp hl
      have hsame : (⟨0, by omega⟩ : Fin l.length) = ⟨1, hone⟩ :=
        hpair ((hall _ (List.get_mem l _)).trans (hall _ (List.get_mem l _)).symm)
      have hval : (0 : ℕ) = 1 := congrArg Fin.val hsame
      exact absurd hval (by decide)
    obtain ⟨b, rfl⟩ := List.length_eq_one_iff.mp
      (le_antisymm hlength (List.length_pos_of_mem ha))
    rw [List.mem_singleton.mp ha]

/-- Distinct values are distinct among those of one key. -/
theorem nodup_valuesOf [DecidableEq κ] {pairs : List (κ × α)} (h : (pairs.map Prod.snd).Nodup)
    (k : κ) : (valuesOf k pairs).Nodup :=
  h.sublist (List.filter_sublist.map Prod.snd)

/-- Distinct values have one key. -/
theorem key_unique {pairs : List (κ × α)} (h : (pairs.map Prod.snd).Nodup) {k l : κ} {a : α}
    (hk : (k, a) ∈ pairs) (hl : (l, a) ∈ pairs) : k = l :=
  congrArg Prod.fst (List.inj_on_of_nodup_map h hk hl rfl)

/-! ## Matching -/

/-- A symmetric relation that gives every element at most one partner. -/
structure OneToOne (L : α → α → Prop) : Prop where
  symm : ∀ a b, L a b → L b a
  unique : ∀ a b c, L a b → L a c → b = c

/-- Pairs of a one-to-one relation that share an element are the same, when each is listed from its
smaller element. -/
theorem OneToOne.eq_of_shared [LinearOrder α] {L : α → α → Prop} (hL : OneToOne L) {a b c d : α}
    (hab : L a b) (hcd : L c d) (hlt : a < b) (hlt' : c < d)
    (hshared : a = c ∨ a = d ∨ b = c ∨ b = d) : a = c ∧ b = d := by
  rcases hshared with rfl | rfl | rfl | rfl
  · exact ⟨rfl, hL.unique a b d hab hcd⟩
  · -- the larger element of one pair would be the smaller one of the other
    have hbc : b = c := hL.unique a b c hab (hL.symm c a hcd)
    rw [hbc] at hlt
    exact absurd hlt' (lt_asymm hlt)
  · have had : a = d := hL.unique b a d (hL.symm a b hab) hcd
    rw [had] at hlt
    exact absurd hlt' (lt_asymm hlt)
  · exact ⟨hL.unique b a c (hL.symm a b hab) (hL.symm c b hcd), rfl⟩

/-- The items of a list that are found, in the order of their keys. -/
def sortByKey {β : Type*} [LinearOrder κ] (key : β → κ) (l : List β) : List β :=
  l.insertionSort fun x y => key x ≤ key y

section SortByKey

variable {β : Type*} [LinearOrder κ] {key : β → κ} {l : List β}

theorem mem_sortByKey {x : β} : x ∈ sortByKey key l ↔ x ∈ l := List.mem_insertionSort _

/-- The items are in the order of their keys. -/
theorem sortByKey_sorted : (sortByKey key l).Pairwise fun x y => key x ≤ key y := by
  have : Std.Total fun x y : β => key x ≤ key y := ⟨fun x y => le_total (key x) (key y)⟩
  have : IsTrans β fun x y => key x ≤ key y := ⟨fun x y z hxy hyz => hxy.trans hyz⟩
  exact List.pairwise_insertionSort (fun x y : β => key x ≤ key y) l

/-- Items with distinct keys are in strictly ascending order of their keys. -/
theorem sortByKey_ascending (h : (l.map key).Nodup) :
    (sortByKey key l).Pairwise fun x y => key x < key y := by
  have hperm : ((sortByKey key l).map key).Perm (l.map key) :=
    (List.perm_insertionSort _ l).map key
  have hne : (sortByKey key l).Pairwise fun x y => key x ≠ key y :=
    List.pairwise_map.mp (hperm.nodup_iff.mpr h)
  exact sortByKey_sorted.imp₂ (fun x y hle hne => lt_of_le_of_ne hle hne) hne

/-- Lists in strictly ascending order of their keys are equal when they have the same items. -/
theorem eq_of_ascending {l' : List β} (h : l.Pairwise fun x y => key x < key y)
    (h' : l'.Pairwise fun x y => key x < key y) (hmem : ∀ x, x ∈ l ↔ x ∈ l') : l = l' := by
  have : Std.Irrefl fun x y : β => key x < key y := ⟨fun x => lt_irrefl (key x)⟩
  have : Std.Antisymm fun x y : β => key x < key y :=
    ⟨fun x y hxy hyx => absurd hyx (lt_asymm hxy)⟩
  exact List.Pairwise.eq_of_mem_iff h h' (fun {x} => hmem x)

end SortByKey

end Procinsh
