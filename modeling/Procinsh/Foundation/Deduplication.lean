import Mathlib.Data.List.Pairwise
import Mathlib.Data.List.Perm.Basic
import Mathlib.Data.List.Induction

/-!
# The first item of each key

A list is deduplicated by a key that some of its items have: of the items with one key the first is
kept, and so is every item without a key.  `pushAll` is the loop that does so, with the kept items
and the keys that it has seen.  `FirstOfKey` says what it keeps of a list: a part of the list in
which every key finds what it finds in the list.
-/

namespace Procinsh

variable {α β κ : Type*}

/-- When all results agree, the first one does not depend on the order of the list. -/
theorem findSome?_eq_of_perm {f : α → Option β} {l l' : List α} (h : l.Perm l')
    (hagree : ∀ x ∈ l, ∀ y ∈ l, ∀ b c, f x = some b → f y = some c → b = c) :
    l.findSome? f = l'.findSome? f := by
  cases hfind : l'.findSome? f with
  | none =>
    rw [List.findSome?_eq_none_iff] at hfind ⊢
    exact fun x hx => hfind x (h.mem_iff.mp hx)
  | some c =>
    obtain ⟨y, hy, hyc⟩ := List.exists_of_findSome?_eq_some hfind
    cases hfind' : l.findSome? f with
    | none =>
      rw [List.findSome?_eq_none_iff.mp hfind' y (h.mem_iff.mpr hy)] at hyc
      cases hyc
    | some b =>
      obtain ⟨x, hx, hxb⟩ := List.exists_of_findSome?_eq_some hfind'
      rw [hagree x hx y (h.mem_iff.mpr hy) b c hxb hyc]

/-- The first result in a concatenation is the first of the first results in its parts. -/
theorem findSome?_flatMap {γ : Type*} {f : β → Option γ} {g : α → List β} {l : List α} :
    (l.flatMap g).findSome? f = l.findSome? fun a => (g a).findSome? f := by
  induction l with
  | nil => rfl
  | cons a l ih =>
    rw [List.flatMap_cons, List.findSome?_append, List.findSome?_cons, ih]
    cases (g a).findSome? f with
    | none => rfl
    | some b => rfl

/-- What is read off the first item with a property. -/
theorem map_find?_eq_findSome? {p : α → Bool} {g : α → β} {l : List α} :
    (l.find? p).map g = l.findSome? fun a => if p a then some (g a) else none := by
  induction l with
  | nil => rfl
  | cons a l ih =>
    rw [List.find?_cons, List.findSome?_cons]
    cases p a with
    | false => exact ih
    | true => rfl

section Push

variable [DecidableEq κ] (key : α → Option κ)

/-- Keeps an item unless an item with its key was kept before; the items that are kept, and the keys
that were seen. -/
def push (kept : List α × List κ) (x : α) : List α × List κ :=
  match key x with
  | none => (kept.1 ++ [x], kept.2)
  | some k => if k ∈ kept.2 then kept else (kept.1 ++ [x], k :: kept.2)

/-- Keeps the items of a list. -/
def pushAll (kept : List α × List κ) (l : List α) : List α × List κ := l.foldl (push key) kept

theorem pushAll_append (kept : List α × List κ) (l m : List α) :
    pushAll key kept (l ++ m) = pushAll key (pushAll key kept l) m := List.foldl_append

/-- What is kept stays. -/
theorem subset_pushAll (kept : List α × List κ) (l : List α) : kept.1 ⊆ (pushAll key kept l).1 := by
  induction l generalizing kept with
  | nil => exact List.Subset.refl _
  | cons x l ih =>
    refine List.Subset.trans ?_ (ih (push key kept x))
    rw [push]
    split
    · exact List.subset_append_left _ _
    · split
      · exact List.Subset.refl _
      · exact List.subset_append_left _ _

/-- Items do not share a key. -/
def KeysDiffer (x y : α) : Prop := ∀ k, key x = some k → key y ≠ some k

instance : Std.Symm (KeysDiffer key) := ⟨fun _ _ h k hy hx => h k hx hy⟩

/-- A part of a list without two items of one key, in which every key has the first of its items,
and which has the items without a key. -/
structure FirstOfKey (l kept : List α) : Prop where
  sublist : kept.Sublist l
  find? : ∀ k, (kept.find? fun x => key x = some k) = l.find? fun x => key x = some k
  mem_of_key_eq_none : ∀ x ∈ l, key x = none → x ∈ kept
  pairwise : kept.Pairwise (KeysDiffer key)

variable {key} {l kept : List α}

/-- An item that is kept is the first of its key. -/
theorem FirstOfKey.find?_of_mem (h : FirstOfKey key l kept) {x : α} (hx : x ∈ kept) {k : κ}
    (hk : key x = some k) : (l.find? fun y => key y = some k) = some x := by
  rw [← h.find?]
  cases hfind : kept.find? fun y => key y = some k with
  | none => exact absurd hk (by simpa using List.find?_eq_none.mp hfind x hx)
  | some y =>
    have hy : key y = some k := by simpa using List.find?_some hfind
    by_contra hne
    have hyx : y ≠ x := fun heq => hne (congrArg some heq)
    exact h.pairwise.forall (List.mem_of_find?_eq_some hfind) hx hyx k hy hk

/-- The first item of a key is kept. -/
theorem FirstOfKey.mem_of_find? (h : FirstOfKey key l kept) {x : α} {k : κ}
    (hfind : (l.find? fun y => key y = some k) = some x) : x ∈ kept :=
  List.mem_of_find?_eq_some (h.find? k ▸ hfind)

/-- Every key of the list has an item that is kept. -/
theorem FirstOfKey.exists_mem (h : FirstOfKey key l kept) {x : α} (hx : x ∈ l) {k : κ}
    (hk : key x = some k) : ∃ y ∈ kept, key y = some k := by
  cases hfind : l.find? fun y => key y = some k with
  | none => exact absurd hk (by simpa using List.find?_eq_none.mp hfind x hx)
  | some y => exact ⟨y, h.mem_of_find? hfind, by simpa using List.find?_some hfind⟩

/-- An item that shares no key with a kept one is kept behind them. -/
theorem FirstOfKey.append_kept (h : FirstOfKey key l kept) {x : α}
    (hx : ∀ y ∈ kept, KeysDiffer key y x) : FirstOfKey key (l ++ [x]) (kept ++ [x]) where
  sublist := h.sublist.append (List.Sublist.refl _)
  find? k := by rw [List.find?_append, List.find?_append, h.find?]
  mem_of_key_eq_none y hy hnone := by
    rcases List.mem_append.mp hy with hy | hy
    · exact List.mem_append_left _ (h.mem_of_key_eq_none y hy hnone)
    · exact List.mem_append_right _ hy
  pairwise := by
    refine List.pairwise_append.mpr ⟨h.pairwise, List.pairwise_singleton _ _, fun y hy z hz => ?_⟩
    rw [List.mem_singleton.mp hz]
    exact hx y hy

/-- An item that shares its key with a kept one is dropped. -/
theorem FirstOfKey.append_dropped (h : FirstOfKey key l kept) {x y : α} {k : κ}
    (hx : key x = some k) (hy : y ∈ kept) (hk : key y = some k) :
    FirstOfKey key (l ++ [x]) kept where
  sublist := h.sublist.trans (List.sublist_append_left _ _)
  find? j := by
    rw [List.find?_append, h.find?]
    by_cases hj : key x = some j
    · obtain rfl : k = j := Option.some.inj (hx.symm.trans hj)
      rw [h.find?_of_mem hy hk]
      rfl
    · have hlast : ([x].find? fun z => key z = some j) = none := by simp [hj]
      rw [hlast, Option.or_none]
  mem_of_key_eq_none z hz hnone := by
    rcases List.mem_append.mp hz with hz | hz
    · exact h.mem_of_key_eq_none z hz hnone
    · rw [List.mem_singleton.mp hz, hx] at hnone
      cases hnone
  pairwise := h.pairwise

variable (key) in
/-- The loop keeps the first item of each key, and has seen the keys of what it keeps. -/
theorem firstOfKey_pushAll (before l : List α) :
    ∃ kept, (pushAll key (before, []) l).1 = before ++ kept ∧ FirstOfKey key l kept ∧
      ∀ k, k ∈ (pushAll key (before, []) l).2 ↔ ∃ x ∈ kept, key x = some k := by
  induction l using List.reverseRecOn with
  | nil =>
    refine ⟨[], (List.append_nil before).symm, ⟨List.Sublist.refl _, fun _ => rfl,
      fun x hx => absurd hx List.not_mem_nil, List.Pairwise.nil⟩, fun k => ?_⟩
    refine iff_of_false List.not_mem_nil ?_
    rintro ⟨x, hx, -⟩
    exact List.not_mem_nil hx
  | append_singleton l x ih =>
    obtain ⟨kept, hitems, hfirst, hseen⟩ := ih
    have hstep : pushAll key (before, []) (l ++ [x]) = push key (pushAll key (before, []) l) x :=
      pushAll_append key _ l [x]
    have happend : (pushAll key (before, []) l).1 ++ [x] = before ++ (kept ++ [x]) := by
      rw [hitems, List.append_assoc]
    have hmem : ∀ k, (∃ y ∈ kept ++ [x], key y = some k) ↔
        (∃ y ∈ kept, key y = some k) ∨ key x = some k := by
      intro k
      simp only [List.mem_append, List.mem_singleton, or_and_right, exists_or, exists_eq_left]
    rw [hstep, push]
    cases hkey : key x with
    | none =>
      refine ⟨kept ++ [x], happend, hfirst.append_kept fun y _ k _ hk => ?_, fun k => ?_⟩
      · rw [hkey] at hk
        cases hk
      · rw [hmem, hseen, hkey]
        exact (or_iff_left nofun).symm
    | some k =>
      dsimp only
      split
      · next hk =>
        obtain ⟨y, hy, hyk⟩ := (hseen k).mp hk
        exact ⟨kept, hitems, hfirst.append_dropped hkey hy hyk, hseen⟩
      · next hk =>
        refine ⟨kept ++ [x], happend, hfirst.append_kept fun y hy j hyj hj => ?_, fun j => ?_⟩
        · obtain rfl : k = j := Option.some.inj (hkey.symm.trans hj)
          exact hk ((hseen k).mpr ⟨y, hy, hyj⟩)
        · rw [hmem, List.mem_cons, hseen, hkey, Option.some_inj, or_comm, eq_comm]

end Push

end Procinsh
