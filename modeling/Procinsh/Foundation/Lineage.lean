import Mathlib.Data.List.Chain
import Mathlib.Data.List.Induction
import Mathlib.Data.List.Nodup

/-!
# Lineages

In a forest that is given by the parent of each member, the lineage of a member is the list of its
ancestors from the root down to itself.  A member has one lineage, no one occurs twice in it, and two
lineages run together up to a last common ancestor and share no one behind it.
-/

namespace Procinsh

variable {α : Type*} {parent : α → Option α}

/-- A list from a root down, each the parent of the next. -/
structure IsLineage (parent : α → Option α) (l : List α) : Prop where
  root : ∀ r ∈ l.head?, parent r = none
  descends : l.IsChain fun p c => parent c = some p

namespace IsLineage

theorem singleton {a : α} (h : parent a = none) : IsLineage parent [a] where
  root r hr := by
    obtain rfl := Option.some_inj.mp hr
    exact h
  descends := List.isChain_singleton a

/-- A lineage ends with its last member, whose parent ends what is before it. -/
theorem concat_iff {l : List α} {a : α} :
    IsLineage parent (l ++ [a]) ↔ IsLineage parent l ∧ parent a = l.getLast? := by
  constructor
  · intro h
    refine ⟨⟨fun r hr => ?_, h.descends.left_of_append⟩, ?_⟩
    · refine h.root r ?_
      cases l with
      | nil => cases hr
      | cons _ _ => exact hr
    · cases hlast : l.getLast? with
      | none =>
        rw [List.getLast?_eq_none_iff.mp hlast] at h
        exact h.root a rfl
      | some p => exact (List.isChain_append.mp h.descends).2.2 p hlast a rfl
  · rintro ⟨h, hparent⟩
    refine ⟨fun r hr => ?_, List.isChain_append.mpr ⟨h.descends, List.isChain_singleton a, ?_⟩⟩
    · cases l with
      | nil =>
        obtain rfl := Option.some_inj.mp hr
        exact hparent
      | cons _ _ => exact h.root r hr
    · intro p hp b hb
      obtain rfl := Option.some_inj.mp hb
      exact hparent.trans hp

/-- The lineage of a member begins with the lineages of its ancestors. -/
theorem of_append {l m : List α} (h : IsLineage parent (l ++ m)) : IsLineage parent l := by
  induction m using List.reverseRecOn with
  | nil => rwa [List.append_nil] at h
  | append_singleton m a ih =>
    rw [← List.append_assoc] at h
    exact ih (concat_iff.mp h).1

/-- A member has only one lineage. -/
theorem unique {l l' : List α} (h : IsLineage parent l) (h' : IsLineage parent l')
    (hlast : l.getLast? = l'.getLast?) : l = l' := by
  induction l using List.reverseRecOn generalizing l' with
  | nil => exact (List.getLast?_eq_none_iff.mp hlast.symm).symm
  | append_singleton l a ih =>
    rw [List.getLast?_concat] at hlast
    obtain ⟨m, rfl⟩ := List.getLast?_eq_some_iff.mp hlast.symm
    obtain ⟨hl, hparent⟩ := concat_iff.mp h
    obtain ⟨hm, hparent'⟩ := concat_iff.mp h'
    rw [ih hl hm (hparent.symm.trans hparent')]

/-- No one occurs twice in a lineage. -/
theorem nodup {l : List α} (h : IsLineage parent l) : l.Nodup := by
  induction l using List.reverseRecOn with
  | nil => exact List.nodup_nil
  | append_singleton l a ih =>
    refine List.nodup_append.mpr ⟨ih h.of_append, List.nodup_singleton a, ?_⟩
    rintro x hx y hy rfl
    obtain rfl := List.mem_singleton.mp hy
    -- A second occurrence would have a shorter lineage.
    obtain ⟨s, t, rfl⟩ := List.append_of_mem hx
    have hshort : IsLineage parent (s ++ [x]) := by
      rw [List.append_cons s x t, List.append_assoc] at h
      exact h.of_append
    have heq := hshort.unique h (by rw [List.getLast?_concat, List.getLast?_concat])
    have hlength := congrArg List.length heq
    simp only [List.length_append, List.length_cons, List.length_nil] at hlength
    omega

/-- Lineages that part share no one behind the place where they part. -/
theorem disjoint {common l m : List α} (hl : IsLineage parent (common ++ l))
    (hm : IsLineage parent (common ++ m)) (hpart : ∀ x ∈ l.head?, x ∉ m.head?) :
    ∀ x ∈ l, x ∉ m := by
  intro x hxl hxm
  obtain ⟨s, t, rfl⟩ := List.append_of_mem hxl
  obtain ⟨s', t', rfl⟩ := List.append_of_mem hxm
  rw [List.append_cons, ← List.append_assoc] at hl hm
  have heq := hl.of_append.unique hm.of_append (by
    rw [← List.append_assoc, ← List.append_assoc, List.getLast?_concat, List.getLast?_concat])
  have hsame : s ++ [x] = s' ++ [x] := List.append_cancel_left heq
  have hhead (u v : List α) : (u ++ x :: v).head? = (u ++ [x]).head? := by
    cases u with
    | nil => rfl
    | cons _ _ => rfl
  have hsome : (s ++ [x]).head?.isSome := by
    cases s with
    | nil => rfl
    | cons _ _ => rfl
  obtain ⟨y, hy⟩ := Option.isSome_iff_exists.mp hsome
  refine hpart y ?_ ?_
  · rw [hhead]
    exact hy
  · rw [hhead, ← hsame]
    exact hy

end IsLineage

/-- The part up to which two lists agree by a key that tells their members apart, and what is behind
it. -/
theorem exists_takeWhile_zip {κ : Type*} [DecidableEq κ] (key : α → κ) {l m : List α}
    (hkey : ∀ x ∈ l, ∀ y ∈ m, key x = key y → x = y) :
    ∃ common r s, l = common ++ r ∧ m = common ++ s ∧
      common.length = ((l.zip m).takeWhile fun e => key e.1 = key e.2).length ∧
      ∀ x ∈ r.head?, x ∉ s.head? := by
  induction l generalizing m with
  | nil => exact ⟨[], [], m, rfl, rfl, rfl, fun x hx => by cases hx⟩
  | cons x l ih =>
    cases m with
    | nil => exact ⟨[], x :: l, [], rfl, rfl, rfl, fun _ _ hy => by cases hy⟩
    | cons y m =>
      rw [List.zip_cons_cons, List.takeWhile_cons]
      by_cases hxy : key x = key y
      · obtain rfl := hkey x List.mem_cons_self y List.mem_cons_self hxy
        obtain ⟨common, r, s, rfl, rfl, hlength, hpart⟩ := ih fun z hz w hw =>
          hkey z (List.mem_cons_of_mem _ hz) w (List.mem_cons_of_mem _ hw)
        refine ⟨x :: common, r, s, rfl, rfl, ?_, hpart⟩
        rw [if_pos (decide_eq_true hxy), List.length_cons, List.length_cons, hlength]
      · refine ⟨[], x :: l, y :: m, rfl, rfl, ?_, fun z hz hz' => ?_⟩
        · rw [if_neg (by simpa using hxy)]
          rfl
        · obtain rfl := Option.some_inj.mp hz
          obtain rfl := Option.some_inj.mp hz'
          exact hxy rfl

end Procinsh
