import Mathlib.Data.List.Basic

/-!
# Lists of tasks

A system that starts tasks and lets them move on one at a time keeps them in a list: a step changes
the task at one position, or appends a new task, or leaves the list alone.  `Evolves` states how a
step changes such a list through a relation on the single tasks, and gives the two directions in
which invariants use it: what becomes of an old task, and where a task of the new list comes from.
-/

namespace Procinsh

variable {α : Type*}

/-- Every task of `l` became a task of `l'` as `R` says, and `l'` has at most one more task, which
satisfies `N`. -/
structure Evolves (R : ℕ → α → α → Prop) (N : α → Prop) (l l' : List α) : Prop where
  old : ∀ k x, l[k]? = some x → ∃ y, l'[k]? = some y ∧ R k x y
  new : l'.length = l.length ∨ ∃ y, l' = l ++ [y] ∧ N y

namespace Evolves

variable {R : ℕ → α → α → Prop} {N : α → Prop} {l : List α}

/-- A list that stays. -/
theorem refl (hR : ∀ k x, R k x x) : Evolves R N l l :=
  ⟨fun k x hx => ⟨x, hx, hR k x⟩, Or.inl rfl⟩

/-- A list in which one task moves on. -/
theorem set {j : ℕ} {x y : α} (hR : ∀ k x, k ≠ j → R k x x) (hx : l[j]? = some x)
    (hxy : R j x y) : Evolves R N l (l.set j y) := by
  refine ⟨fun k z hz => ?_, Or.inl List.length_set⟩
  by_cases hjk : j = k
  · subst hjk
    obtain rfl : x = z := Option.some.inj (hx.symm.trans hz)
    have hlt : j < l.length := (List.getElem?_eq_some_iff.mp hx).1
    exact ⟨y, List.getElem?_set_self hlt, hxy⟩
  · exact ⟨z, by rw [List.getElem?_set_ne hjk, hz], hR k z (Ne.symm hjk)⟩

/-- A list in which a function is applied to one task, if it is there. -/
theorem modify {j : ℕ} {f : α → α} (hR : ∀ k x, k ≠ j → R k x x)
    (hf : ∀ x, l[j]? = some x → R j x (f x)) : Evolves R N l (l.modify j f) := by
  refine ⟨fun k x hx => ?_, Or.inl (List.length_modify _ _ _)⟩
  rw [List.getElem?_modify, hx]
  by_cases hjk : j = k
  · subst hjk
    exact ⟨f x, by simp, hf x hx⟩
  · exact ⟨x, by simp [hjk], hR k x (Ne.symm hjk)⟩

/-- A list with a new task. -/
theorem append {y : α} (hR : ∀ k x, R k x x) (hy : N y) : Evolves R N l (l ++ [y]) := by
  refine ⟨fun k x hx => ⟨x, ?_, hR k x⟩, Or.inr ⟨y, rfl, hy⟩⟩
  rw [List.getElem?_append_left (List.getElem?_eq_some_iff.mp hx).1, hx]

/-- A task of the new list was a task of the old one, or is the new task. -/
theorem inv {l' : List α} (h : Evolves R N l l') {k : ℕ} {y : α} (hy : l'[k]? = some y) :
    (∃ x, l[k]? = some x ∧ R k x y) ∨ l[k]? = none ∧ N y := by
  cases hx : l[k]? with
  | some x =>
    obtain ⟨z, hz, hxz⟩ := h.old k x hx
    obtain rfl : z = y := Option.some.inj (hz.symm.trans hy)
    exact Or.inl ⟨x, rfl, hxz⟩
  | none =>
    right
    refine ⟨rfl, ?_⟩
    have hge : l.length ≤ k := List.getElem?_eq_none_iff.mp hx
    have hlt : k < l'.length := (List.getElem?_eq_some_iff.mp hy).1
    rcases h.new with hlen | ⟨z, rfl, hz⟩
    · omega
    · rw [List.length_append, List.length_singleton] at hlt
      rw [List.getElem?_append_right hge, show k - l.length = 0 by omega] at hy
      obtain rfl := Option.some.inj hy
      exact hz

end Evolves

end Procinsh
