import Mathlib.Data.UInt

/-!
# Checked computations

A computation that may fail yields a value with some property, or fails only in an allowed way.  The
rules follow the structure of the computation: a step may use what the steps before have yielded, and
a loop keeps an invariant about what it has processed.
-/

namespace Procinsh

variable {ε α β σ : Type}

/-- The steps of a computation that succeeds. -/
theorem exists_of_bind_eq_ok {x : Except ε α} {f : α → Except ε β} {b : β}
    (h : x >>= f = .ok b) : ∃ a, x = .ok a ∧ f a = .ok b := by
  cases x with
  | error e => cases h
  | ok a => exact ⟨a, rfl, h⟩

/-- The computation yields a value with the property, or fails in an allowed way. -/
def Yields (allowed : ε → Prop) (x : Except ε α) (P : α → Prop) : Prop :=
  match x with
  | .ok a => P a
  | .error e => allowed e

namespace Yields

variable {allowed : ε → Prop} {x : Except ε α} {P Q : α → Prop}

theorem ok {a : α} (h : P a) : Yields allowed (.ok a) P := h

theorem error {e : ε} (h : allowed e) : Yields allowed (.error e) P := h

theorem pure {a : α} (h : P a) : Yields allowed (pure a : Except ε α) P := h

theorem of_eq {a : α} (hx : Yields allowed x P) (h : x = .ok a) : P a := by
  rw [h] at hx
  exact hx

theorem allowed_of_eq {e : ε} (hx : Yields allowed x P) (h : x = .error e) : allowed e := by
  rw [h] at hx
  exact hx

/-- A computation that must not fail yields a value. -/
theorem exists_ok (hx : Yields (fun _ : ε => False) x P) : ∃ a, x = .ok a ∧ P a := by
  cases x with
  | ok a => exact ⟨a, rfl, hx⟩
  | error e => exact hx.elim

/-- A computation about which nothing is said. -/
theorem trivial (x : Except ε α) : Yields (fun _ => True) x fun _ => True := by
  cases x with
  | ok a => exact True.intro
  | error e => exact True.intro

theorem mono (hx : Yields allowed x P) (h : ∀ a, P a → Q a) : Yields allowed x Q := by
  cases x with
  | ok a => exact h a hx
  | error e => exact hx

/-- More failures may be allowed. -/
theorem imp {allowed' : ε → Prop} (hx : Yields allowed x P) (h : ∀ e, allowed e → allowed' e) :
    Yields allowed' x P := by
  cases x with
  | ok a => exact hx
  | error e => exact h e hx

/-- What is yielded may be used in what follows. -/
theorem bind {f : α → Except ε β} {R : β → Prop} (hx : Yields allowed x P)
    (hf : ∀ a, P a → Yields allowed (f a) R) : Yields allowed (x >>= f) R := by
  cases x with
  | ok a => exact hf a hx
  | error e => exact hx

theorem ite {p : Prop} [Decidable p] {y : Except ε α} (hx : p → Yields allowed x P)
    (hy : ¬ p → Yields allowed y P) : Yields allowed (if p then x else y) P := by
  by_cases h : p
  · rw [if_pos h]
    exact hx h
  · rw [if_neg h]
    exact hy h

/-- A loop keeps an invariant about the part of the list that it has processed. -/
theorem foldlM {f : σ → α → Except ε σ} (inv : List α → σ → Prop) (l : List α) {s : σ}
    (hs : inv [] s)
    (hstep : ∀ before a after t, l = before ++ a :: after → inv before t →
      Yields allowed (f t a) (inv (before ++ [a]))) :
    Yields allowed (l.foldlM f s) (inv l) := by
  have hrest : ∀ (after before : List α) (t : σ), l = before ++ after → inv before t →
      Yields allowed (after.foldlM f t) (inv l) := by
    intro after
    induction after with
    | nil =>
      intro before t hl ht
      rw [List.append_nil] at hl
      rw [hl]
      exact ht
    | cons a after ih =>
      intro before t hl ht
      rw [List.foldlM_cons]
      refine bind (hstep before a after t hl ht) fun t' ht' => ih (before ++ [a]) t' ?_ ht'
      rw [hl, List.append_assoc]
      rfl
  exact hrest l [] s rfl hs

end Yields

end Procinsh
