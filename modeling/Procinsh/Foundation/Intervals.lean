import Mathlib.Data.List.Basic
import Mathlib.Data.List.Pairwise

/-!
# Separated intervals

Half-open intervals of numbers in a list, each of which ends before the next one begins, with a gap
between them.  Because of the gaps a range all of whose numbers are in some interval is in one of
them, and a number is in at most one.
-/

namespace Procinsh

variable {α : Type*} {start stop : α → ℕ} {l : List α}

/-- Each interval ends before the ones behind it begin, and does not touch them. -/
def Separated (start stop : α → ℕ) (l : List α) : Prop := l.Pairwise fun a b => stop a < start b

/-- Intervals that share a number are the same one. -/
theorem Separated.eq_of_mem (h : Separated start stop l) {a b : α} (ha : a ∈ l) (hb : b ∈ l)
    {x : ℕ} (hax : start a ≤ x) (hxa : x < stop a) (hbx : start b ≤ x) (hxb : x < stop b) :
    a = b := by
  have hdisjoint : l.Pairwise fun a b => ¬ (start a ≤ x ∧ x < stop a ∧ start b ≤ x ∧ x < stop b) :=
    h.imp fun hab hx => by omega
  by_contra hne
  have hsymm : Std.Symm fun a b : α =>
      ¬ (start a ≤ x ∧ x < stop a ∧ start b ≤ x ∧ x < stop b) :=
    ⟨fun _ _ hab hx => hab ⟨hx.2.2.1, hx.2.2.2, hx.1, hx.2.1⟩⟩
  exact hdisjoint.forall ha hb hne ⟨hax, hxa, hbx, hxb⟩

/-- A range all of whose numbers are in some interval is in one of them. -/
theorem Separated.exists_spanning (h : Separated start stop l) {lo hi : ℕ} (hlt : lo < hi)
    (hall : ∀ x, lo ≤ x → x < hi → ∃ a ∈ l, start a ≤ x ∧ x < stop a) :
    ∃ a ∈ l, start a ≤ lo ∧ hi ≤ stop a := by
  obtain ⟨a, ha, hstart, hstop⟩ := hall lo (Nat.le_refl lo) hlt
  refine ⟨a, ha, hstart, Nat.le_of_not_lt fun hshort => ?_⟩
  -- The number at the end of the interval would be in another one, which touches it.
  obtain ⟨b, hb, hbstart, hbstop⟩ := hall (stop a) (Nat.le_of_lt hstop) hshort
  have hne : a ≠ b := by
    rintro rfl
    exact absurd hbstop (Nat.lt_irrefl _)
  have hgap : l.Pairwise fun a b => stop a < start b ∨ stop b < start a := h.imp Or.inl
  have hsymm : Std.Symm fun a b : α => stop a < start b ∨ stop b < start a := ⟨fun _ _ => Or.symm⟩
  rcases hgap.forall ha hb hne with hab | hba
  · exact absurd hbstart (Nat.not_le.mpr hab)
  · have hlater : lo < start a := Nat.lt_trans (Nat.lt_trans hstop hbstop) hba
    exact absurd hstart (Nat.not_le.mpr hlater)

end Procinsh
