import Mathlib.Data.UInt

/-!
# Saturating arithmetic

Sums and differences of 64-bit numbers that stop at the ends of their range.
-/

namespace Procinsh

/-- The sum, or the greatest number. -/
def saturatingAdd (a b : UInt64) : UInt64 := .ofNat (min (a.toNat + b.toNat) (2 ^ 64 - 1))

/-- The difference, or zero. -/
def saturatingSub (a b : UInt64) : UInt64 := .ofNat (a.toNat - b.toNat)

theorem toNat_saturatingAdd (a b : UInt64) :
    (saturatingAdd a b).toNat = min (a.toNat + b.toNat) (2 ^ 64 - 1) := by
  rw [saturatingAdd, UInt64.toNat_ofNat_of_lt']
  exact Nat.lt_of_le_of_lt (Nat.min_le_right _ _) (by decide)

/-- A sum that fits is not cut. -/
theorem toNat_saturatingAdd_of_lt {a b : UInt64} (h : a.toNat + b.toNat < 2 ^ 64) :
    (saturatingAdd a b).toNat = a.toNat + b.toNat := by
  rw [toNat_saturatingAdd]
  omega

@[simp] theorem zero_saturatingAdd (a : UInt64) : saturatingAdd 0 a = a := by
  apply UInt64.toNat_inj.mp
  have ha := a.toNat_lt
  rw [toNat_saturatingAdd, UInt64.toNat_zero]
  omega

theorem toNat_saturatingSub (a b : UInt64) :
    (saturatingSub a b).toNat = a.toNat - b.toNat := by
  rw [saturatingSub, UInt64.toNat_ofNat_of_lt']
  exact Nat.lt_of_le_of_lt (Nat.sub_le _ _) a.toNat_lt

/-- The sum of numbers, or the greatest number. -/
def saturatedSum (values : List UInt64) : ℕ := min (values.map UInt64.toNat).sum (2 ^ 64 - 1)

theorem saturatedSum_concat (values : List UInt64) (v : UInt64) :
    saturatedSum (values ++ [v]) = min (saturatedSum values + v.toNat) (2 ^ 64 - 1) := by
  unfold saturatedSum
  rw [List.map_append, List.map_singleton, List.sum_append, List.sum_singleton]
  omega

end Procinsh
