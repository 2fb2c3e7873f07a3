import Mathlib.Tactic.Ring
import Mathlib.Algebra.Order.Ring.Nat

/-!
# Pages

The page that a number starts in and the first page behind it.  A range of numbers occupies the
pages from the floor of its start to the ceiling of its end; numbers with the same place in their
page have their pages at the same distance.
-/

namespace Procinsh

/-- The start of the page of a number. -/
def pageFloor (page x : ℕ) : ℕ := x / page * page

/-- The end of the pages up to a number. -/
def pageCeil (page x : ℕ) : ℕ := (x + page - 1) / page * page

theorem pageFloor_le (page x : ℕ) : pageFloor page x ≤ x := Nat.div_mul_le_self x page

theorem le_pageCeil {page : ℕ} (h : 0 < page) (x : ℕ) : x ≤ pageCeil page x := by
  have hdiv := Nat.div_add_mod (x + page - 1) page
  have hmod := Nat.mod_lt (x + page - 1) h
  rw [pageCeil, Nat.mul_comm]
  omega

theorem pageCeil_le_pageCeil (page : ℕ) {x y : ℕ} (h : x ≤ y) :
    pageCeil page x ≤ pageCeil page y :=
  Nat.mul_le_mul_right _ (Nat.div_le_div_right (by omega))

theorem dvd_pageFloor (page x : ℕ) : page ∣ pageFloor page x := Nat.dvd_mul_left _ _

/-- A number and its page's start differ by its place in the page. -/
theorem pageFloor_add_mod (page x : ℕ) : pageFloor page x + x % page = x :=
  Nat.div_add_mod' x page

/-- Numbers with the same place in their page have their pages at the same distance. -/
theorem pageFloor_add_of_mod_eq {page x y : ℕ} (h : x % page = y % page) :
    pageFloor page x + y = pageFloor page y + x := by
  have hx := pageFloor_add_mod page x
  have hy := pageFloor_add_mod page y
  omega

/-- Ranges of one length from numbers with the same place in their page end at the same place. -/
theorem pageCeil_add_of_mod_eq {page x y : ℕ} (hpage : 0 < page) (h : x % page = y % page) (n : ℕ) :
    pageCeil page (x + n) + y = pageCeil page (y + n) + x := by
  have hceil (z : ℕ) : pageCeil page (z + n) =
      pageFloor page z + (z % page + n + page - 1) / page * page := by
    have hz : z + n + page - 1 = page * (z / page) + (z % page + n + page - 1) := by
      have hdiv := Nat.div_add_mod z page
      omega
    rw [pageCeil, hz, Nat.mul_add_div hpage, Nat.add_mul]
    rfl
  have hfloor := pageFloor_add_of_mod_eq h
  rw [hceil x, hceil y, h]
  omega

end Procinsh
