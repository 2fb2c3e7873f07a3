import Mathlib.Algebra.Order.Round
import Mathlib.Data.Int.Log
import Mathlib.Data.Rat.Floor
import Mathlib.Data.Sign.Basic

/-!
# Double-precision numbers

The numbers of IEEE 754 double precision by their values: a finite number is a rational number with
at most 53 significant bits in the range of exponents, and the two infinities and the not-a-number
value stand beside them.  The sign of a zero is not kept, since no comparison sees it.

The result of an operation is the exact result rounded to the nearest double, ties to the even one;
the remainder needs no rounding.  The facts proved are those that programs rely on without thinking
of them: rounding never crosses a double, so adding what is not negative does not take a sum below
the other summand, and a remainder by a positive number lies below it.
-/

namespace Procinsh

/-- A number with at most 53 significant bits above the smallest unit, of any size. -/
def IsBinary (q : ℚ) : Prop := ∃ m e : ℤ, |m| ≤ 2 ^ 53 ∧ -1074 ≤ e ∧ q = m * 2 ^ e

/-- The power of two from which on numbers are out of range. -/
@[irreducible] def overflow : ℚ := 2 ^ (1024 : ℤ)

theorem zpow_lt_overflow {e : ℤ} (he : e < 1024) : 2 ^ e < overflow := by
  unfold overflow
  exact zpow_lt_zpow_right₀ one_lt_two he

theorem overflow_pos : 0 < overflow :=
  (zpow_pos two_pos 0).trans (zpow_lt_overflow (by decide))

/-- The rational numbers that a double represents. -/
def IsDouble (q : ℚ) : Prop := IsBinary q ∧ |q| < overflow

theorem isBinary_intCast {n : ℤ} (hn : |n| ≤ 2 ^ 53) : IsBinary n :=
  ⟨n, 0, hn, by decide, by simp⟩

theorem isBinary_zpow {e : ℤ} (he : -1074 ≤ e) : IsBinary (2 ^ e) :=
  ⟨1, e, by norm_num, he, by simp⟩

theorem isBinary_overflow : IsBinary overflow := by
  unfold overflow
  exact isBinary_zpow (by decide)

theorem isDouble_intCast {n : ℤ} (hn : |n| ≤ 2 ^ 53) : IsDouble n := by
  refine ⟨isBinary_intCast hn, ?_⟩
  calc |(n : ℚ)| = ((|n| : ℤ) : ℚ) := (Int.cast_abs).symm
    _ ≤ 2 ^ (53 : ℤ) := by exact_mod_cast hn
    _ < overflow := zpow_lt_overflow (by decide)

theorem isDouble_zpow {e : ℤ} (he : -1074 ≤ e) (hlt : e < 1024) : IsDouble (2 ^ e) := by
  refine ⟨isBinary_zpow he, ?_⟩
  rw [abs_of_pos (zpow_pos two_pos e)]
  exact zpow_lt_overflow hlt

theorem isDouble_zero : IsDouble 0 := by
  simpa using isDouble_intCast (n := 0) (by norm_num)

theorem IsDouble.neg {q : ℚ} (h : IsDouble q) : IsDouble (-q) := by
  obtain ⟨⟨m, e, hm, he, rfl⟩, hlt⟩ := h
  exact ⟨⟨-m, e, by rwa [abs_neg], he, by push_cast; ring⟩, by rwa [abs_neg]⟩

theorem isDouble_one : IsDouble 1 := by
  simpa using isDouble_intCast (n := 1) (by norm_num)

/-! ### Rounding -/

/-- The nearest integer, the even one of two that are equally near. -/
def roundEven (q : ℚ) : ℤ :=
  if 2 * Int.fract q < 1 then ⌊q⌋
  else if 1 < 2 * Int.fract q then ⌊q⌋ + 1
  else if Even ⌊q⌋ then ⌊q⌋ else ⌊q⌋ + 1

theorem floor_le_roundEven (q : ℚ) : ⌊q⌋ ≤ roundEven q := by
  unfold roundEven
  split_ifs <;> omega

theorem le_roundEven {n : ℤ} {q : ℚ} (h : (n : ℚ) ≤ q) : n ≤ roundEven q :=
  (Int.le_floor.mpr h).trans (floor_le_roundEven q)

theorem roundEven_le {n : ℤ} {q : ℚ} (h : q ≤ n) : roundEven q ≤ n := by
  rcases h.lt_or_eq with hlt | rfl
  · have hfloor : ⌊q⌋ < n := Int.floor_lt.mpr hlt
    unfold roundEven
    split_ifs <;> omega
  · simp [roundEven]

theorem roundEven_mono {q r : ℚ} (h : q ≤ r) : roundEven q ≤ roundEven r := by
  rcases (Int.floor_le_floor h).lt_or_eq with hlt | heq
  · have hq : roundEven q ≤ ⌊q⌋ + 1 := by
      unfold roundEven
      split_ifs <;> omega
    exact hq.trans ((Int.add_one_le_iff.mpr hlt).trans (floor_le_roundEven r))
  · have hfract : Int.fract q ≤ Int.fract r := by
      rw [Int.fract, Int.fract, heq]
      linarith
    unfold roundEven
    rw [heq]
    split_ifs <;> first | omega | (exfalso; linarith)

/-- The exponent of the last of 53 significant bits, which is that of the smallest unit at least. -/
def unitExponent (q : ℚ) : ℤ := max (Int.log 2 |q| - 52) (-1074)

theorem le_unitExponent (q : ℚ) : -1074 ≤ unitExponent q := le_max_right _ _

theorem unitExponent_mono {q r : ℚ} (hq : 0 < q) (h : q ≤ r) :
    unitExponent q ≤ unitExponent r := by
  have hlog := Int.log_mono_right (b := 2) hq h
  unfold unitExponent
  rw [abs_of_pos hq, abs_of_pos (hq.trans_le h)]
  omega

/-- The nearest number with 53 significant bits, whatever its size. -/
def roundBinary (q : ℚ) : ℚ := roundEven (q / 2 ^ unitExponent q) * 2 ^ unitExponent q

theorem abs_div_unit_le (q : ℚ) : |q / 2 ^ unitExponent q| ≤ 2 ^ 53 := by
  have hunit : (0 : ℚ) < 2 ^ unitExponent q := zpow_pos two_pos _
  rw [abs_div, abs_of_pos hunit, div_le_iff₀ hunit]
  calc |q| ≤ 2 ^ (Int.log 2 |q| + 1) := by
        exact_mod_cast (Int.lt_zpow_succ_log_self (b := 2) one_lt_two |q|).le
    _ ≤ 2 ^ (53 + unitExponent q) :=
        zpow_le_zpow_right₀ one_le_two (by unfold unitExponent; omega)
    _ = 2 ^ 53 * 2 ^ unitExponent q := by rw [zpow_add₀ two_ne_zero]; norm_num

theorem isBinary_roundBinary (q : ℚ) : IsBinary (roundBinary q) := by
  obtain ⟨hlow, hhigh⟩ := abs_le.mp (abs_div_unit_le q)
  refine ⟨_, _, abs_le.mpr ⟨?_, ?_⟩, le_unitExponent q, rfl⟩
  · exact le_roundEven (by exact_mod_cast hlow)
  · exact roundEven_le (by exact_mod_cast hhigh)

@[simp] theorem roundBinary_zero : roundBinary 0 = 0 := by simp [roundBinary, roundEven]

/-- Rounding does not go below a number that needs no rounding. -/
theorem le_roundBinary {x q : ℚ} (hx : IsBinary x) (hx0 : 0 ≤ x) (h : x ≤ q) :
    x ≤ roundBinary q := by
  rcases (hx0.trans h).eq_or_lt with rfl | hq
  · simpa using h
  obtain ⟨m, e, hm, he, rfl⟩ := hx
  set u := unitExponent q with hu
  have hunit : (0 : ℚ) < 2 ^ u := zpow_pos two_pos _
  rcases le_or_gt u e with hue | hue
  · -- the number is a multiple of the last bit of the result
    obtain ⟨k, hk⟩ := Int.le.dest hue
    have hmul : (m : ℚ) * 2 ^ e = ((m * 2 ^ k : ℤ) : ℚ) * 2 ^ u := by
      rw [← hk, add_comm, zpow_add₀ two_ne_zero, zpow_natCast]
      push_cast
      ring
    rw [hmul] at h ⊢
    exact mul_le_mul_of_nonneg_right
      (by exact_mod_cast le_roundEven ((le_div_iff₀ hunit).mpr h)) hunit.le
  · -- the last bit is above the smallest unit, so the result has all 53 bits
    have hlog : Int.log 2 |q| = 52 + u := by
      unfold unitExponent at hu
      omega
    have hbits : ((2 ^ 52 : ℤ) : ℚ) ≤ q / 2 ^ u := by
      rw [le_div_iff₀ hunit]
      calc ((2 ^ 52 : ℤ) : ℚ) * 2 ^ u = 2 ^ Int.log 2 |q| := by
            rw [hlog, zpow_add₀ two_ne_zero]
            norm_num
        _ ≤ |q| := by exact_mod_cast Int.zpow_log_le_self one_lt_two (abs_pos.mpr hq.ne')
        _ = q := abs_of_pos hq
    calc (m : ℚ) * 2 ^ e ≤ 2 ^ 53 * 2 ^ e :=
          mul_le_mul_of_nonneg_right (by exact_mod_cast (abs_le.mp hm).2) (zpow_pos two_pos e).le
      _ = 2 ^ (53 + e) := by rw [zpow_add₀ two_ne_zero]; norm_num
      _ ≤ 2 ^ (52 + u) := zpow_le_zpow_right₀ one_le_two (by omega)
      _ = ((2 ^ 52 : ℤ) : ℚ) * 2 ^ u := by rw [zpow_add₀ two_ne_zero]; norm_num
      _ ≤ roundBinary q :=
          mul_le_mul_of_nonneg_right (by exact_mod_cast le_roundEven hbits) hunit.le

/-- Rounding keeps the order. -/
theorem roundBinary_mono {q r : ℚ} (hq : 0 ≤ q) (h : q ≤ r) : roundBinary q ≤ roundBinary r := by
  rcases hq.eq_or_lt with rfl | hpos
  · rw [roundBinary_zero]
    exact le_roundBinary isDouble_zero.1 le_rfl h
  · have hunit : (0 : ℚ) < 2 ^ unitExponent q := zpow_pos two_pos _
    rcases (unitExponent_mono hpos h).lt_or_eq with hlt | heq
    · -- a power of two lies between the results
      have hr : 0 < r := hpos.trans_le h
      have hlog : Int.log 2 r = 52 + unitExponent r := by
        have hlow := le_unitExponent q
        unfold unitExponent at hlt ⊢
        rw [abs_of_pos hr] at hlt ⊢
        omega
      have hpower : IsBinary (2 ^ (52 + unitExponent r)) :=
        isBinary_zpow (by have := le_unitExponent r; omega)
      have hbetween : (2 : ℚ) ^ (52 + unitExponent r) ≤ r := by
        rw [← hlog]
        exact_mod_cast Int.zpow_log_le_self one_lt_two hr
      calc roundBinary q ≤ ((2 ^ 53 : ℤ) : ℚ) * 2 ^ unitExponent q := by
            refine mul_le_mul_of_nonneg_right ?_ hunit.le
            exact_mod_cast roundEven_le (by exact_mod_cast (abs_le.mp (abs_div_unit_le q)).2)
        _ = 2 ^ (53 + unitExponent q) := by rw [zpow_add₀ two_ne_zero]; norm_num
        _ ≤ 2 ^ (52 + unitExponent r) := zpow_le_zpow_right₀ one_le_two (by omega)
        _ ≤ roundBinary r := le_roundBinary hpower (zpow_pos two_pos _).le hbetween
    · unfold roundBinary
      rw [← heq]
      refine mul_le_mul_of_nonneg_right ?_ hunit.le
      exact_mod_cast roundEven_mono (div_le_div_of_nonneg_right h hunit.le)

/-- A number that needs no rounding is a multiple of its last bit. -/
theorem exists_eq_mul_unit {q : ℚ} (h : IsBinary q) : ∃ k : ℤ, q = k * 2 ^ unitExponent q := by
  rcases eq_or_ne q 0 with rfl | hne
  · exact ⟨0, by simp⟩
  obtain ⟨m, e, hm, he, hq⟩ := h
  rcases le_or_gt (unitExponent q) e with hue | hue
  · obtain ⟨k, hk⟩ := Int.le.dest hue
    refine ⟨m * 2 ^ k, hq.trans ?_⟩
    rw [← hk, add_comm, zpow_add₀ two_ne_zero, zpow_natCast]
    push_cast
    ring
  · -- the number has all 53 bits above its last one, so it is a power of two
    have hlog : Int.log 2 |q| = 52 + unitExponent q := by
      unfold unitExponent at hue ⊢
      omega
    have hlow : (2 : ℚ) ^ (52 + unitExponent q) ≤ |q| := by
      rw [← hlog]
      exact_mod_cast Int.zpow_log_le_self one_lt_two (abs_pos.mpr hne)
    have hhigh : |q| ≤ 2 ^ (52 + unitExponent q) := by
      have hunit : (0 : ℚ) < 2 ^ e := zpow_pos two_pos e
      calc |q| = |(m : ℚ)| * 2 ^ e := by rw [hq, abs_mul, abs_of_pos hunit]
        _ ≤ 2 ^ 53 * 2 ^ e :=
            mul_le_mul_of_nonneg_right (by exact_mod_cast hm) hunit.le
        _ = 2 ^ (53 + e) := by rw [zpow_add₀ two_ne_zero]; norm_num
        _ ≤ 2 ^ (52 + unitExponent q) := zpow_le_zpow_right₀ one_le_two (by omega)
    have heq : |q| = ((2 ^ 52 : ℤ) : ℚ) * 2 ^ unitExponent q := by
      rw [le_antisymm hhigh hlow, zpow_add₀ two_ne_zero]
      norm_num
    rcases abs_choice q with habs | habs
    · exact ⟨2 ^ 52, by rw [← heq, habs]⟩
    · refine ⟨-2 ^ 52, ?_⟩
      rw [Int.cast_neg, neg_mul, ← heq, habs, neg_neg]

theorem roundBinary_of_isBinary {q : ℚ} (h : IsBinary q) : roundBinary q = q := by
  obtain ⟨k, hk⟩ := exists_eq_mul_unit h
  have hunit : (2 : ℚ) ^ unitExponent q ≠ 0 := zpow_ne_zero _ two_ne_zero
  have hdiv : q / 2 ^ unitExponent q = k := by
    rw [div_eq_iff hunit]
    exact hk
  have hround : roundEven (k : ℚ) = k := le_antisymm (roundEven_le le_rfl) (le_roundEven le_rfl)
  rw [roundBinary, hdiv, hround, ← hk]

/-! ### Remainders -/

/-- The integer part, towards zero. -/
def truncate (q : ℚ) : ℤ := if 0 ≤ q then ⌊q⌋ else ⌈q⌉

theorem abs_sub_truncate_lt_one (q : ℚ) : |q - truncate q| < 1 := by
  have hlt := Int.lt_floor_add_one q
  have hceil := Int.ceil_lt_add_one q
  unfold truncate
  split_ifs with h
  · rw [abs_of_nonneg (sub_nonneg.mpr (Int.floor_le q))]
    linarith
  · rw [abs_of_nonpos (sub_nonpos.mpr (Int.le_ceil q))]
    linarith

theorem abs_sub_truncate_le (q : ℚ) : |q - truncate q| ≤ |q| := by
  unfold truncate
  split_ifs with h
  · have hfloor : (0 : ℚ) ≤ ⌊q⌋ := by exact_mod_cast Int.floor_nonneg.mpr h
    rw [abs_of_nonneg (sub_nonneg.mpr (Int.floor_le q)), abs_of_nonneg h]
    linarith
  · have hceil : (⌈q⌉ : ℚ) ≤ 0 := by exact_mod_cast Int.ceil_nonpos.mpr (not_le.mp h).le
    rw [abs_of_nonpos (sub_nonpos.mpr (Int.le_ceil q)), abs_of_nonpos (not_le.mp h).le]
    linarith

/-- The remainder of a division, with the sign of the dividend. -/
def remainder (x y : ℚ) : ℚ := x - y * truncate (x / y)

section Remainder

variable {x y : ℚ}

theorem abs_remainder (hy : y ≠ 0) : |remainder x y| = |y| * |x / y - truncate (x / y)| := by
  rw [← abs_mul, mul_sub, mul_div_cancel₀ x hy, remainder]

theorem abs_remainder_lt (hy : y ≠ 0) : |remainder x y| < |y| := by
  rw [abs_remainder hy]
  exact mul_lt_of_lt_one_right (abs_pos.mpr hy) (abs_sub_truncate_lt_one _)

theorem abs_remainder_le (hy : y ≠ 0) : |remainder x y| ≤ |x| := by
  rw [abs_remainder hy]
  calc |y| * |x / y - truncate (x / y)| ≤ |y| * |x / y| :=
        mul_le_mul_of_nonneg_left (abs_sub_truncate_le _) (abs_nonneg y)
    _ = |x| := by rw [← abs_mul, mul_div_cancel₀ x hy]

theorem remainder_nonneg (hx : 0 ≤ x) (hy : 0 < y) : 0 ≤ remainder x y := by
  have hq : 0 ≤ x / y := div_nonneg hx hy.le
  have hfloor : (⌊x / y⌋ : ℚ) * y ≤ x := (le_div_iff₀ hy).mp (Int.floor_le _)
  rw [remainder, truncate, if_pos hq]
  linarith

/-- The remainder is a multiple of the smaller of the two last bits, and not above the operand that
this bit is of. -/
theorem isDouble_remainder (hx : IsDouble x) (hy : IsDouble y) (h0 : y ≠ 0) :
    IsDouble (remainder x y) := by
  have hlt := abs_remainder_lt (x := x) h0
  have hle := abs_remainder_le (x := x) h0
  refine ⟨?_, hlt.trans hy.2⟩
  obtain ⟨⟨m, e, hm, he, rfl⟩, -⟩ := hx
  obtain ⟨⟨n, f, hn, hf, rfl⟩, -⟩ := hy
  set k := truncate (m * 2 ^ e / (n * 2 ^ f)) with hk
  rcases le_total e f with hef | hfe
  · obtain ⟨d, rfl⟩ := Int.le.dest hef
    have hval :
        remainder (m * 2 ^ e) (n * 2 ^ (e + d)) = ((m - n * 2 ^ d * k : ℤ) : ℚ) * 2 ^ e := by
      rw [remainder, ← hk, zpow_add₀ two_ne_zero, zpow_natCast]
      push_cast
      ring
    refine ⟨_, e, ?_, he, hval⟩
    have hunit : (0 : ℚ) < |2 ^ e| := abs_pos.mpr (zpow_ne_zero e two_ne_zero)
    rw [hval, abs_mul, abs_mul, mul_le_mul_iff_left₀ hunit] at hle
    exact le_trans (by exact_mod_cast hle) hm
  · obtain ⟨d, rfl⟩ := Int.le.dest hfe
    have hval :
        remainder (m * 2 ^ (f + d)) (n * 2 ^ f) = ((m * 2 ^ d - n * k : ℤ) : ℚ) * 2 ^ f := by
      rw [remainder, ← hk, zpow_add₀ two_ne_zero, zpow_natCast]
      push_cast
      ring
    refine ⟨_, f, ?_, hf, hval⟩
    have hunit : (0 : ℚ) < |2 ^ f| := abs_pos.mpr (zpow_ne_zero f two_ne_zero)
    rw [hval, abs_mul, abs_mul, mul_lt_mul_iff_left₀ hunit] at hlt
    exact le_trans (by exact_mod_cast hlt.le) hn

end Remainder

/-! ### Doubles -/

/-- A double. -/
inductive Double
  | nan
  | negInf
  | finite (value : ℚ) (isDouble : IsDouble value)
  | posInf
  deriving DecidableEq

namespace Double

instance : Zero Double := ⟨finite 0 isDouble_zero⟩
instance : One Double := ⟨finite 1 isDouble_one⟩

theorem zero_def : (0 : Double) = finite 0 isDouble_zero := rfl

/-- A small integer. -/
def ofInt (n : ℤ) (hn : |n| ≤ 2 ^ 53) : Double := finite n (isDouble_intCast hn)

/-- `<=`, which is false for a not-a-number. -/
protected def le : Double → Double → Bool
  | nan, _ | _, nan => false
  | negInf, _ | _, posInf => true
  | finite x _, finite y _ => x ≤ y
  | _, _ => false

/-- `<`, which is false for a not-a-number. -/
protected def lt : Double → Double → Bool
  | nan, _ | _, nan => false
  | _, negInf | posInf, _ => false
  | finite x _, finite y _ => x < y
  | _, _ => true

instance : LE Double := ⟨fun a b => a.le b⟩
instance : LT Double := ⟨fun a b => a.lt b⟩

instance (a b : Double) : Decidable (a ≤ b) := inferInstanceAs (Decidable (a.le b = true))
instance (a b : Double) : Decidable (a < b) := inferInstanceAs (Decidable (a.lt b = true))

/-- `Number.isNaN`. -/
def isNaN : Double → Bool
  | nan => true
  | _ => false

/-- `Number.isFinite`. -/
def isFinite : Double → Bool
  | finite _ _ => true
  | _ => false

/-- `Math.max`; a not-a-number among the arguments is the result. -/
protected def max (a b : Double) : Double :=
  if a.isNaN || b.isNaN then nan else if a < b then b else a

/-- `Math.min`; a not-a-number among the arguments is the result. -/
protected def min (a b : Double) : Double :=
  if a.isNaN || b.isNaN then nan else if b < a then b else a

/-- The nearest double; what rounds to a number outside the range of exponents is infinite. -/
def round (q : ℚ) : Double :=
  if hlow : roundBinary q ≤ -overflow then negInf
  else if hhigh : overflow ≤ roundBinary q then posInf
  else finite (roundBinary q)
    ⟨isBinary_roundBinary q, abs_lt.mpr ⟨not_le.mp hlow, not_le.mp hhigh⟩⟩

/-- The sign of a double; a not-a-number has none. -/
def sign : Double → SignType
  | nan => 0
  | negInf => -1
  | finite x _ => SignType.sign x
  | posInf => 1

/-- The value of a finite double. -/
def value : Double → ℚ
  | finite x _ => x
  | _ => 0

/-- The opposite of a double. -/
protected def neg : Double → Double
  | nan => nan
  | negInf => posInf
  | finite x hx => finite (-x) hx.neg
  | posInf => negInf

/-- `+`. -/
protected def add : Double → Double → Double
  | nan, _ | _, nan => nan
  | finite x _, finite y _ => round (x + y)
  | posInf, negInf | negInf, posInf => nan
  | posInf, _ | _, posInf => posInf
  | _, _ => negInf

/-- The infinity of a sign. -/
def infinity : SignType → Double
  | .zero => nan
  | .neg => negInf
  | .pos => posInf

/-- `*`; the product of a zero and an infinity is a not-a-number. -/
protected def mul : Double → Double → Double
  | nan, _ | _, nan => nan
  | finite x _, finite y _ => round (x * y)
  | a, b => infinity (a.sign * b.sign)

/-- `%`, which is exact. -/
protected def mod : Double → Double → Double
  | finite x hx, finite y hy =>
    if h : y = 0 then nan else finite (remainder x y) (isDouble_remainder hx hy h)
  | finite x hx, negInf | finite x hx, posInf => finite x hx
  | _, _ => nan

instance : Add Double := ⟨Double.add⟩
instance : Sub Double := ⟨fun a b => a.add b.neg⟩
instance : Mul Double := ⟨Double.mul⟩
instance : Mod Double := ⟨Double.mod⟩

section Order

variable {x y : ℚ} {hx : IsDouble x} {hy : IsDouble y} {a b c d : Double}

@[simp] theorem finite_le_finite : finite x hx ≤ finite y hy ↔ x ≤ y :=
  decide_eq_true_iff

@[simp] theorem finite_lt_finite : finite x hx < finite y hy ↔ x < y :=
  decide_eq_true_iff

@[simp] theorem zero_le_finite : 0 ≤ finite x hx ↔ 0 ≤ x := finite_le_finite

@[simp] theorem zero_lt_finite : 0 < finite x hx ↔ 0 < x := finite_lt_finite

@[simp] theorem not_nan_le : ¬ nan ≤ a := Bool.false_ne_true

@[simp] theorem not_le_nan : ¬ a ≤ nan := by cases a <;> exact Bool.false_ne_true

theorem le_def : a ≤ b ↔ a.le b = true := Iff.rfl

theorem lt_def : a < b ↔ a.lt b = true := Iff.rfl

theorem le_trans (hab : a ≤ b) (hbc : b ≤ c) : a ≤ c := by
  cases a <;> cases b <;> cases c <;> simp_all [le_def, Double.le]
  exact hab.trans hbc

theorem le_antisymm (hab : a ≤ b) (hba : b ≤ a) : a = b := by
  cases a <;> cases b <;> simp_all [le_def, Double.le]
  exact hab.antisymm hba

theorem lt_irrefl : ¬ a < a := by cases a <;> simp [lt_def, Double.lt]

theorem isNaN_of_le (h : a ≤ b) : a.isNaN = false ∧ b.isNaN = false := by
  cases a <;> cases b <;> simp_all [isNaN]

theorem eq_nan_of_isNaN (h : a.isNaN) : a = nan := by
  cases a <;> simp_all [isNaN]

theorem isNaN_of_isFinite (h : a.isFinite) : a.isNaN = false := by
  cases a <;> simp_all [isNaN, isFinite]

/-- Numbers are linearly ordered. -/
theorem not_lt (ha : a.isNaN = false) (hb : b.isNaN = false) : ¬ a < b ↔ b ≤ a := by
  cases a <;> cases b <;> simp_all [isNaN, le_def, lt_def, Double.le, Double.lt]

theorem not_le_iff (ha : a.isNaN = false) (hb : b.isNaN = false) : ¬ a ≤ b ↔ b < a := by
  rw [← not_lt hb ha, not_not]

theorem le_refl (ha : a.isNaN = false) : a ≤ a := (not_lt ha ha).mp lt_irrefl

theorem le_of_lt (h : a < b) : a ≤ b := by
  cases a <;> cases b <;> simp_all [le_def, lt_def, Double.le, Double.lt]
  exact h.le

@[simp] theorem isNaN_max : (Double.max a b).isNaN = (a.isNaN || b.isNaN) := by
  unfold Double.max
  split_ifs <;> simp_all [isNaN]

theorem le_max_left (ha : a.isNaN = false) (hb : b.isNaN = false) : a ≤ Double.max a b := by
  rw [Double.max, ha, hb]
  split_ifs with _ h
  · simp_all
  · exact le_of_lt h
  · exact le_refl ha

theorem le_max_right (ha : a.isNaN = false) (hb : b.isNaN = false) : b ≤ Double.max a b := by
  rw [Double.max, ha, hb]
  split_ifs with _ h
  · simp_all
  · exact le_refl hb
  · exact (not_lt ha hb).mp h

theorem min_le_left (ha : a.isNaN = false) (hb : b.isNaN = false) : Double.min a b ≤ a := by
  rw [Double.min, ha, hb]
  split_ifs with _ h
  · simp_all
  · exact le_of_lt h
  · exact le_refl ha

theorem le_min (ha : c ≤ a) (hb : c ≤ b) : c ≤ Double.min a b := by
  rw [Double.min, (isNaN_of_le ha).2, (isNaN_of_le hb).2]
  split_ifs with _ h
  · simp_all
  · exact hb
  · exact ha

theorem min_eq_left (h : a ≤ b) : Double.min a b = a := by
  obtain ⟨ha, hb⟩ := isNaN_of_le h
  rw [Double.min, ha, hb, if_neg (by simp), if_neg ((not_lt hb ha).mpr h)]

theorem min_eq_right (h : b ≤ a) : Double.min a b = b := by
  obtain ⟨hb, ha⟩ := isNaN_of_le h
  refine le_antisymm ?_ (le_min h (le_refl hb))
  rw [Double.min, ha, hb]
  split_ifs with _ hlt
  · simp_all
  · exact le_refl hb
  · exact (not_lt hb ha).mp hlt

theorem max_eq_right (h : a ≤ b) : Double.max a b = b := by
  obtain ⟨ha, hb⟩ := isNaN_of_le h
  exact le_antisymm (by
    rw [Double.max, ha, hb]
    split_ifs with _ hlt
    · simp_all
    · exact le_refl hb
    · exact h) (le_max_right ha hb)

end Order

/-! ### Arithmetic -/

section Arithmetic

variable {x y q : ℚ} {hx : IsDouble x} {hy : IsDouble y} {a b d : Double}

theorem finite_add_finite : finite x hx + finite y hy = round (x + y) := rfl

theorem finite_mul_finite : finite x hx * finite y hy = round (x * y) := rfl

theorem finite_mod_finite (h : y ≠ 0) :
    finite x hx % finite y hy = finite (remainder x y) (isDouble_remainder hx hy h) :=
  dif_neg h

theorem not_roundBinary_le (h : 0 ≤ q) : ¬ roundBinary q ≤ -overflow :=
  not_le.mpr ((neg_lt_zero.mpr overflow_pos).trans_le
    (le_roundBinary isDouble_zero.1 le_rfl h))

/-- Rounding does not go below a double. -/
theorem le_round (hx : IsDouble x) (hx0 : 0 ≤ x) (h : x ≤ q) : finite x hx ≤ round q := by
  have hle : x ≤ roundBinary q := le_roundBinary hx.1 hx0 h
  rw [round, dif_neg (not_roundBinary_le (hx0.trans h))]
  split_ifs with hhigh
  · exact rfl
  · exact finite_le_finite.mpr hle

/-- A double needs no rounding. -/
theorem round_of_isDouble (hx : IsDouble x) : round x = finite x hx := by
  have hround := roundBinary_of_isBinary hx.1
  obtain ⟨hlow, hhigh⟩ := abs_lt.mp hx.2
  unfold round
  rw [dif_neg (by rw [hround]; exact not_le.mpr hlow),
    dif_neg (by rw [hround]; exact not_le.mpr hhigh)]
  simp only [hround]

/-- Rounding to a double keeps the order. -/
theorem round_mono {q r : ℚ} (hq : 0 ≤ q) (h : q ≤ r) : round q ≤ round r := by
  have hle := roundBinary_mono hq h
  rw [round, round, dif_neg (not_roundBinary_le hq), dif_neg (not_roundBinary_le (hq.trans h))]
  split_ifs with hlow hhigh
  · exact rfl
  · exact absurd (hlow.trans hle) hhigh
  · exact rfl
  · exact finite_le_finite.mpr hle

/-- What is at least the largest power is rounded to the infinity. -/
theorem round_eq_posInf (h : overflow ≤ q) : round q = posInf := by
  rw [round, dif_neg (not_roundBinary_le (overflow_pos.le.trans h)),
    dif_pos (le_roundBinary isBinary_overflow overflow_pos.le h)]

/-- A sum is not below a summand if the other one is not negative. -/
theorem le_add (ha : 0 ≤ a) (hb : 0 ≤ b) : a ≤ a + b := by
  cases a with
  | nan => exact absurd ha not_le_nan
  | negInf => exact absurd ha (by decide)
  | posInf => cases b with
    | nan => exact absurd hb not_le_nan
    | negInf => exact absurd hb (by decide)
    | finite y hy => exact rfl
    | posInf => exact rfl
  | finite x hx => cases b with
    | nan => exact absurd hb not_le_nan
    | negInf => exact absurd hb (by decide)
    | finite y hy =>
      rw [zero_le_finite] at ha hb
      rw [finite_add_finite]
      exact le_round hx ha (by linarith)
    | posInf => exact rfl

theorem sign_nonneg (ha : 0 ≤ a) : 0 ≤ a.sign := by
  cases a with
  | nan => exact absurd ha not_le_nan
  | negInf => exact absurd ha (by decide)
  | finite x hx => exact sign_nonneg_iff.mpr (zero_le_finite.mp ha)
  | posInf => decide

theorem zero_le_infinity :
    ∀ s t : SignType, 0 ≤ s → 0 ≤ t → (infinity (s * t)).isNaN = false → 0 ≤ infinity (s * t) := by
  decide

/-- A product of numbers that are not negative is not negative, unless it is a not-a-number. -/
theorem mul_nonneg (ha : 0 ≤ a) (hb : 0 ≤ b) (hab : (a * b).isNaN = false) : 0 ≤ a * b := by
  have hsign := zero_le_infinity a.sign b.sign (sign_nonneg ha) (sign_nonneg hb)
  cases a with
  | nan => exact absurd ha not_le_nan
  | negInf => exact absurd ha (by decide)
  | posInf => cases b with
    | nan => exact absurd hb not_le_nan
    | _ => exact hsign hab
  | finite x hx => cases b with
    | nan => exact absurd hb not_le_nan
    | finite y hy =>
      rw [zero_le_finite] at ha hb
      rw [finite_mul_finite]
      exact le_round isDouble_zero le_rfl (by positivity)
    | _ => exact hsign hab

theorem mod_of_not_isFinite (h : a.isFinite = false) : a % d = nan := by
  cases a <;> simp_all [isFinite] <;> rfl

theorem finite_sub_finite : finite x hx - finite y hy = round (x + -y) := rfl

/-- What has been subtracted from a larger double leaves a double that is not negative. -/
theorem sub_mem (ha : 0 ≤ a) (hab : a ≤ b) (hb : b.isFinite) :
    0 ≤ b - a ∧ (b - a).isFinite := by
  cases b with
  | finite y hy =>
    cases a with
    | finite x hx =>
      rw [zero_le_finite] at ha
      rw [finite_le_finite] at hab
      rw [finite_sub_finite]
      have hlow : 0 ≤ round (y + -x) := le_round isDouble_zero le_rfl (by linarith)
      have hhigh : round (y + -x) ≤ finite y hy := by
        rw [← round_of_isDouble hy]
        exact round_mono (by linarith) (by linarith)
      refine ⟨hlow, ?_⟩
      cases hround : round (y + -x) with
      | finite z hz => rfl
      | nan =>
        rw [hround] at hlow
        exact absurd hlow not_le_nan
      | negInf =>
        rw [hround] at hlow
        exact absurd hlow (by decide)
      | posInf =>
        rw [hround] at hhigh
        exact absurd hhigh Bool.false_ne_true
    | nan => exact absurd ha not_le_nan
    | negInf => exact absurd ha (by decide)
    | posInf => exact absurd hab Bool.false_ne_true
  | nan => cases hb
  | negInf => cases hb
  | posInf => cases hb

/-- A number between finite ones is finite. -/
theorem isFinite_of_le (ha : 0 ≤ a) (hab : a ≤ b) (hb : b.isFinite) : a.isFinite := by
  cases a with
  | finite x hx => rfl
  | nan => exact absurd ha not_le_nan
  | negInf => exact absurd ha (by decide)
  | posInf =>
    cases b with
    | finite y hy => exact absurd hab Bool.false_ne_true
    | nan => cases hb
    | negInf => cases hb
    | posInf => cases hb

/-- Subtracting keeps the order of doubles that are not below the subtrahend. -/
theorem sub_le_sub_right {c : Double} (ha : 0 ≤ a) (hab : a ≤ b) (hbc : b ≤ c)
    (hc : c.isFinite) : b - a ≤ c - a := by
  cases c with
  | finite z hz =>
    cases b with
    | finite y hy =>
      cases a with
      | finite x hx =>
        rw [zero_le_finite] at ha
        rw [finite_le_finite] at hab hbc
        rw [finite_sub_finite, finite_sub_finite]
        exact round_mono (by linarith) (by linarith)
      | nan => exact absurd ha not_le_nan
      | negInf => exact absurd ha (by decide)
      | posInf => exact absurd hab Bool.false_ne_true
    | nan => exact absurd hbc not_nan_le
    | negInf => exact absurd (le_trans ha hab) (by decide)
    | posInf => exact absurd hbc Bool.false_ne_true
  | nan => cases hc
  | negInf => cases hc
  | posInf => cases hc

/-- A difference that is below a double when rounded is below it. -/
theorem value_sub_value_lt (ha : a.isFinite) (hb : b.isFinite) (hx : IsDouble x) (hx0 : 0 ≤ x)
    (h : ¬ finite x hx ≤ a - b) : a.value - b.value < x := by
  cases a with
  | finite y hy => cases b with
    | finite z hz =>
      rw [finite_sub_finite] at h
      exact not_le.mp fun hle => h (le_round hx hx0 (by rw [← sub_eq_add_neg]; exact hle))
    | _ => cases hb
  | _ => cases ha

@[simp] theorem add_nan : a + nan = nan := by cases a <;> rfl

@[simp] theorem nan_mul : nan * b = nan := rfl

/-- A remainder of a number that is not negative by a positive number is below that number. -/
theorem mod_mem (ha : 0 ≤ a) (hfin : a.isFinite) (hd : 0 < d) : 0 ≤ a % d ∧ a % d < d := by
  cases a with
  | finite x hx =>
    rw [zero_le_finite] at ha
    cases d with
    | nan => exact absurd hd (by decide)
    | negInf => exact absurd hd (by decide)
    | posInf => exact ⟨zero_le_finite.mpr ha, rfl⟩
    | finite y hy =>
      have hy0 : 0 < y := zero_lt_finite.mp hd
      have hlt : remainder x y < y :=
        (le_abs_self _).trans_lt ((abs_remainder_lt hy0.ne').trans_eq (abs_of_pos hy0))
      rw [finite_mod_finite hy0.ne']
      exact ⟨zero_le_finite.mpr (remainder_nonneg ha hy0), finite_lt_finite.mpr hlt⟩
  | _ => exact absurd hfin (by decide)

/-- The sum of doubles, added from the first to the last. -/
def total (xs : List Double) : Double := xs.foldl (· + ·) 0

@[simp] theorem total_nil : total [] = 0 := rfl

theorem total_concat (xs : List Double) (b : Double) : total (xs ++ [b]) = total xs + b :=
  List.foldl_append

theorem round_add_round {m n : ℕ} (h : m + n ≤ 2 ^ 53) :
    round m + round n = round ((m + n : ℕ) : ℚ) := by
  have hdouble : ∀ {k : ℕ}, k ≤ 2 ^ 53 → IsDouble (k : ℚ) := fun {k} hk => by
    have hint := isDouble_intCast (n := k) (by rw [Nat.abs_cast]; exact_mod_cast hk)
    exact_mod_cast hint
  rw [round_of_isDouble (hdouble (Nat.le_of_add_right_le h)),
    round_of_isDouble (hdouble (Nat.le_of_add_left_le h)), finite_add_finite, Nat.cast_add]

/-- A sum of natural numbers is exact up to the first number with 54 bits. -/
theorem total_natCast {ns : List ℕ} (h : ns.sum ≤ 2 ^ 53) :
    total (ns.map fun n : ℕ => round n) = round (ns.sum : ℚ) := by
  induction ns using List.reverseRecOn with
  | nil =>
    rw [List.map_nil, List.sum_nil, Nat.cast_zero, round_of_isDouble isDouble_zero]
    rfl
  | append_singleton ns n ih =>
    rw [List.sum_append, List.sum_singleton] at h ⊢
    rw [List.map_append, List.map_singleton, total_concat, ih (Nat.le_of_add_right_le h),
      round_add_round h]

end Arithmetic

end Double

end Procinsh
