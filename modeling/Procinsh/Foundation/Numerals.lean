import Mathlib.Data.UInt
import Mathlib.Tactic.Common

/-!
# Numerals

Numbers are written with digits of a base up to 16, and read back by adding up the digits.  Leading
zeros are of no account, so that a numeral may be padded to a width.
-/

namespace Procinsh

/-- The value of a digit in a base. -/
def toDigit (base : ℕ) (c : Char) : Option ℕ :=
  let value :=
    if '0' ≤ c ∧ c ≤ '9' then some (c.toNat - '0'.toNat)
    else if 'a' ≤ c ∧ c ≤ 'z' then some (c.toNat - 'a'.toNat + 10)
    else if 'A' ≤ c ∧ c ≤ 'Z' then some (c.toNat - 'A'.toNat + 10)
    else none
  value.filter (· < base)

/-- The number that digits continue. -/
def readDigits (base : ℕ) : ℕ → List Char → Option ℕ
  | n, [] => some n
  | n, c :: cs => (toDigit base c).bind fun d => readDigits base (base * n + d) cs

/-- A 64-bit number from its digits, behind a sign that may be there; `from_str_radix`. -/
def fromStrRadix (base : ℕ) (text : String) : Option UInt64 :=
  let digits :=
    match text.toList with
    | '+' :: cs => cs
    | cs => cs
  if digits = [] then none
  else (readDigits base 0 digits).bind fun n => if n < 2 ^ 64 then some (.ofNat n) else none

/-- Digits with zeros before them, up to a width. -/
def paddedDigits (base width n : ℕ) : List Char :=
  let digits := Nat.toDigits base n
  List.replicate (width - digits.length) '0' ++ digits

theorem toDigit_digitChar {base d : ℕ} (hbase : base ≤ 16) (hd : d < base) :
    toDigit base (Nat.digitChar d) = some d := by
  have hvalue : ∀ d < 16, toDigit 16 (Nat.digitChar d) = some d := by decide
  have h := hvalue d (Nat.lt_of_lt_of_le hd hbase)
  rw [toDigit, Option.filter_eq_some_iff] at h ⊢
  exact ⟨h.1, decide_eq_true hd⟩

theorem readDigits_append (base n : ℕ) (cs ds : List Char) :
    readDigits base n (cs ++ ds) = (readDigits base n cs).bind fun m => readDigits base m ds := by
  induction cs generalizing n with
  | nil => rfl
  | cons c cs ih =>
    rw [List.cons_append, readDigits, readDigits, Option.bind_assoc]
    exact Option.bind_congr fun d _ => ih _

/-- The digits of a number are read as the number. -/
theorem readDigits_toDigits {base : ℕ} (hone : 1 < base) (hbase : base ≤ 16) (n : ℕ) :
    readDigits base 0 (Nat.toDigits base n) = some n := by
  induction n using Nat.strongRecOn with
  | ind n ih =>
    rw [Nat.toDigits_eq_if hone]
    split
    · next hlt =>
      rw [readDigits, toDigit_digitChar hbase hlt, Option.bind_some, readDigits, Nat.mul_zero,
        Nat.zero_add]
    · next hle =>
      have hdiv : n / base < n := Nat.div_lt_self (by omega) hone
      have hmod : n % base < base := Nat.mod_lt n (by omega)
      rw [readDigits_append, ih _ hdiv, Option.bind_some, readDigits,
        toDigit_digitChar hbase hmod, Option.bind_some, readDigits, Nat.div_add_mod]

theorem readDigits_zeros (base k : ℕ) (hbase : 0 < base) (cs : List Char) :
    readDigits base 0 (List.replicate k '0' ++ cs) = readDigits base 0 cs := by
  induction k with
  | zero => rfl
  | succ k ih =>
    have hzero : toDigit base '0' = some 0 := by
      rw [toDigit, Option.filter_eq_some_iff]
      exact ⟨by decide, decide_eq_true hbase⟩
    rw [List.replicate_succ, List.cons_append, readDigits, hzero, Option.bind_some,
      Nat.mul_zero, Nat.add_zero, ih]

/-- Padding does not change what digits are read as. -/
theorem readDigits_paddedDigits {base : ℕ} (hone : 1 < base) (hbase : base ≤ 16) (width n : ℕ) :
    readDigits base 0 (paddedDigits base width n) = some n := by
  rw [paddedDigits, readDigits_zeros base _ (by omega), readDigits_toDigits hone hbase]

/-- The digits of a number have a value. -/
theorem exists_toDigit_of_mem_paddedDigits {base width n : ℕ} (hone : 1 < base) (hbase : base ≤ 16)
    {c : Char} (h : c ∈ paddedDigits base width n) : ∃ d, toDigit base c = some d := by
  have hall : ∀ (m : ℕ) (cs : List Char), (readDigits base m cs).isSome → c ∈ cs →
      ∃ d, toDigit base c = some d := by
    intro m cs
    induction cs generalizing m with
    | nil => exact fun _ h => absurd h List.not_mem_nil
    | cons a cs ih =>
      intro hsome hmem
      rw [readDigits] at hsome
      cases ha : toDigit base a with
      | none =>
        rw [ha] at hsome
        cases hsome
      | some d =>
        rw [ha, Option.bind_some] at hsome
        rcases List.mem_cons.mp hmem with rfl | hmem
        · exact ⟨d, ha⟩
        · exact ih _ hsome hmem
  refine hall 0 _ ?_ h
  rw [readDigits_paddedDigits hone hbase, Option.isSome_some]

theorem paddedDigits_ne_nil (base width n : ℕ) : paddedDigits base width n ≠ [] := fun h =>
  Nat.toDigits_ne_nil (List.append_eq_nil_iff.mp h).2

/-- A 64-bit number is read from its padded digits. -/
theorem fromStrRadix_paddedDigits {base : ℕ} (hone : 1 < base) (hbase : base ≤ 16) (width : ℕ)
    (n : UInt64) : fromStrRadix base (String.ofList (paddedDigits base width n.toNat)) = some n := by
  have hsign : '+' ∉ paddedDigits base width n.toNat := by
    intro h
    obtain ⟨d, hd⟩ := exists_toDigit_of_mem_paddedDigits hone hbase h
    have hnone : toDigit base '+' = none := rfl
    rw [hnone] at hd
    cases hd
  have hread := readDigits_paddedDigits hone hbase width n.toNat
  have hnil := paddedDigits_ne_nil base width n.toNat
  rw [fromStrRadix, String.toList_ofList]
  generalize paddedDigits base width n.toNat = digits at hsign hread hnil
  have hread' : (if digits = [] then none
      else (readDigits base 0 digits).bind fun n => if n < 2 ^ 64 then some (.ofNat n) else none) =
        some n := by
    rw [if_neg hnil, hread, Option.bind_some, if_pos n.toNat_lt, UInt64.ofNat_toNat]
  split
  · exact absurd List.mem_cons_self hsign
  · exact hread'

/-- A 64-bit number is read from its decimal text. -/
theorem fromStrRadix_toString (n : UInt64) : fromStrRadix 10 (toString n.toNat) = some n := by
  have htext : toString n.toNat = String.ofList (paddedDigits 10 0 n.toNat) := by
    rw [paddedDigits, Nat.zero_sub]
    rfl
  rw [htext, fromStrRadix_paddedDigits (by decide) (by decide)]

end Procinsh
