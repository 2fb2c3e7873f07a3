import Mathlib.Data.List.Basic
import Mathlib.Order.Nat
import Procinsh.Foundation.Lists

/-!
# UTF-8 with repair

`encode` is the UTF-8 text of characters and `repair` reads a text back, with a replacement character
for every maximal part that is not the beginning of a character.  Repair does not look across the
start of a character: a text may be cut in front of any byte that is not a continuation byte, and the
parts repaired on their own.  What was encoded is read back as it is.
-/

namespace Procinsh.Utf8

/-- The text of characters. -/
def encode (l : List Char) : List UInt8 := l.flatMap String.utf8EncodeChar

/-- What stands for bytes that are not a character. -/
def replacement : Char := Char.ofNat 0xFFFD

/-- A byte that is not the first of a character. -/
def IsContinuation (b : ℕ) : Prop := 0x80 ≤ b ∧ b < 0xC0

instance (b : ℕ) : Decidable (IsContinuation b) := inferInstanceAs (Decidable (_ ∧ _))

/-- The second bytes after a first byte of three or four bytes; not those of overlong forms,
surrogates and numbers that are too large. -/
def IsSecond (b x : ℕ) : Prop :=
  (if b = 0xE0 then 0xA0 else if b = 0xF0 then 0x90 else 0x80) ≤ x ∧
    x < if b = 0xED then 0xA0 else if b = 0xF4 then 0x90 else 0xC0

instance (b x : ℕ) : Decidable (IsSecond b x) := inferInstanceAs (Decidable (_ ∧ _))

/-- The character that starts with a byte, given the three bytes that follow, and how many of these
belong to it. -/
def step (b x y z : ℕ) : Char × ℕ :=
  if b < 0x80 then (Char.ofNat b, 0)
  else if 0xC2 ≤ b ∧ b < 0xE0 then
    if IsContinuation x then (Char.ofNat ((b - 0xC0) * 64 + (x - 0x80)), 1) else (replacement, 0)
  else if 0xE0 ≤ b ∧ b < 0xF0 then
    if IsSecond b x then
      if IsContinuation y then
        (Char.ofNat ((b - 0xE0) * 4096 + (x - 0x80) * 64 + (y - 0x80)), 2)
      else (replacement, 1)
    else (replacement, 0)
  else if 0xF0 ≤ b ∧ b < 0xF5 then
    if IsSecond b x then
      if IsContinuation y then
        if IsContinuation z then
          (Char.ofNat ((b - 0xF0) * 262144 + (x - 0x80) * 4096 + (y - 0x80) * 64 + (z - 0x80)), 3)
        else (replacement, 2)
      else (replacement, 1)
    else (replacement, 0)
  else (replacement, 0)

/-- A byte of a text, zero behind its end. -/
def byteAt (l : List UInt8) (i : ℕ) : ℕ := (l[i]?.getD 0).toNat

/-- The first character of a text and how many bytes behind the first belong to it. -/
def first (b : UInt8) (rest : List UInt8) : Char × ℕ :=
  step b.toNat (byteAt rest 0) (byteAt rest 1) (byteAt rest 2)

/-- The first characters of a text. -/
def repairUpTo : ℕ → List UInt8 → List Char
  | 0, _ => []
  | _ + 1, [] => []
  | n + 1, b :: rest => (first b rest).1 :: repairUpTo n (rest.drop (first b rest).2)

/-- The characters of a text. -/
def repair (l : List UInt8) : List Char := repairUpTo l.length l

example : repair [0x61, 0xE2, 0x96, 0x62, 0xE2, 0x96, 0x91, 0x91] =
    ['a', replacement, 'b', '░', replacement] := by decide

/-! ### Steps -/

/-- Steps beyond the length of the text change nothing. -/
theorem repairUpTo_eq {n m : ℕ} {l : List UInt8} (hn : l.length ≤ n) (hm : l.length ≤ m) :
    repairUpTo n l = repairUpTo m l := by
  induction n generalizing m l with
  | zero =>
    obtain rfl : l = [] := List.length_eq_zero_iff.mp (by omega)
    cases m with
    | zero => rfl
    | succ m => rfl
  | succ n ih =>
    cases l with
    | nil =>
      cases m with
      | zero => rfl
      | succ m => rfl
    | cons b rest =>
      rw [List.length_cons] at hn hm
      obtain ⟨m, rfl⟩ : ∃ k, m = k + 1 := ⟨m - 1, by omega⟩
      have hdrop : (rest.drop (first b rest).2).length ≤ rest.length := by
        rw [List.length_drop]
        omega
      rw [repairUpTo, repairUpTo, ih (m := m) (by omega) (by omega)]

@[simp] theorem repair_nil : repair [] = [] := rfl

/-- A text is read one character after the other. -/
theorem repair_cons (b : UInt8) (rest : List UInt8) :
    repair (b :: rest) = (first b rest).1 :: repair (rest.drop (first b rest).2) := by
  have hdrop : (rest.drop (first b rest).2).length ≤ rest.length := by
    rw [List.length_drop]
    omega
  unfold repair
  rw [List.length_cons, repairUpTo, repairUpTo_eq hdrop le_rfl]

/-! ### Cuts -/

/-- A place in front of which a text may be cut: the end, or a byte that is not a continuation. -/
def IsCut (l : List UInt8) : Prop := ¬IsContinuation (byteAt l 0)

theorem not_isContinuation_zero : ¬IsContinuation 0 := by decide

theorem isContinuation_of_isSecond {b x : ℕ} (h : IsSecond b x) : IsContinuation x := by
  unfold IsSecond at h
  unfold IsContinuation
  obtain ⟨hle, hlt⟩ := h
  constructor
  · refine le_trans ?_ hle
    split_ifs <;> omega
  · refine lt_of_lt_of_le hlt ?_
    split_ifs <;> omega

/-- Behind a byte that is not a continuation nothing is looked at. -/
theorem step_of_not_first {b x : ℕ} (hx : ¬IsContinuation x) (y z : ℕ) :
    step b x y z = step b 0 0 0 ∧ (step b x y z).2 = 0 := by
  have hsecond : ¬IsSecond b x := fun h => hx (isContinuation_of_isSecond h)
  have hzero : ¬IsSecond b 0 := fun h => not_isContinuation_zero (isContinuation_of_isSecond h)
  unfold step
  simp only [if_neg hx, if_neg hsecond, if_neg hzero, if_neg not_isContinuation_zero]
  refine ⟨trivial, ?_⟩
  split_ifs <;> rfl

theorem step_of_not_second {b x y : ℕ} (hy : ¬IsContinuation y) (z : ℕ) :
    step b x y z = step b x 0 0 ∧ (step b x y z).2 ≤ 1 := by
  unfold step
  simp only [if_neg hy, if_neg not_isContinuation_zero]
  refine ⟨trivial, ?_⟩
  split_ifs <;> simp

theorem step_of_not_third {b x y z : ℕ} (hz : ¬IsContinuation z) :
    step b x y z = step b x y 0 ∧ (step b x y z).2 ≤ 2 := by
  unfold step
  simp only [if_neg hz, if_neg not_isContinuation_zero]
  refine ⟨trivial, ?_⟩
  split_ifs <;> simp

theorem step_le (b x y z : ℕ) : (step b x y z).2 ≤ 3 := by
  unfold step
  split_ifs <;> simp

/-- The first character in front of a cut. -/
theorem first_append (b : UInt8) (rest : List UInt8) {later : List UInt8} (h : IsCut later) :
    first b (rest ++ later) = first b rest ∧ (first b rest).2 ≤ rest.length := by
  unfold first
  match rest with
  | [] =>
    obtain ⟨hstep, hle⟩ := step_of_not_first h (byteAt later 1) (byteAt later 2) (b := b.toNat)
    exact ⟨hstep, (hstep ▸ hle).le⟩
  | [x] =>
    obtain ⟨hstep, hle⟩ := step_of_not_second h (byteAt later 1) (b := b.toNat) (x := x.toNat)
    exact ⟨hstep, hstep ▸ hle⟩
  | [x, y] =>
    obtain ⟨hstep, hle⟩ := step_of_not_third h (b := b.toNat) (x := x.toNat) (y := y.toNat)
    exact ⟨hstep, hstep ▸ hle⟩
  | x :: y :: z :: rest =>
    refine ⟨rfl, (step_le _ _ _ _).trans ?_⟩
    simp

/-- A text may be cut, and the parts repaired on their own. -/
theorem repair_append {l later : List UInt8} (h : IsCut later) :
    repair (l ++ later) = repair l ++ repair later := by
  induction hn : l.length using Nat.strongRecOn generalizing l with
  | ind n ih =>
    cases l with
    | nil => rfl
    | cons b rest =>
      obtain ⟨hfirst, hle⟩ := first_append b rest h
      have hlt : (rest.drop (first b rest).2).length < n := by
        rw [List.length_drop, ← hn, List.length_cons]
        omega
      rw [List.cons_append, repair_cons, repair_cons, hfirst, List.drop_append_of_le_length hle,
        ih _ hlt rfl, List.cons_append]

/-! ### Encoded text -/

theorem encode_append (l l' : List Char) : encode (l ++ l') = encode l ++ encode l' :=
  List.flatMap_append

/-- The text of joined parts. -/
theorem encode_intercalate (sep : List Char) (parts : List (List Char)) :
    encode (sep.intercalate parts) = (encode sep).intercalate (parts.map encode) := by
  apply apply_intercalate rfl
  intro xs ys
  rw [encode_append, encode_append]

/-- The number of a character that is not a surrogate and not too large. -/
theorem toNat_valid (c : Char) : c.toNat < 0xD800 ∨ 0xDFFF < c.toNat ∧ c.toNat < 0x110000 :=
  c.valid

theorem step_one {v : ℕ} (h : v < 0x80) (x y z : ℕ) : step v x y z = (Char.ofNat v, 0) := by
  rw [step, if_pos h]

theorem step_two {v : ℕ} (hlo : 0x80 ≤ v) (hhi : v < 0x800) (y z : ℕ) :
    step (v / 64 % 0x20 + 0xC0) (v % 0x40 + 0x80) y z = (Char.ofNat v, 1) := by
  have hsecond : IsContinuation (v % 0x40 + 0x80) := ⟨by omega, by omega⟩
  have hv : (v / 64 % 0x20 + 0xC0 - 0xC0) * 64 + (v % 0x40 + 0x80 - 0x80) = v := by omega
  rw [step, if_neg (by omega), if_pos (by omega), if_pos hsecond, hv]

theorem step_three {v : ℕ} (hlo : 0x800 ≤ v) (hhi : v < 0x10000)
    (hvalid : v < 0xD800 ∨ 0xDFFF < v) (z : ℕ) :
    step (v / 4096 % 0x10 + 0xE0) (v / 64 % 0x40 + 0x80) (v % 0x40 + 0x80) z =
      (Char.ofNat v, 2) := by
  have hsecond : IsSecond (v / 4096 % 0x10 + 0xE0) (v / 64 % 0x40 + 0x80) := by
    constructor
    · split_ifs <;> omega
    · split_ifs <;> omega
  have hthird : IsContinuation (v % 0x40 + 0x80) := ⟨by omega, by omega⟩
  have hv : (v / 4096 % 0x10 + 0xE0 - 0xE0) * 4096 + (v / 64 % 0x40 + 0x80 - 0x80) * 64 +
      (v % 0x40 + 0x80 - 0x80) = v := by omega
  rw [step, if_neg (by omega), if_neg (by omega), if_pos (by omega), if_pos hsecond,
    if_pos hthird, hv]

theorem step_four {v : ℕ} (hlo : 0x10000 ≤ v) (hhi : v < 0x110000) :
    step (v / 262144 % 0x08 + 0xF0) (v / 4096 % 0x40 + 0x80) (v / 64 % 0x40 + 0x80)
      (v % 0x40 + 0x80) = (Char.ofNat v, 3) := by
  have hsecond : IsSecond (v / 262144 % 0x08 + 0xF0) (v / 4096 % 0x40 + 0x80) := by
    constructor
    · split_ifs <;> omega
    · split_ifs <;> omega
  have hthird : IsContinuation (v / 64 % 0x40 + 0x80) := ⟨by omega, by omega⟩
  have hfourth : IsContinuation (v % 0x40 + 0x80) := ⟨by omega, by omega⟩
  have hv : (v / 262144 % 0x08 + 0xF0 - 0xF0) * 262144 + (v / 4096 % 0x40 + 0x80 - 0x80) * 4096 +
      (v / 64 % 0x40 + 0x80 - 0x80) * 64 + (v % 0x40 + 0x80 - 0x80) = v := by omega
  rw [step, if_neg (by omega), if_neg (by omega), if_neg (by omega), if_pos (by omega),
    if_pos hsecond, if_pos hthird, if_pos hfourth, hv]

/-- A character at the beginning of a text is read back. -/
theorem repair_utf8EncodeChar_append (c : Char) (later : List UInt8) :
    repair (String.utf8EncodeChar c ++ later) = c :: repair later := by
  have hvalid := toNat_valid c
  have hc : Char.ofNat c.toNat = c := Char.ofNat_toNat c
  have hval : c.val.toNat = c.toNat := rfl
  have hbyte {n : ℕ} (h : n < 256) : (UInt8.ofNat n).toNat = n := UInt8.toNat_ofNat_of_lt' h
  unfold String.utf8EncodeChar
  simp only [hval]
  split_ifs with hone htwo hthree
  · have hfirst : first (UInt8.ofNat c.toNat) later = (c, 0) := by
      rw [first, hbyte (by omega), step_one (by omega), hc]
    rw [List.cons_append, List.nil_append, repair_cons, hfirst, List.drop_zero]
  · rw [List.cons_append, List.cons_append, List.nil_append, repair_cons, first]
    simp only [byteAt, List.getElem?_cons_zero, Option.getD_some]
    rw [hbyte (by omega), hbyte (by omega), step_two (by omega) (by omega), hc]
    rfl
  · rw [List.cons_append, List.cons_append, List.cons_append, List.nil_append, repair_cons, first]
    simp only [byteAt, List.getElem?_cons_zero, List.getElem?_cons_succ, Option.getD_some]
    rw [hbyte (by omega), hbyte (by omega), hbyte (by omega),
      step_three (by omega) (by omega) (by omega), hc]
    rfl
  · rw [List.cons_append, List.cons_append, List.cons_append, List.cons_append, List.nil_append,
      repair_cons, first]
    simp only [byteAt, List.getElem?_cons_zero, List.getElem?_cons_succ, Option.getD_some]
    rw [hbyte (by omega), hbyte (by omega), hbyte (by omega), hbyte (by omega),
      step_four (by omega) (by omega), hc]
    rfl

/-- Encoded text at the beginning of a text is read back. -/
theorem repair_encode_append (l : List Char) (later : List UInt8) :
    repair (encode l ++ later) = l ++ repair later := by
  induction l with
  | nil => rfl
  | cons c l ih =>
    rw [encode, List.flatMap_cons, List.append_assoc, repair_utf8EncodeChar_append, ← encode, ih,
      List.cons_append]

/-- Encoded text is read back. -/
@[simp] theorem repair_encode (l : List Char) : repair (encode l) = l := by
  have h := repair_encode_append l []
  rwa [List.append_nil, repair_nil, List.append_nil] at h

theorem byteAt_ofNat_cons {n : ℕ} (h : n < 256) (l : List UInt8) :
    byteAt (UInt8.ofNat n :: l) 0 = n :=
  UInt8.toNat_ofNat_of_lt' h

/-- Text is cut in front of a character. -/
theorem isCut_encode_append {l : List Char} (hl : l ≠ []) (later : List UInt8) :
    IsCut (encode l ++ later) := by
  obtain ⟨c, l, rfl⟩ := List.exists_cons_of_ne_nil hl
  have hvalid := toNat_valid c
  have hval : c.val.toNat = c.toNat := rfl
  unfold IsCut IsContinuation
  rw [encode, List.flatMap_cons]
  unfold String.utf8EncodeChar
  simp only [hval]
  split_ifs
  · rw [List.cons_append, List.cons_append, byteAt_ofNat_cons (by omega)]
    omega
  · rw [List.cons_append, List.cons_append, byteAt_ofNat_cons (by omega)]
    omega
  · rw [List.cons_append, List.cons_append, byteAt_ofNat_cons (by omega)]
    omega
  · rw [List.cons_append, List.cons_append, byteAt_ofNat_cons (by omega)]
    omega

/-! ### NUL -/

/-- Only the number zero is the NUL character. -/
theorem ofNat_ne_nul {n : ℕ} (hpos : 0 < n) (hvalid : n < 0xD800 ∨ 0xDFFF < n ∧ n < 0x110000) :
    Char.ofNat n ≠ '\x00' := by
  intro h
  have hn : (Char.ofNat n).toNat = n := by
    rw [Char.ofNat, dif_pos hvalid]
    rfl
  rw [h] at hn
  exact hpos.ne hn

theorem replacement_ne_nul : replacement ≠ '\x00' := by decide

/-- A character read from a text is NUL only for the byte zero. -/
theorem eq_zero_of_step {b x y z : ℕ} (h : (step b x y z).1 = '\x00') : b = 0 := by
  by_contra hb
  revert h
  unfold step
  split_ifs with h1 h2 hx h3 hx hy h4 hx hy hz
  · exact ofNat_ne_nul (by omega) (by omega)
  · obtain ⟨hxlo, hxhi⟩ := hx
    dsimp only
    exact ofNat_ne_nul (by omega) (by omega)
  · exact replacement_ne_nul
  · obtain ⟨hylo, hyhi⟩ := hy
    obtain ⟨hxlo, hxhi⟩ := hx
    dsimp only
    exact ofNat_ne_nul (by split_ifs at hxlo <;> omega) (by split_ifs at hxlo hxhi <;> omega)
  · exact replacement_ne_nul
  · exact replacement_ne_nul
  · obtain ⟨hzlo, hzhi⟩ := hz
    obtain ⟨hylo, hyhi⟩ := hy
    obtain ⟨hxlo, hxhi⟩ := hx
    dsimp only
    exact ofNat_ne_nul (by split_ifs at hxlo <;> omega) (by split_ifs at hxlo hxhi <;> omega)
  · exact replacement_ne_nul
  · exact replacement_ne_nul
  · exact replacement_ne_nul
  · exact replacement_ne_nul

/-- Repair makes no NUL. -/
theorem zero_mem_of_nul_mem_repair {l : List UInt8} (h : '\x00' ∈ repair l) : 0 ∈ l := by
  induction hn : l.length using Nat.strongRecOn generalizing l with
  | ind n ih =>
    cases l with
    | nil => exact absurd h List.not_mem_nil
    | cons b rest =>
      rw [repair_cons, List.mem_cons] at h
      rcases h with h | h
      · have hb : b.toNat = 0 := eq_zero_of_step h.symm
        have hb' : b = 0 := UInt8.toNat_inj.mp hb
        exact hb' ▸ List.mem_cons_self
      · have hlt : (rest.drop (first b rest).2).length < n := by
          rw [List.length_drop, ← hn, List.length_cons]
          omega
        exact List.mem_cons_of_mem b (List.mem_of_mem_drop (ih _ hlt h rfl))

/-- NUL as text. -/
theorem encode_nul : encode ['\x00'] = [0] := by decide

/-- A zero byte is read as NUL and cuts the text. -/
theorem repair_zero_cons (l : List UInt8) : repair (0 :: l) = '\x00' :: repair l := by
  have h := repair_encode_append ['\x00'] l
  rwa [encode_nul] at h

theorem isCut_zero_cons (l : List UInt8) : IsCut (0 :: l) :=
  not_isContinuation_zero

/-- Texts joined with zero bytes are repaired on their own. -/
theorem repair_intercalate_zero (parts : List (List UInt8)) :
    repair ([0].intercalate parts) = ['\x00'].intercalate (parts.map repair) := by
  apply apply_intercalate repair_nil
  intro xs ys
  rw [List.singleton_append, repair_append (isCut_zero_cons ys), repair_zero_cons,
    List.singleton_append]

/-- Text contains a zero byte only where it contains NUL. -/
theorem nul_mem_of_zero_mem_encode {l : List Char} (h : 0 ∈ encode l) : '\x00' ∈ l := by
  obtain ⟨before, behind, hsplit⟩ := List.append_of_mem h
  have hl : l = repair before ++ '\x00' :: repair behind := by
    rw [← repair_encode l, hsplit, repair_append (isCut_zero_cons behind), repair_zero_cons]
  rw [hl]
  exact List.mem_append_right _ List.mem_cons_self

end Procinsh.Utf8
