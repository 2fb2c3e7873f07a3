import Mathlib.Tactic.Linarith
import Mathlib.Tactic.Ring
import Procinsh.Space.IpcPorts

/-!
# The slots of a face

A slot is a cell of the grid of its level that no coarser grid has, so that no two slots are at one
place.  Slots up to a level are cells of the grid of that level, and are apart by its distance in
one direction.  A slot does not depend on how far the grid is refined.
-/

namespace Procinsh.Space.IpcPorts

variable {K : Type} [Field K] [LinearOrder K] [IsStrictOrderedRing K] {s t : Slot K}

/-! ## The cells of a level -/

theorem mem_numerators {denominator : ℕ} {a : ℤ} :
    a ∈ numerators denominator ↔ |a| < denominator := by
  rw [numerators, List.mem_map, abs_lt]
  constructor
  · rintro ⟨i, hi, rfl⟩
    rw [List.mem_range] at hi
    omega
  · rintro ⟨hlower, hupper⟩
    exact ⟨(a - (1 - denominator)).toNat, List.mem_range.mpr (by omega), by omega⟩

theorem nodup_numerators (denominator : ℕ) : (numerators denominator).Nodup := by
  refine List.Nodup.map (fun i j (h : 1 - (denominator : ℤ) + i = 1 - denominator + j) => ?_)
    List.nodup_range
  omega

theorem mem_levelCells {level : ℕ} {c : ℤ × ℤ} :
    c ∈ levelCells level ↔ |c.1| < 2 ^ level ∧ |c.2| < 2 ^ level ∧ ¬(2 ∣ c.1 ∧ 2 ∣ c.2) := by
  have hcast : ((2 ^ level : ℕ) : ℤ) = 2 ^ level := by norm_cast
  simp only [levelCells, List.mem_flatMap, List.mem_map, List.mem_filter, mem_numerators, hcast,
    decide_eq_true_eq, ← Int.dvd_iff_emod_eq_zero]
  constructor
  · rintro ⟨v, hv, u, ⟨hu, hodd⟩, rfl⟩
    exact ⟨hu, hv, hodd⟩
  · rintro ⟨hu, hv, hodd⟩
    exact ⟨c.2, hv, c.1, ⟨hu, hodd⟩, rfl⟩

theorem nodup_levelCells (level : ℕ) : (levelCells level).Nodup := by
  refine List.nodup_flatMap.mpr ⟨fun v _ => ?_, ?_⟩
  · exact ((nodup_numerators _).filter _).map fun u w h => (Prod.mk.inj h).1
  · refine (nodup_numerators _).imp fun {v w} hvw c hc hc' => hvw ?_
    obtain ⟨u, -, rfl⟩ := List.mem_map.mp hc
    obtain ⟨u', -, h⟩ := List.mem_map.mp hc'
    exact (Prod.mk.inj h).2.symm

/-! ## Where a slot is -/

/-- The slot is this cell of the grid of its level, and of no coarser one. -/
structure Slot.At (s : Slot K) (c : ℤ × ℤ) : Prop where
  u_eq : s.u = c.1 / 2 ^ s.level
  v_eq : s.v = c.2 / 2 ^ s.level
  u_lt : |c.1| < 2 ^ s.level
  v_lt : |c.2| < 2 ^ s.level
  new : s.level = 0 ∨ ¬(2 ∣ c.1 ∧ 2 ∣ c.2)

omit [LinearOrder K] [IsStrictOrderedRing K] in
theorem at_of_mem_levelSlots {level : ℕ} (h : s ∈ levelSlots level) :
    s.level = level ∧ ∃ c, s.At c := by
  obtain ⟨c, hc, rfl⟩ := List.mem_map.mp h
  obtain ⟨hu, hv, hodd⟩ := mem_levelCells.mp hc
  refine ⟨rfl, c, ?_, ?_, hu, hv, .inr hodd⟩
  · exact congrArg _ (Nat.cast_pow 2 level)
  · exact congrArg _ (Nat.cast_pow 2 level)

omit [LinearOrder K] [IsStrictOrderedRing K] in
theorem at_of_mem_slots {level : ℕ} (h : s ∈ slots level) : s.level ≤ level ∧ ∃ c, s.At c := by
  induction level with
  | zero =>
    obtain rfl := List.mem_singleton.mp h
    exact ⟨Nat.le_refl _, (0, 0), by simp, by simp, by simp, by simp, .inl rfl⟩
  | succ level ih =>
    rcases List.mem_append.mp h with h | h
    · exact ⟨Nat.le_succ_of_le (ih h).1, (ih h).2⟩
    · obtain ⟨hlevel, hat⟩ := at_of_mem_levelSlots h
      exact ⟨hlevel.le, hat⟩

/-- The numerator on the grid of a finer level. -/
theorem div_two_pow_eq {level fine : ℕ} (h : level ≤ fine) (a : ℤ) :
    (a : K) / 2 ^ level = ((a * 2 ^ (fine - level) : ℤ) : K) / 2 ^ fine := by
  have hpow : (2 : K) ^ fine = 2 ^ (fine - level) * 2 ^ level := by
    rw [← pow_add, Nat.sub_add_cancel h]
  have hne (n : ℕ) : (2 : K) ^ n ≠ 0 := pow_ne_zero _ two_ne_zero
  push_cast
  rw [hpow, mul_comm (a : K), mul_div_mul_left _ _ (hne _)]

/-- Equal numerators of a finer level are even. -/
theorem even_of_div_two_pow_eq {level fine : ℕ} (h : level < fine) {a b : ℤ}
    (heq : (a : K) / 2 ^ level = b / 2 ^ fine) : 2 ∣ b := by
  rw [div_two_pow_eq h.le, div_left_inj' (pow_ne_zero _ two_ne_zero)] at heq
  rw [← Int.cast_inj.mp heq]
  exact Dvd.dvd.mul_left (dvd_pow_self 2 (Nat.sub_ne_zero_of_lt h)) a

/-- Slots at one place are of one level. -/
theorem Slot.At.level_le {c d : ℤ × ℤ} (hs : s.At c) (ht : t.At d) (hu : s.u = t.u)
    (hv : s.v = t.v) : t.level ≤ s.level := by
  by_contra! hlt
  rw [hs.u_eq, ht.u_eq] at hu
  rw [hs.v_eq, ht.v_eq] at hv
  exact ht.new.elim (Nat.ne_zero_of_lt hlt)
    fun hodd => hodd ⟨even_of_div_two_pow_eq hlt hu, even_of_div_two_pow_eq hlt hv⟩

/-- Not at one place. -/
def Slot.Apart (s t : Slot K) : Prop := ¬(s.u = t.u ∧ s.v = t.v)

theorem pairwise_levelSlots (level : ℕ) : (levelSlots (K := K) level).Pairwise Slot.Apart := by
  refine List.Pairwise.map _ ?_ (nodup_levelCells level)
  rintro c d hcd ⟨hu, hv⟩
  have hne : ((2 ^ level : ℕ) : K) ≠ 0 := Nat.cast_ne_zero.mpr (Nat.two_pow_pos level).ne'
  exact hcd (Prod.ext (Int.cast_inj.mp ((div_left_inj' hne).mp hu))
    (Int.cast_inj.mp ((div_left_inj' hne).mp hv)))

theorem pairwise_slots (level : ℕ) : (slots (K := K) level).Pairwise Slot.Apart := by
  induction level with
  | zero => exact List.pairwise_singleton _ _
  | succ level ih =>
    refine List.pairwise_append.mpr ⟨ih, pairwise_levelSlots _, ?_⟩
    rintro s hs t ht ⟨hu, hv⟩
    obtain ⟨hlevel, c, hc⟩ := at_of_mem_slots hs
    obtain ⟨hnew, d, hd⟩ := at_of_mem_levelSlots ht
    have hle := hc.level_le hd hu hv
    omega

/-! ## The slot of an index -/

section

omit [LinearOrder K] [IsStrictOrderedRing K]

theorem slots_mono {m n : ℕ} (h : m ≤ n) : slots (K := K) m <+: slots n := by
  induction h with
  | refl => exact List.prefix_rfl
  | step _ ih => exact ih.trans (List.prefix_append _ _)

/-- Wherever the grid has the slot, it is this one. -/
theorem getElem_slots {index level : ℕ} (h : index < (slots (K := K) level).length) :
    (slots (K := K) level)[index] = slotPosition index := by
  have hgrid := (refine (K := K) index 0).property
  rcases Nat.le_total level (refine (K := K) index 0).val with hle | hle
  · exact (slots_mono hle).getElem h
  · exact ((slots_mono hle).getElem hgrid).symm

theorem exists_at_slotPosition (index : ℕ) : ∃ c, (slotPosition (K := K) index).At c := by
  have hmem := List.getElem_mem (lt_length_slots (K := K) index)
  rw [getElem_slots] at hmem
  exact (at_of_mem_slots hmem).2

end

/-- No two slots are at one place. -/
theorem slotPosition_apart {i j : ℕ} (h : i ≠ j) :
    (slotPosition (K := K) i).Apart (slotPosition j) := by
  wlog hlt : i < j generalizing i j
  · have hapart := this h.symm (Nat.lt_of_le_of_ne (Nat.le_of_not_lt hlt) h.symm)
    exact fun hij => hapart ⟨hij.1.symm, hij.2.symm⟩
  have hj : j < (slots (K := K) j).length := lt_length_slots j
  have hi : i < (slots (K := K) j).length := hlt.trans hj
  rw [← getElem_slots hi, ← getElem_slots hj]
  exact List.pairwise_iff_getElem.mp (pairwise_slots j) i j hi hj hlt

theorem abs_slotPosition_lt (index : ℕ) :
    |(slotPosition (K := K) index).u| < 1 ∧ |(slotPosition (K := K) index).v| < 1 := by
  obtain ⟨c, hc⟩ := exists_at_slotPosition (K := K) index
  have hlt {a : ℤ} {level : ℕ} (h : |a| < 2 ^ level) : |(a : K) / 2 ^ level| < 1 := by
    have hpos : (0 : K) < 2 ^ level := pow_pos two_pos _
    rw [abs_div, abs_of_pos hpos, div_lt_one hpos]
    exact_mod_cast h
  rw [hc.u_eq, hc.v_eq]
  exact ⟨hlt hc.u_lt, hlt hc.v_lt⟩

/-- Numbers on the grid of a level are its distance apart if they differ. -/
theorem le_abs_sub_of_ne {m n level : ℕ} (hm : m ≤ level) (hn : n ≤ level) {a b : ℤ}
    (h : (a : K) / 2 ^ m ≠ b / 2 ^ n) : 1 / 2 ^ level ≤ |(a : K) / 2 ^ m - b / 2 ^ n| := by
  have hpos : (0 : K) < 2 ^ level := pow_pos two_pos _
  rw [div_two_pow_eq hm, div_two_pow_eq hn] at h ⊢
  generalize a * 2 ^ (level - m) = a at h ⊢
  generalize b * 2 ^ (level - n) = b at h ⊢
  have hne : a ≠ b := fun heq => h (by rw [heq])
  have hone : (1 : ℤ) ≤ |a - b| := Int.one_le_abs (sub_ne_zero.mpr hne)
  rw [← sub_div, abs_div, abs_of_pos hpos, div_le_div_iff_of_pos_right hpos]
  exact_mod_cast hone

/-- Slots up to a level are its distance apart. -/
theorem slotPosition_distance {i j level : ℕ} (h : i ≠ j)
    (hi : (slotPosition (K := K) i).level ≤ level) (hj : (slotPosition (K := K) j).level ≤ level) :
    1 / 2 ^ level ≤ |(slotPosition (K := K) i).u - (slotPosition j).u| ∨
      1 / 2 ^ level ≤ |(slotPosition (K := K) i).v - (slotPosition j).v| := by
  obtain ⟨c, hc⟩ := exists_at_slotPosition (K := K) i
  obtain ⟨d, hd⟩ := exists_at_slotPosition (K := K) j
  have hapart := slotPosition_apart (K := K) h
  rw [Slot.Apart, hc.u_eq, hc.v_eq, hd.u_eq, hd.v_eq, not_and_or] at hapart
  rw [hc.u_eq, hc.v_eq, hd.u_eq, hd.v_eq]
  exact hapart.imp (le_abs_sub_of_ne hi hj) (le_abs_sub_of_ne hi hj)

end Procinsh.Space.IpcPorts
