import Mathlib.Tactic.NormNum
import Procinsh.Space.PortRequests
import Procinsh.Space.PortSlots

/-!
# Where ports are

The sides of a process and its roof do not meet where ports are, and the ports at the two heights of
a side do not either: where a port is tells its side, its height and its slot.  Ports on one face
are the distance of its cells apart, which leaves room for their discs.
-/

namespace Procinsh.Space.IpcPorts

open ProcessLayout (processSide)

variable {K : Type} [Field K] [LinearOrder K] [IsStrictOrderedRing K] {owner : Vector3 K}
  {height height' u u' v v' : K} {n n' : Vector3 K}

/-- The points of the disc of a port. -/
def disc (port : IpcPort K) : Set (Vector3 K) :=
  { p | port.normal.x * (p.x - port.position.x) + port.normal.y * (p.y - port.position.y) +
      port.normal.z * (p.z - port.position.z) = 0 ∧
    (p.x - port.position.x) ^ 2 + (p.y - port.position.y) ^ 2 + (p.z - port.position.z) ^ 2 ≤
      (ipcPortRadius * port.radiusScale) ^ 2 }

/-! ## The faces of a process -/

theorem span_eq : (span : K) = 22 / 25 := by
  norm_num [span, processSide, decimal]

theorem decimal_six : (decimal 6 1 : K) = 3 / 5 := by
  norm_num [decimal]

theorem decimal_four : (decimal 4 1 : K) = 2 / 5 := by
  norm_num [decimal]

/-- How far the ports of a side are from the middle of the process. -/
theorem out_eq : (processSide / (2 : ℕ) + ipcStemLength : K) = 63 / 50 := by
  norm_num [processSide, ipcStemLength, decimal]

theorem portPosition_roof : portPosition owner height ⟨0, 0, 1⟩ u v =
    ⟨owner.x + u * (22 / 25), owner.y + v * (22 / 25), owner.z + 204 / 25⟩ := by
  have hroof : (8 + ipcStemLength : K) = 204 / 25 := by norm_num [ipcStemLength, decimal]
  rw [portPosition, if_pos rfl, span_eq, hroof]

omit [LinearOrder K] [IsStrictOrderedRing K] in
theorem IsSide.z_eq (hn : IsSide n) : n.z = 0 := by
  rcases hn with rfl | rfl | rfl | rfl <;> rfl

theorem IsSide.abs_eq (hn : IsSide n) : |n.x| = 1 ∧ |n.y| = 0 ∨ |n.x| = 0 ∧ |n.y| = 1 := by
  rcases hn with rfl | rfl | rfl | rfl <;> simp

theorem portPosition_side (hn : IsSide n) : portPosition owner height n u v =
    ⟨owner.x + n.x * (63 / 50) + |n.y| * u * (22 / 25),
      owner.y + n.y * (63 / 50) + |n.x| * u * (22 / 25), owner.z + height + v * (3 / 5)⟩ := by
  simp only [portPosition, hn.z_eq, zero_ne_one, if_false, span_eq, out_eq, decimal_six, zero_mul, add_zero]

theorem portSpacing_roof (level : ℕ) :
    portSpacing (K := K) ⟨0, 0, 1⟩ level = 22 / 25 / 2 ^ level := by
  rw [portSpacing, if_pos rfl, span_eq, Nat.cast_pow, Nat.cast_ofNat]

theorem portSpacing_side (hn : IsSide n) (level : ℕ) :
    portSpacing n level = 3 / 5 / 2 ^ level := by
  rw [portSpacing, hn.z_eq, if_neg zero_ne_one, decimal_six, Nat.cast_pow, Nat.cast_ofNat]

/-- A port is on the roof, at the height of sockets, or on a side, at one of the two heights. -/
inductive OnHull (height : K) (n : Vector3 K) : Prop
  | roof (hn : n = ⟨0, 0, 1⟩) (hheight : height = 4)
  | side (hn : IsSide n) (hheight : height = 4 ∨ height = 7 / 5)

/-- The ports of two sides are not at one place. -/
theorem side_inj (hn : IsSide n) (hn' : IsSide n') (hu : |u| < 1) (hu' : |u'| < 1)
    (hx : n.x * (63 / 50) + |n.y| * u * (22 / 25) = n'.x * (63 / 50) + |n'.y| * u' * (22 / 25))
    (hy : n.y * (63 / 50) + |n.x| * u * (22 / 25) = n'.y * (63 / 50) + |n'.x| * u' * (22 / 25)) :
    n = n' ∧ u = u' := by
  obtain ⟨hlower, hupper⟩ := abs_lt.mp hu
  obtain ⟨hlower', hupper'⟩ := abs_lt.mp hu'
  rcases hn with rfl | rfl | rfl | rfl <;> rcases hn' with rfl | rfl | rfl | rfl <;>
    simp only [abs_zero, abs_one, abs_neg, zero_mul, one_mul, neg_mul, add_zero, zero_add] at hx hy
  all_goals first
    | exact ⟨rfl, by linarith only [hx, hy]⟩
    | linarith only [hx, hy, hlower, hupper, hlower', hupper']

/-- The ports at the two heights of a side are not at one place. -/
theorem height_inj (hheight : height = 4 ∨ height = 7 / 5)
    (hheight' : height' = 4 ∨ height' = 7 / 5) (hv : |v| < 1) (hv' : |v'| < 1)
    (h : height + v * (3 / 5) = height' + v' * (3 / 5)) : height = height' ∧ v = v' := by
  obtain ⟨hlower, hupper⟩ := abs_lt.mp hv
  obtain ⟨hlower', hupper'⟩ := abs_lt.mp hv'
  rcases hheight with rfl | rfl <;> rcases hheight' with rfl | rfl
  · exact ⟨rfl, by linarith⟩
  · linarith
  · linarith
  · exact ⟨rfl, by linarith⟩

/-- Ports on a side are below the roof. -/
theorem side_lt_roof (hheight : height = 4 ∨ height = 7 / 5) (hv : |v| < 1) :
    height + v * (3 / 5) < 204 / 25 := by
  obtain ⟨-, hupper⟩ := abs_lt.mp hv
  rcases hheight with rfl | rfl
  · linarith
  · linarith

/-- The place of a port tells its face and its slot. -/
theorem portPosition_inj (hn : OnHull height n) (hn' : OnHull height' n') (hu : |u| < 1)
    (hv : |v| < 1) (hu' : |u'| < 1) (hv' : |v'| < 1)
    (h : portPosition owner height n u v = portPosition owner height' n' u' v') :
    height = height' ∧ n = n' ∧ u = u' ∧ v = v' := by
  cases hn with
  | roof hn hheight =>
    subst hn
    cases hn' with
    | roof hn' hheight' =>
      subst hn'
      rw [portPosition_roof, portPosition_roof] at h
      obtain ⟨hx, hy, -⟩ := Vector3.mk.inj h
      exact ⟨hheight.trans hheight'.symm, rfl, by linarith, by linarith⟩
    | side hn' hheight' =>
      rw [portPosition_roof, portPosition_side hn'] at h
      obtain ⟨-, -, hz⟩ := Vector3.mk.inj h
      have hlt := side_lt_roof hheight' hv'
      linarith
  | side hn hheight =>
    cases hn' with
    | roof hn' hheight' =>
      subst hn'
      rw [portPosition_roof, portPosition_side hn] at h
      obtain ⟨-, -, hz⟩ := Vector3.mk.inj h
      have hlt := side_lt_roof hheight hv
      linarith
    | side hn' hheight' =>
      rw [portPosition_side hn, portPosition_side hn'] at h
      obtain ⟨hx, hy, hz⟩ := Vector3.mk.inj h
      obtain ⟨hn, hu⟩ := side_inj hn hn' hu hu' (by linarith) (by linarith)
      obtain ⟨hheight, hv⟩ := height_inj hheight hheight' hv hv' (by linarith)
      exact ⟨hheight, hn, hu, hv⟩

/-! ## The ports of a face -/

/-- Numbers that are apart stay apart when they are stretched. -/
theorem div_le_abs_stretch {a b c s t : K} {level : ℕ} (hst : s ≤ t) (ht : 0 ≤ t)
    (h : 1 / 2 ^ level ≤ |a - b|) : s / 2 ^ level ≤ |c + a * t - (c + b * t)| := by
  have hpos : (0 : K) ≤ 1 / 2 ^ level := div_nonneg zero_le_one (pow_nonneg zero_le_two _)
  calc s / 2 ^ level = s * (1 / 2 ^ level) := by rw [mul_one_div]
    _ ≤ t * |a - b| := mul_le_mul hst h hpos ht
    _ = |c + a * t - (c + b * t)| := by
      rw [add_sub_add_left_eq_sub, ← sub_mul, abs_mul, abs_of_nonneg ht, mul_comm]

/-- Ports whose slots are apart on the grid of a level are the distance of its cells apart. -/
theorem portPosition_distance {level : ℕ} (hn : OnHull height n)
    (h : 1 / 2 ^ level ≤ |u - u'| ∨ 1 / 2 ^ level ≤ |v - v'|) :
    let p := portPosition owner height n u v
    let q := portPosition owner height n u' v'
    portSpacing n level ≤ |p.x - q.x| ∨ portSpacing n level ≤ |p.y - q.y| ∨
      portSpacing n level ≤ |p.z - q.z| := by
  cases hn with
  | roof hn hheight =>
    subst hn
    rw [portPosition_roof, portPosition_roof, portSpacing_roof]
    rcases h with h | h
    · exact .inl (div_le_abs_stretch le_rfl (by norm_num) h)
    · exact .inr (.inl (div_le_abs_stretch le_rfl (by norm_num) h))
  | side hn hheight =>
    rw [portPosition_side hn, portPosition_side hn, portSpacing_side hn]
    rcases h with h | h
    · rcases hn.abs_eq with ⟨hx, hy⟩ | ⟨hx, hy⟩
      · rw [hx, hy, one_mul, one_mul]
        exact .inr (.inl (div_le_abs_stretch (by norm_num) (by norm_num) h))
      · rw [hx, hy, one_mul, one_mul]
        exact .inl (div_le_abs_stretch (by norm_num) (by norm_num) h)
    · exact .inr (.inr (div_le_abs_stretch le_rfl (by norm_num) h))

theorem portSpacing_pos (hn : OnHull height n) (level : ℕ) : 0 < portSpacing n level := by
  cases hn with
  | roof hn _ =>
    rw [hn, portSpacing_roof]
    positivity
  | side hn _ =>
    rw [portSpacing_side hn]
    positivity

/-- The discs of ports that are the distance of the cells apart do not meet. -/
theorem disc_inter_disc {p q : IpcPort K} {spacing : K} (hspacing : 0 < spacing)
    (hp : p.radiusScale = min 1 (spacing * decimal 4 1 / ipcPortRadius))
    (hq : q.radiusScale = min 1 (spacing * decimal 4 1 / ipcPortRadius))
    (h : spacing ≤ |p.position.x - q.position.x| ∨ spacing ≤ |p.position.y - q.position.y| ∨
      spacing ≤ |p.position.z - q.position.z|) : disc p ∩ disc q = ∅ := by
  have hradius : (0 : K) < ipcPortRadius := by norm_num [ipcPortRadius, decimal]
  rw [decimal_four] at hp hq
  have hle : ipcPortRadius * min 1 (spacing * (2 / 5) / ipcPortRadius) ≤ spacing * (2 / 5) := by
    calc ipcPortRadius * min 1 (spacing * (2 / 5) / ipcPortRadius)
        ≤ ipcPortRadius * (spacing * (2 / 5) / ipcPortRadius) :=
          mul_le_mul_of_nonneg_left (min_le_right _ _) hradius.le
      _ = spacing * (2 / 5) := mul_div_cancel₀ _ hradius.ne'
  have hnonneg : 0 ≤ ipcPortRadius * min 1 (spacing * (2 / 5) / ipcPortRadius) :=
    mul_nonneg hradius.le (le_min zero_le_one (by positivity))
  obtain ⟨r, hr⟩ : ∃ r, ipcPortRadius * min 1 (spacing * (2 / 5) / ipcPortRadius) = r := ⟨_, rfl⟩
  rw [hr] at hle hnonneg
  -- A point of a disc is within the radius of the centre in every direction.
  have hnear {c d e : K} (hsum : c ^ 2 + d ^ 2 + e ^ 2 ≤ r ^ 2) : |c| ≤ r ∧ |d| ≤ r ∧ |e| ≤ r := by
    refine ⟨abs_le_of_sq_le_sq ?_ hnonneg, abs_le_of_sq_le_sq ?_ hnonneg,
      abs_le_of_sq_le_sq ?_ hnonneg⟩
    all_goals linarith [sq_nonneg c, sq_nonneg d, sq_nonneg e]
  have hfar {a b c : K} (ha : |c - a| ≤ r) (hb : |c - b| ≤ r) : ¬spacing ≤ |a - b| := by
    have htriangle := abs_sub_le a c b
    rw [abs_sub_comm a c] at htriangle
    exact not_le.mpr (by linarith)
  refine Set.eq_empty_iff_forall_notMem.mpr fun w ⟨hwp, hwq⟩ => ?_
  have hwp := hwp.2
  have hwq := hwq.2
  rw [hp, hr] at hwp
  rw [hq, hr] at hwq
  obtain ⟨hpx, hpy, hpz⟩ := hnear hwp
  obtain ⟨hqx, hqy, hqz⟩ := hnear hwq
  rcases h with h | h | h
  · exact hfar hpx hqx h
  · exact hfar hpy hqy h
  · exact hfar hpz hqz h

end Procinsh.Space.IpcPorts
