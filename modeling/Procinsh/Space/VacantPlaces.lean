import Procinsh.Foundation.Plane
import Procinsh.Space.StableLayout
import Procinsh.Space.TreeBlocks

/-!
# Vacant places

The grid of cells finds every place that is too near, and the rings around any origin come to a
vacant place: each place blocks at most one of the candidates beside the origin that are two gaps
apart.
-/

namespace Procinsh.Space.ProcessLayout

variable {K : Type} [Field K] [LinearOrder K] [FloorRing K] {spacing : Spacing K}
  {buckets : Buckets K} {places : List (TreePosition K)}

/-! ## The grid -/

/-- Every cell holds the places that are in it. -/
def IsGrid (spacing : Spacing K) (buckets : Buckets K) (places : List (TreePosition K)) : Prop :=
  ∀ c p, p ∈ (buckets.get? c).getD [] ↔ p ∈ places ∧ cell spacing p.x p.y = c

theorem isGrid_empty (spacing : Spacing K) : IsGrid spacing .empty [] := by
  intro c p
  simp

theorem IsGrid.occupy (h : IsGrid spacing buckets places) (place : TreePosition K) :
    IsGrid spacing (occupy spacing buckets place) (places ++ [place]) := by
  intro c p
  rw [ProcessLayout.occupy]
  by_cases hc : c = cell spacing place.x place.y
  · rw [hc, OrderedMap.get?_set_self, Option.getD_some, List.mem_append, List.mem_append, h,
      List.mem_singleton, or_and_right]
    refine or_congr_right ⟨fun hp => ⟨hp, ?_⟩, And.left⟩
    rw [hp]
  · rw [OrderedMap.get?_set_ne _ hc, h, List.mem_append, List.mem_singleton, or_and_right]
    refine ⟨.inl, fun hp => hp.resolve_right ?_⟩
    rintro ⟨rfl, hcell⟩
    exact hc hcell.symm

theorem IsGrid.foldl_occupy (h : IsGrid spacing buckets places) (more : List (TreePosition K)) :
    IsGrid spacing (more.foldl (ProcessLayout.occupy spacing) buckets) (places ++ more) := by
  induction more generalizing buckets places with
  | nil => rwa [List.append_nil]
  | cons place more ih =>
    rw [List.append_cons]
    exact ih (h.occupy place)

omit [FloorRing K] in
/-- Too near is not apart. -/
theorem near_iff {place : TreePosition K} {q : K × K} :
    (|place.x - q.1| < spacing.xGap && |place.y - q.2| < spacing.yGap) = true ↔
      ¬ ApartBy spacing.xGap spacing.yGap place.point q := by
  rw [Bool.and_eq_true, decide_eq_true_eq, decide_eq_true_eq, ApartBy, not_or, not_le, not_le]
  exact Iff.rfl

variable [IsStrictOrderedRing K] (hx : 0 < spacing.xGap) (hy : 0 < spacing.yGap)
include hx hy

/-- A place is vacant if it is apart from all others, though only the cells around are looked at. -/
theorem IsGrid.vacant_iff (h : IsGrid spacing buckets places) {q : K × K} :
    vacant spacing buckets q ↔
      ∀ p ∈ places, ApartBy spacing.xGap spacing.yGap p.point q := by
  rw [vacant]
  simp only [List.all_eq_true, Bool.not_eq_true']
  constructor
  · intro hvacant p hp
    by_contra hnear
    have hblocked := near_iff.mpr hnear
    rw [Bool.and_eq_true, decide_eq_true_eq, decide_eq_true_eq] at hblocked
    obtain ⟨dx, hdx, hcellX⟩ := floor_div_eq_add hx hblocked.1
    obtain ⟨dy, hdy, hcellY⟩ := floor_div_eq_add hy hblocked.2
    have hcell : cell spacing p.x p.y = ((cell spacing q.1 q.2).1 + dx, (cell spacing q.1 q.2).2 + dy) :=
      Prod.ext hcellX hcellY
    have hmem := (h _ p).mpr ⟨hp, hcell⟩
    have hfree := hvacant dx hdx dy hdy p hmem
    rw [near_iff.mpr hnear] at hfree
    cases hfree
  · intro hapart dx _ dy _ p hp
    rw [← Bool.not_eq_true, near_iff, not_not]
    exact hapart p ((h _ p).mp hp).1

/-! ## The search -/

omit hx hy [Field K] [LinearOrder K] [FloorRing K] [IsStrictOrderedRing K] in
/-- The offset to the right is on its ring. -/
theorem mem_ring_right (radius : ℕ) : ((radius : ℤ), 0) ∈ ring radius := by
  apply List.mem_flatMap.mpr
  refine ⟨0, List.mem_range.mpr (Nat.succ_pos radius), List.mem_map.mpr ⟨radius, ?_, rfl⟩⟩
  apply List.mem_filter.mpr
  constructor
  · exact List.mem_map.mpr ⟨2 * radius, List.mem_range.mpr (Nat.lt_succ_self _), by push_cast; ring⟩
  · simp

/-- Beside the origin there is a vacant candidate. -/
theorem IsGrid.exists_vacant (h : IsGrid spacing buckets places) (origin : K × K) :
    ∃ radius ≤ 2 * places.length, ∃ d ∈ ring radius,
      vacant spacing buckets (candidate spacing origin d) := by
  obtain ⟨i, hi, hfar⟩ := exists_far hx origin.1 (places.map TreePosition.x)
  rw [List.length_map] at hi
  refine ⟨2 * i, Nat.mul_le_mul_left 2 hi, _, mem_ring_right (2 * i), (h.vacant_iff hx hy).mpr ?_⟩
  intro p hp
  apply Or.inl
  have hgap := hfar p.x (List.mem_map.mpr ⟨p, hp, rfl⟩)
  simpa [candidate, TreePosition.point] using hgap

omit hx hy [IsStrictOrderedRing K] in
/-- The search comes to a ring with a vacant candidate. -/
theorem exists_search {origin : K × K} {steps radius : ℕ}
    (h : ∃ r, radius ≤ r ∧ r < radius + steps ∧ ∃ d ∈ ring r,
      vacant spacing buckets (candidate spacing origin d)) :
    ∃ d, search spacing buckets origin steps radius = some (candidate spacing origin d) ∧
      vacant spacing buckets (candidate spacing origin d) := by
  induction steps generalizing radius with
  | zero =>
    obtain ⟨r, hle, hlt, -⟩ := h
    omega
  | succ steps ih =>
    rw [search]
    cases hfind : ((ring radius).map (candidate spacing origin)).find?
        (vacant spacing buckets) with
    | some p =>
      obtain ⟨d, -, rfl⟩ := List.mem_map.mp (List.mem_of_find?_eq_some hfind)
      exact ⟨d, rfl, List.find?_some hfind⟩
    | none =>
      obtain ⟨r, hle, hlt, d, hd, hvacant⟩ := h
      apply ih
      refine ⟨r, ?_, by omega, d, hd, hvacant⟩
      rcases hle.lt_or_eq with hle | rfl
      · exact hle
      · exact absurd hvacant
          (List.find?_eq_none.mp hfind _ (List.mem_map.mpr ⟨d, hd, rfl⟩))

/-- With more than twice as many rings as there are places, the search finds a vacant one. -/
theorem IsGrid.exists_search (h : IsGrid spacing buckets places) (origin : K × K) {steps : ℕ}
    (hsteps : 2 * places.length < steps) :
    ∃ d, search spacing buckets origin steps 0 = some (candidate spacing origin d) ∧
      ∀ p ∈ places, ApartBy spacing.xGap spacing.yGap p.point (candidate spacing origin d) := by
  obtain ⟨radius, hle, hring⟩ := h.exists_vacant hx hy origin
  have hlt : radius < 0 + steps := by omega
  obtain ⟨d, hsearch, hvacant⟩ := ProcessLayout.exists_search
    ⟨radius, Nat.zero_le _, hlt, hring⟩
  exact ⟨d, hsearch, (h.vacant_iff hx hy).mp hvacant⟩

omit hx hy [IsStrictOrderedRing K] in
/-- More rings make no difference. -/
theorem search_mono {origin q : K × K} {steps steps' radius : ℕ} (hle : steps ≤ steps')
    (h : search spacing buckets origin steps radius = some q) :
    search spacing buckets origin steps' radius = some q := by
  induction steps generalizing steps' radius with
  | zero => cases h
  | succ steps ih =>
    obtain ⟨more, rfl⟩ := Nat.exists_eq_add_of_le' (Nat.le_trans (Nat.succ_pos steps) hle)
    rw [search] at h ⊢
    split at h
    · exact h
    · exact ih (Nat.le_of_succ_le_succ hle) h

omit [FloorRing K] hx in
/-- Candidates are not above the origin. -/
theorem le_snd_candidate (origin : K × K) (d : ℤ × ℕ) :
    origin.2 ≤ (candidate spacing origin d).2 :=
  le_add_of_nonneg_right (mul_nonneg (Nat.cast_nonneg d.2) hy.le)

end Procinsh.Space.ProcessLayout
