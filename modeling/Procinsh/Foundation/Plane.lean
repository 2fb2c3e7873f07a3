import Mathlib.Algebra.Order.Floor.Ring
import Mathlib.Combinatorics.Pigeonhole
import Mathlib.Tactic.Linarith

/-!
# Points and boxes of the plane

Points are apart by two gaps if they are one of the gaps apart in its direction.  A box holds a point
if half of the horizontal gap is left beside the point and the vertical gap below it; then points in
boxes that lie side by side, or one below the other, are apart.

Points that are not apart are in neighbouring cells of the grid with the gaps as its units, and
finitely many points leave room on every line.
-/

namespace Procinsh

variable {K : Type*} [Field K] [LinearOrder K] [IsStrictOrderedRing K] {xGap yGap : K} {p q : K × K}

/-- At least one of the gaps apart. -/
def ApartBy (xGap yGap : K) (p q : K × K) : Prop :=
  xGap ≤ |p.1 - q.1| ∨ yGap ≤ |p.2 - q.2|

omit [IsStrictOrderedRing K] in
theorem ApartBy.symm (h : ApartBy xGap yGap p q) : ApartBy xGap yGap q p := by
  rwa [ApartBy, abs_sub_comm, abs_sub_comm q.2]

omit [IsStrictOrderedRing K] in
/-- Moving both points keeps them apart. -/
theorem apartBy_add_right (d : K × K) :
    ApartBy xGap yGap (p + d) (q + d) ↔ ApartBy xGap yGap p q := by
  rw [ApartBy, ApartBy, Prod.fst_add, Prod.fst_add, Prod.snd_add, Prod.snd_add,
    add_sub_add_right_eq_sub, add_sub_add_right_eq_sub]

/-! ## Room -/

/-- Numbers that are less than a gap apart are in neighbouring intervals of its multiples. -/
theorem floor_div_eq_add [FloorRing K] {gap a b : K} (hgap : 0 < gap) (h : |a - b| < gap) :
    ∃ d ∈ ([-1, 0, 1] : List ℤ), ⌊a / gap⌋ = ⌊b / gap⌋ + d := by
  have hstep {a b : K} (h : a - b < gap) : ⌊a / gap⌋ ≤ ⌊b / gap⌋ + 1 := by
    have hlt : a / gap < b / gap + 1 := by
      rw [div_add_one hgap.ne', div_lt_div_iff_of_pos_right hgap]
      linarith
    have hfloor := Int.lt_floor_add_one (b / gap)
    rw [← Int.lt_add_one_iff, Int.floor_lt]
    push_cast
    linarith
  obtain ⟨hab, hba⟩ := abs_sub_lt_iff.mp h
  have hle := hstep hab
  have hge := hstep hba
  refine ⟨⌊a / gap⌋ - ⌊b / gap⌋, ?_, (add_sub_cancel _ _).symm⟩
  simp only [List.mem_cons, List.not_mem_nil, or_false]
  omega

/-- Among the numbers two gaps apart there is one with no point near it. -/
theorem exists_far {gap : K} (hgap : 0 < gap) (x : K) (points : List K) :
    ∃ i ≤ points.length, ∀ p ∈ points, gap ≤ |p - (x + 2 * (i : K) * gap)| := by
  by_contra hnear
  push Not at hnear
  have hchoice (i : ℕ) : ∃ j, i ≤ points.length →
      ∃ hj : j < points.length, |points[j] - (x + 2 * (i : K) * gap)| < gap := by
    by_cases hi : i ≤ points.length
    · obtain ⟨p, hp, hlt⟩ := hnear i hi
      obtain ⟨j, hj, rfl⟩ := List.getElem_of_mem hp
      exact ⟨j, fun _ => ⟨hj, hlt⟩⟩
    · exact ⟨0, fun h => absurd h hi⟩
  choose f hf using hchoice
  -- No point is near two of them.
  obtain ⟨i, hi, j, hj, hij, hfij⟩ := Finset.exists_ne_map_eq_of_card_lt_of_maps_to
    (s := Finset.range (points.length + 1)) (t := Finset.range points.length) (f := f)
    (by rw [Finset.card_range, Finset.card_range]; exact Nat.lt_succ_self _)
    (fun i hi => Finset.mem_range.mpr
      (hf i (Nat.lt_succ_iff.mp (Finset.mem_range.mp hi))).1)
  obtain ⟨hfi, hlti⟩ := hf i (Nat.lt_succ_iff.mp (Finset.mem_range.mp hi))
  obtain ⟨hfj, hltj⟩ := hf j (Nat.lt_succ_iff.mp (Finset.mem_range.mp hj))
  simp only [← hfij] at hltj
  have hapart {i j : ℕ} (hij : i < j) (p : K) (hi : |p - (x + 2 * (i : K) * gap)| < gap)
      (hj : |p - (x + 2 * (j : K) * gap)| < gap) : False := by
    have hcast : (i : K) + 1 ≤ j := by exact_mod_cast hij
    have hmul : ((i : K) + 1) * gap ≤ j * gap := mul_le_mul_of_nonneg_right hcast hgap.le
    obtain ⟨hlower, -⟩ := abs_lt.mp hj
    obtain ⟨-, hupper⟩ := abs_lt.mp hi
    linarith
  rcases lt_or_gt_of_ne hij with h | h
  · exact hapart h _ hlti hltj
  · exact hapart h _ hltj hlti

/-- A box, by its corner and its extent. -/
structure Box (K : Type*) where
  x : K
  y : K
  width : K
  height : K

/-- The point is in the box, with room around it. -/
structure Box.Holds (xGap yGap : K) (b : Box K) (p : K × K) : Prop where
  left : b.x + xGap / 2 ≤ p.1
  right : p.1 + xGap / 2 ≤ b.x + b.width
  top : b.y ≤ p.2
  bottom : p.2 + yGap ≤ b.y + b.height

namespace Box

variable {a b : Box K}

/-- A box that is moved holds the point that is moved along. -/
theorem Holds.move {width height dx dy : K} {q : K × K}
    (h : Holds xGap yGap ⟨0, 0, width, height⟩ p) (hq : q = p + (dx, dy)) :
    Holds xGap yGap ⟨dx, dy, width, height⟩ q := by
  obtain ⟨hleft, hright, htop, hbottom⟩ := h
  subst hq
  constructor
  · rw [Prod.fst_add]
    linarith
  · rw [Prod.fst_add]
    linarith
  · rw [Prod.snd_add]
    linarith
  · rw [Prod.snd_add]
    linarith

/-- A larger box holds the point, too. -/
theorem Holds.within (h : a.Holds xGap yGap p) (hleft : b.x ≤ a.x)
    (hright : a.x + a.width ≤ b.x + b.width) (htop : b.y ≤ a.y)
    (hbottom : a.y + a.height ≤ b.y + b.height) : b.Holds xGap yGap p where
  left := (add_le_add_left hleft _).trans h.left
  right := h.right.trans hright
  top := htop.trans h.top
  bottom := h.bottom.trans hbottom

/-- Points in boxes side by side lie one behind the other. -/
theorem Holds.lt_of_beside (ha : a.Holds xGap yGap p) (hb : b.Holds xGap yGap q)
    (hgap : 0 < xGap) (h : a.x + a.width ≤ b.x) : p.1 < q.1 := by
  have hleft := hb.left
  have hright := ha.right
  linarith

/-- Points in boxes side by side, or one below the other, are apart. -/
theorem Holds.apartBy (ha : a.Holds xGap yGap p) (hb : b.Holds xGap yGap q)
    (h : a.x + a.width ≤ b.x ∨ a.y + a.height ≤ b.y) : ApartBy xGap yGap p q := by
  rcases h with h | h
  · refine .inl (le_abs.mpr (.inr ?_))
    have hleft := hb.left
    have hright := ha.right
    linarith
  · refine .inr (le_abs.mpr (.inr ?_))
    have htop := hb.top
    have hbottom := ha.bottom
    linarith

end Box

end Procinsh
