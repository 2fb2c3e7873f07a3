import Mathlib.Data.List.Chain
import Mathlib.Logic.Relation
import Mathlib.Order.WellFounded

/-!
# Ancestry

What one comes to by going from parent to parent, where the parents need not form a forest.  Going
up from a member either ends at one without a parent or runs into a cycle; when the parent of a
member is cut off, a way up that ended still ends, and one that came to that member ends there.
Every cycle has one lowest member, and cutting at lowest members until every way up ends cuts at all
of them.
-/

namespace Procinsh

variable {α : Type*} {parent parent' : α → Option α} {a b c r : α}

/-- The parent of `a` is `b`. -/
def Climbs (parent : α → Option α) (a b : α) : Prop := parent a = some b

/-- Going up from `a` one comes to `b`; `a` is `b` or descends from it. -/
def Reaches (parent : α → Option α) : α → α → Prop := Relation.ReflTransGen (Climbs parent)

/-- Going up from `a` one comes back to `a`. -/
def OnCycle (parent : α → Option α) (a : α) : Prop := Relation.TransGen (Climbs parent) a a

/-- Going up from `a` one comes to the end. -/
def Ends (parent : α → Option α) (a : α) : Prop := ∃ r, Reaches parent a r ∧ parent r = none

theorem Climbs.rightUnique (parent : α → Option α) : Relator.RightUnique (Climbs parent) :=
  fun _ _ _ h h' => Option.some_inj.mp (h.symm.trans h')

theorem Reaches.refl (parent : α → Option α) (a : α) : Reaches parent a a :=
  Relation.ReflTransGen.refl

theorem Reaches.trans (h : Reaches parent a b) (h' : Reaches parent b c) : Reaches parent a c :=
  Relation.ReflTransGen.trans h h'

theorem Reaches.head (h : parent a = some b) (h' : Reaches parent b c) : Reaches parent a c :=
  Relation.ReflTransGen.head h h'

theorem Reaches.tail (h : Reaches parent a b) (h' : parent b = some c) : Reaches parent a c :=
  Relation.ReflTransGen.tail h h'

/-- Of two members on the way up one comes first. -/
theorem Reaches.total (h : Reaches parent a b) (h' : Reaches parent a c) :
    Reaches parent b c ∨ Reaches parent c b :=
  Relation.ReflTransGen.total_of_right_unique (Climbs.rightUnique parent) h h'

/-- The way up from `a` is `a` or goes through its parent. -/
theorem Reaches.eq_or_head (h : Reaches parent a b) :
    a = b ∨ ∃ p, parent a = some p ∧ Reaches parent p b := by
  obtain rfl | ⟨p, hp, hpb⟩ := Relation.ReflTransGen.cases_head h
  · exact .inl rfl
  · exact .inr ⟨p, hp, hpb⟩

/-- Who is reached at last is `a`, or the parent of someone who is reached before. -/
theorem Reaches.eq_or_tail (h : Reaches parent a b) :
    b = a ∨ ∃ q, Reaches parent a q ∧ parent q = some b := by
  obtain rfl | ⟨q, hq, hqb⟩ := Relation.ReflTransGen.cases_tail h
  · exact .inl rfl
  · exact .inr ⟨q, hq, hqb⟩

/-- Without a parent there is no way up. -/
theorem Reaches.eq_of_parent_eq_none (h : Reaches parent a b) (hroot : parent a = none) : a = b := by
  rcases h.eq_or_head with hab | ⟨p, hp, -⟩
  · exact hab
  · rw [hroot] at hp
    cases hp

/-! ## Cycles -/

theorem onCycle_iff : OnCycle parent a ↔ ∃ p, parent a = some p ∧ Reaches parent p a :=
  Relation.TransGen.head'_iff

/-- The parent of a member of a cycle is on the cycle, too. -/
theorem OnCycle.step (h : OnCycle parent a) (hab : parent a = some b) : OnCycle parent b := by
  obtain ⟨p, hp, hpa⟩ := onCycle_iff.mp h
  obtain rfl : p = b := Option.some_inj.mp (hp.symm.trans hab)
  rcases hpa.eq_or_head with rfl | ⟨q, hq, hqa⟩
  · exact h
  · exact onCycle_iff.mpr ⟨q, hq, hqa.tail hp⟩

/-- Everyone on the way up from a cycle is on it. -/
theorem OnCycle.of_reaches (h : OnCycle parent a) (hab : Reaches parent a b) :
    OnCycle parent b := by
  induction hab with
  | refl => exact h
  | tail _ hbc ih => exact OnCycle.step ih hbc

/-- On a cycle there is a way back. -/
theorem OnCycle.reaches_back (h : OnCycle parent a) (hab : Reaches parent a b) :
    Reaches parent b a := by
  induction hab using Relation.ReflTransGen.head_induction_on with
  | refl => exact Reaches.refl parent b
  | head hap _ ih =>
    obtain ⟨q, hq, hqa⟩ := onCycle_iff.mp h
    obtain rfl := Climbs.rightUnique parent hap hq
    exact (ih (h.step hap)).trans hqa

section Loop

variable {l : List α} (hloop : (a :: l ++ [a]).IsChain (Climbs parent))
include hloop

/-- All members of a way from `a` back to `a` are reached from `a`, and `a` from them. -/
theorem reaches_of_mem_loop (hc : c ∈ a :: l) : Reaches parent a c ∧ Reaches parent c a := by
  constructor
  · refine hloop.induction (Reaches parent a) _ (fun _ _ h h' => Reaches.tail h' h)
      (fun _ => Reaches.refl parent a) c (List.mem_append_left _ hc)
  · exact hloop.backwards_concat_induction (fun c => Reaches parent c a) _
      (fun _ _ h h' => Reaches.head h h') (Reaches.refl parent a) c hc

theorem onCycle_of_mem_loop (hc : c ∈ a :: l) : OnCycle parent c := by
  have ha : OnCycle parent a := by
    cases l with
    | nil => exact onCycle_iff.mpr ⟨a, (List.isChain_cons_cons.mp hloop).1, Reaches.refl parent a⟩
    | cons b l =>
      exact onCycle_iff.mpr ⟨b, (List.isChain_cons_cons.mp hloop).1,
        (reaches_of_mem_loop hloop (List.mem_cons_of_mem _ List.mem_cons_self)).2⟩
  exact ha.of_reaches (reaches_of_mem_loop hloop hc).1

/-- Nothing else is reached from a member of the way. -/
theorem mem_loop_of_reaches (hc : c ∈ a :: l) (hcb : Reaches parent c b) : b ∈ a :: l := by
  induction hcb with
  | refl => exact hc
  | @tail b d _ hbd ih =>
    obtain ⟨s, t, hst⟩ := List.append_of_mem ih
    rw [hst, List.append_assoc, List.cons_append] at hloop
    have hnext := hloop.right_of_append
    cases t with
    | nil =>
      obtain rfl := Climbs.rightUnique parent hbd (List.isChain_cons_cons.mp hnext).1
      exact List.mem_cons_self
    | cons e t =>
      obtain rfl := Climbs.rightUnique parent hbd (List.isChain_cons_cons.mp hnext).1
      rw [hst]
      exact List.mem_append_right _ (List.mem_cons_of_mem _ List.mem_cons_self)

end Loop

/-- A way up that ends comes to no cycle. -/
theorem Ends.not_onCycle_of_reaches (h : Ends parent a) (hab : Reaches parent a b) :
    ¬ OnCycle parent b := by
  obtain ⟨r, har, hr⟩ := h
  intro hb
  have hbr : Reaches parent b r := by
    rcases hab.total har with hbr | hrb
    · exact hbr
    · rw [hrb.eq_of_parent_eq_none hr]
      exact Reaches.refl parent b
  obtain ⟨p, hp, -⟩ := onCycle_iff.mp (hb.of_reaches hbr)
  rw [hr] at hp
  cases hp

/-- Where nothing is on a cycle, two members with the same parent have no descendant in common. -/
theorem eq_of_reaches_of_parent_eq (hacyclic : ∀ a, ¬ OnCycle parent a)
    (hparent : parent b = parent c) (hb : Reaches parent a b) (hc : Reaches parent a c) : b = c := by
  have hbelow {b c : α} (hparent : parent b = parent c) (h : Reaches parent b c) : b = c := by
    rcases h.eq_or_head with hbc | ⟨p, hp, hpc⟩
    · exact hbc
    · exact absurd (onCycle_iff.mpr ⟨p, hparent ▸ hp, hpc⟩) (hacyclic c)
  rcases hb.total hc with h | h
  · exact hbelow hparent h
  · exact (hbelow hparent.symm h).symm

/-! ## Cutting parents off -/

/-- Fewer parents reach fewer members. -/
theorem Reaches.mono (hsub : ∀ a b, parent' a = some b → parent a = some b)
    (h : Reaches parent' a b) : Reaches parent a b :=
  Relation.ReflTransGen.mono hsub _ _ h

theorem OnCycle.mono (hsub : ∀ a b, parent' a = some b → parent a = some b)
    (h : OnCycle parent' a) : OnCycle parent a :=
  Relation.TransGen.mono hsub _ _ h

/-- A way up on which no parent is cut off is left. -/
theorem Reaches.of_eq_on (heq : ∀ b, Reaches parent a b → parent' b = parent b)
    (h : Reaches parent a b) : Reaches parent' a b := by
  induction h using Relation.ReflTransGen.head_induction_on with
  | refl => exact Reaches.refl parent' b
  | head hap _ ih =>
    refine Reaches.head ((heq _ (Reaches.refl parent _)).trans hap) ?_
    exact ih fun c hc => heq c (Reaches.head hap hc)

/-- Where the way up is the same, the same members are reached. -/
theorem reaches_iff_of_eq_on (heq : ∀ b, Reaches parent a b → parent' b = parent b) :
    Reaches parent' a b ↔ Reaches parent a b := by
  refine ⟨fun h => ?_, Reaches.of_eq_on heq⟩
  induction h with
  | refl => exact Reaches.refl parent a
  | tail _ hbc ih => exact ih.tail ((heq _ ih).symm.trans hbc)

section Cut

variable (hcut : parent' c = none) (hkeep : ∀ a, a ≠ c → parent' a = parent a)
include hcut hkeep

/-- A way up that ended ends when a parent is cut off. -/
theorem Ends.cut (h : Ends parent a) : Ends parent' a := by
  obtain ⟨r, har, hr⟩ := h
  induction har using Relation.ReflTransGen.head_induction_on with
  | refl =>
    refine ⟨r, Reaches.refl parent' r, ?_⟩
    by_cases hrc : r = c
    · rw [hrc, hcut]
    · rw [hkeep r hrc, hr]
  | @head a p hap _ ih =>
    by_cases hac : a = c
    · exact ⟨a, Reaches.refl parent' a, hac ▸ hcut⟩
    · obtain ⟨s, hps, hs⟩ := ih
      exact ⟨s, Reaches.head ((hkeep a hac).trans hap) hps, hs⟩

/-- A way up that came to the member whose parent is cut off ends. -/
theorem Reaches.ends_of_cut (h : Reaches parent a c) : Ends parent' a := by
  induction h using Relation.ReflTransGen.head_induction_on with
  | refl => exact ⟨c, Reaches.refl parent' c, hcut⟩
  | @head a p hap _ ih =>
    by_cases hac : a = c
    · exact ⟨a, Reaches.refl parent' a, hac ▸ hcut⟩
    · obtain ⟨s, hps, hs⟩ := ih
      exact ⟨s, Reaches.head ((hkeep a hac).trans hap) hps, hs⟩

end Cut

/-! ## The lowest member of a cycle -/

/-- `a` is the member of lowest rank of a cycle. -/
def LowestOnCycle (rank : α → ℕ) (parent : α → Option α) (a : α) : Prop :=
  OnCycle parent a ∧ ∀ b, Reaches parent a b → rank a ≤ rank b

/-- The lowest member of a cycle is so with more parents. -/
theorem LowestOnCycle.mono {rank : α → ℕ} (hsub : ∀ a b, parent' a = some b → parent a = some b)
    (h : LowestOnCycle rank parent' a) : LowestOnCycle rank parent a := by
  refine ⟨h.1.mono hsub, fun b hab => h.2 b ((reaches_iff_of_eq_on fun c hc => ?_).mp hab)⟩
  obtain ⟨p, hp, -⟩ := onCycle_iff.mp (h.1.of_reaches hc)
  rw [hp, hsub c p hp]

section Lowest

variable {rank : α → ℕ}
  (hrank : ∀ a b, OnCycle parent a → OnCycle parent b → rank a = rank b → a = b)
include hrank

/-- A cycle has one lowest member. -/
theorem LowestOnCycle.unique (hb : LowestOnCycle rank parent b) (hc : LowestOnCycle rank parent c)
    (hbc : Reaches parent b c) : b = c :=
  hrank b c hb.1 hc.1 (le_antisymm (hb.2 c hbc) (hc.2 b (hb.1.reaches_back hbc)))

theorem OnCycle.existsUnique_lowest (h : OnCycle parent a) :
    ∃! r, Reaches parent a r ∧ LowestOnCycle rank parent r := by
  obtain ⟨r, har, hmin⟩ := WellFounded.has_min (measure rank).wf {b | Reaches parent a b}
    ⟨a, Reaches.refl parent a⟩
  have hlowest : LowestOnCycle rank parent r :=
    ⟨h.of_reaches har, fun b hrb => not_lt.mp (hmin b (Reaches.trans har hrb))⟩
  refine ⟨r, ⟨har, hlowest⟩, fun s hs => ?_⟩
  exact hs.2.unique hrank hlowest ((h.reaches_back hs.1).trans har)

/-- Where only lowest members are cut off and the way up ends, the lowest member is cut off. -/
theorem LowestOnCycle.parent_eq_none
    (hcut : ∀ a, parent' a = parent a ∨ parent' a = none ∧ LowestOnCycle rank parent a)
    (hends : Ends parent' a) (h : LowestOnCycle rank parent a) : parent' a = none := by
  rcases hcut a with ha | ⟨ha, -⟩
  · -- Otherwise the whole cycle is left.
    have heq (b : α) (hab : Reaches parent a b) : parent' b = parent b := by
      rcases hcut b with hb | ⟨-, hb⟩
      · exact hb
      · obtain rfl := h.unique hrank hb hab
        exact ha
    obtain ⟨p, hp, hpa⟩ := onCycle_iff.mp h.1
    have hcycle : OnCycle parent' a := onCycle_iff.mpr ⟨p, ha.trans hp,
      Reaches.of_eq_on (fun b hb => heq b (Reaches.head hp hb)) hpa⟩
    exact absurd hcycle (hends.not_onCycle_of_reaches (Reaches.refl parent' a))
  · exact ha

end Lowest

end Procinsh
