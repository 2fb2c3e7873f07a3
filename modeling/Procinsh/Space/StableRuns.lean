import Mathlib.Data.Prod.Lex
import Mathlib.Data.Rat.Floor
import Mathlib.Data.String.Basic
import Procinsh.Space.TreeLayout
import Procinsh.Space.VacantPlaces

/-!
# Runs of the stable layout

`stableLayout` applied again and again, to whatever processes there are by then, keeps the places of
all processes that stay, puts newcomers below their parents and never lets two overlap.
-/

namespace Procinsh.Space.ProcessLayout

/-! ## The order of newcomers -/

theorem numberOf_toString (n : ℤ) : numberOf (toString n).toList = some n := by
  have hdigits (m : ℕ) : m.repr.toList ≠ [] ∧ m.repr.toList.all Char.isDigit := by
    rw [Nat.toList_repr]
    refine ⟨Nat.toDigits_ne_nil, List.all_eq_true.mpr fun c hc => ?_⟩
    exact Nat.isDigit_of_mem_toDigits (by decide) (le_refl 10) hc
  have hvalue (m : ℕ) : Nat.ofDigitChars 10 m.repr.toList 0 = m := by
    rw [Nat.toList_repr, Nat.ofDigitChars_ten_toDigits]
  rw [Int.toString_eq_repr, Int.repr_eq_if]
  split
  · next hneg =>
    have hfirst : n.toNat.repr.toList.head? ≠ some '-' := by
      intro h
      have hminus := List.all_eq_true.mp (hdigits n.toNat).2 _ (List.mem_of_head? h)
      cases hminus
    unfold numberOf
    split
    · next h => exact absurd (congrArg List.head? h) hfirst
    · rw [if_pos (hdigits _), hvalue]
      congr 1
      omega
  · rw [String.toList_append]
    change numberOf ('-' :: (-n).toNat.repr.toList) = some n
    rw [numberOf, if_pos (hdigits _), hvalue]
    congr 1
    omega

/-- The first number of an unqualified key is the PID. -/
theorem pidOf_key {id : ProcessId} (h : id.host = none) : pidOf (key id) = some id.pid := by
  have hprefix : hostPrefix id = [] := by rw [hostPrefix, h]
  have hcolon : ∀ c ∈ (toString id.pid).toList, decide (c ≠ ':') = true := by
    intro c hc
    refine decide_eq_true fun hcolon => ?_
    exact notMem_toString_int (by decide) (by decide) id.pid (hcolon ▸ hc)
  rw [pidOf, toList_key, hprefix, List.nil_append, List.takeWhile_append_of_pos hcolon,
    List.takeWhile_cons_of_neg (by simp), List.append_nil, numberOf_toString]

section Order

variable {K : Type}

/-- What newcomers are sorted by. -/
def newcomerRank (e : String × TreePosition K) : ℕ ×ₗ ℤ ×ₗ String :=
  toLex (e.2.depth, toLex ((pidOf e.1).getD 0, e.1))

theorem byNewcomer_eq {a b : String × TreePosition K} (ha : (pidOf a.1).isSome)
    (hb : (pidOf b.1).isSome) : byNewcomer a b = decide (newcomerRank a ≤ newcomerRank b) := by
  obtain ⟨p, hp⟩ := Option.isSome_iff_exists.mp ha
  obtain ⟨q, hq⟩ := Option.isSome_iff_exists.mp hb
  rw [Bool.eq_iff_iff, decide_eq_true_eq, newcomerRank, newcomerRank, byNewcomer, hp, hq]
  simp [Prod.Lex.toLex_le_toLex]

/-- Newcomers are sorted by depth. -/
theorem pairwise_newcomers {initial result : OrderedMap String (TreePosition K)}
    (hpids : ∀ e ∈ initial.entries, (pidOf e.1).isSome) :
    (newcomers initial result).Pairwise fun a b => a.2.depth ≤ b.2.depth := by
  rw [newcomers]
  generalize hnew : initial.entries.filter (fun e => (result.get? e.1).isNone) = new
  have hnew' (e : String × TreePosition K) (he : e ∈ new) : (pidOf e.1).isSome := by
    rw [← hnew] at he
    exact hpids e (List.mem_of_mem_filter he)
  have hsort : new.mergeSort byNewcomer =
      new.mergeSort fun a b => decide (newcomerRank a ≤ newcomerRank b) := by
    have hmap := List.map_mergeSort (f := fun e => e) (l := new)
      (s := fun a b => decide (newcomerRank a ≤ newcomerRank b))
      fun a ha b hb => byNewcomer_eq (hnew' a ha) (hnew' b hb)
    rwa [List.map_id', List.map_id'] at hmap
  rw [hsort]
  have hsorted : (new.mergeSort fun a b => decide (newcomerRank a ≤ newcomerRank b)).Pairwise
      fun a b => decide (newcomerRank a ≤ newcomerRank b) = true := by
    apply List.pairwise_mergeSort
    · intro a b c hab hbc
      exact decide_eq_true ((of_decide_eq_true hab).trans (of_decide_eq_true hbc))
    · intro a b
      simpa using le_total (newcomerRank a) (newcomerRank b)
  refine hsorted.imp fun {a b} hab => ?_
  have hle := of_decide_eq_true hab
  rw [newcomerRank, newcomerRank, Prod.Lex.toLex_le_toLex] at hle
  omega

end Order

/-! ## Placing newcomers -/

variable {K : Type} [Field K] [LinearOrder K] [FloorRing K] {spacing : Spacing K}
  {initial start : OrderedMap String (TreePosition K)} {steps : ℕ} {outside : K × K}
  {done : List (String × TreePosition K)}
  {state : OrderedMap String (TreePosition K) × Buckets K}

/-- The layout when some newcomers have been placed. -/
structure Settled (spacing : Spacing K) (initial start : OrderedMap String (TreePosition K))
    (done : List (String × TreePosition K))
    (state : OrderedMap String (TreePosition K) × Buckets K) : Prop where
  grid : IsGrid spacing state.2 state.1.values
  keys : state.1.entries.map Prod.fst = start.entries.map Prod.fst ++ done.map Prod.fst
  kept : start.entries ⊆ state.1.entries
  described : ∀ e ∈ state.1.entries, ∃ place, (e.1, place) ∈ initial.entries ∧
    e.2.parent = place.parent ∧ e.2.depth = place.depth
  apart : state.1.entries.Pairwise fun e f =>
    ApartBy spacing.xGap spacing.yGap e.2.point f.2.point
  below : ∀ e ∈ state.1.entries, start.get? e.1 = none → ∀ q, e.2.parent = some q →
    ∃ above, (q, above) ∈ state.1.entries ∧ above.y + spacing.yGap ≤ e.2.y

/-- More rings make no difference. -/
theorem placeNewcomer_mono {steps' : ℕ} (hle : steps ≤ steps') {e : String × TreePosition K}
    {state' : OrderedMap String (TreePosition K) × Buckets K}
    (h : placeNewcomer spacing steps outside state e = some state') :
    placeNewcomer spacing steps' outside state e = some state' := by
  rw [placeNewcomer] at h ⊢
  obtain ⟨p, hp, h⟩ := Option.bind_eq_some_iff.mp h
  rw [search_mono hle hp]
  exact h

variable [IsStrictOrderedRing K]

/-- One more newcomer is placed. -/
theorem Settled.step (h : Settled spacing initial start done state) (hx : 0 < spacing.xGap)
    (hy : 0 < spacing.yGap) {e : String × TreePosition K} (he : e ∈ initial.entries)
    (hnew : e.1 ∉ state.1.entries.map Prod.fst)
    (hparent : ∀ q, e.2.parent = some q → q ∈ state.1.entries.map Prod.fst)
    (hsteps : 2 * state.1.size < steps) :
    ∃ state', placeNewcomer spacing steps outside state e = some state' ∧
      Settled spacing initial start (done ++ [e]) state' := by
  have hsize : 2 * state.1.values.length < steps := by
    rwa [OrderedMap.values, List.length_map]
  obtain ⟨d, hsearch, hfree⟩ := h.grid.exists_search hx hy
    (searchOrigin spacing outside state.1 e.2) hsize
  have hbelow := le_snd_candidate hy (searchOrigin spacing outside state.1 e.2) d
  generalize candidate spacing (searchOrigin spacing outside state.1 e.2) d = p
    at hsearch hfree hbelow
  have hplace : placeNewcomer spacing steps outside state e =
      some (state.1.set e.1 { e.2 with x := p.1, y := p.2 },
        occupy spacing state.2 { e.2 with x := p.1, y := p.2 }) := by
    rw [placeNewcomer, hsearch]
    rfl
  refine ⟨_, hplace, ?_⟩
  generalize hfound : { e.2 with x := p.1, y := p.2 } = found
  have hpoint : found.point = p := by rw [← hfound]; rfl
  have hdescribed : found.parent = e.2.parent ∧ found.depth = e.2.depth := by
    rw [← hfound]
    exact ⟨rfl, rfl⟩
  have hentries : (state.1.set e.1 found).entries = state.1.entries ++ [(e.1, found)] :=
    OrderedMap.setEntry_of_notMem hnew
  have hmem {f : String × TreePosition K} (hf : f ∈ (state.1.set e.1 found).entries) :
      f ∈ state.1.entries ∨ f = (e.1, found) := by
    rw [hentries, List.mem_append, List.mem_singleton] at hf
    exact hf
  have hkept : state.1.entries ⊆ (state.1.set e.1 found).entries := by
    rw [hentries]
    exact List.subset_append_left _ _
  constructor
  · rw [OrderedMap.values, hentries, List.map_append]
    exact h.grid.occupy found
  · rw [hentries, List.map_append, List.map_append, h.keys, List.append_assoc]
    rfl
  · exact List.Subset.trans h.kept hkept
  · intro f hf
    rcases hmem hf with hf | rfl
    · exact h.described f hf
    · exact ⟨e.2, he, hdescribed⟩
  · rw [hentries]
    apply List.pairwise_append.mpr
    refine ⟨h.apart, List.pairwise_singleton _ _, fun f hf g hg => ?_⟩
    rw [List.mem_singleton.mp hg, hpoint]
    exact hfree f.2 (List.mem_map.mpr ⟨f, hf, rfl⟩)
  · intro f hf hstart q hq
    rcases hmem hf with hf | rfl
    · obtain ⟨above, habove, hle⟩ := h.below f hf hstart q hq
      exact ⟨above, hkept habove, hle⟩
    · rw [hdescribed.1] at hq
      obtain ⟨⟨_, above⟩, habove, rfl⟩ := List.mem_map.mp (hparent q hq)
      refine ⟨above, hkept habove, ?_⟩
      -- The search begins below the parent.
      rw [searchOrigin, hq, Option.bind_some, OrderedMap.get?_eq_some_iff.mpr habove,
        ← hpoint] at hbelow
      exact hbelow

/-! ## The processes that stay -/

omit [Field K] [LinearOrder K] [FloorRing K] [IsStrictOrderedRing K] in
/-- Who stays is placed afresh and has been placed before. -/
theorem mem_survivors {previous : OrderedMap String (TreePosition K)}
    {e : String × TreePosition K} : e ∈ (survivors initial previous).entries ↔
      ∃ place old, (e.1, place) ∈ initial.entries ∧ previous.get? e.1 = some old ∧
        e.2 = { place with x := old.x, y := old.y } := by
  rw [survivors, OrderedMap.entries_ofList]
  · rw [List.mem_filterMap]
    constructor
    · rintro ⟨f, hf, hfe⟩
      obtain ⟨old, hold, rfl⟩ := Option.map_eq_some_iff.mp hfe
      exact ⟨f.2, old, hf, hold, rfl⟩
    · rintro ⟨place, old, hplace, hold, heq⟩
      refine ⟨_, hplace, ?_⟩
      rw [hold, Option.map_some, ← heq]
  · refine initial.nodup.sublist ?_
    rw [List.map_filterMap]
    apply filterMap_sublist_map
    intro e id hid
    cases hold : previous.get? e.1 with
    | none =>
      rw [hold] at hid
      cases hid
    | some old =>
      rw [hold] at hid
      exact (Option.some_inj.mp hid).symm

omit [FloorRing K] [IsStrictOrderedRing K] in
/-- Places that are apart, as a list. -/
theorem pairwise_apartBy {xGap yGap : K} {layout : OrderedMap String (TreePosition K)}
    (h : ∀ e ∈ layout.entries, ∀ f ∈ layout.entries, e.1 ≠ f.1 →
      ApartBy xGap yGap e.2.point f.2.point) :
    layout.entries.Pairwise fun e f => ApartBy xGap yGap e.2.point f.2.point :=
  (List.pairwise_map.mp layout.nodup).imp_of_mem fun he hf hne => h _ he _ hf hne

omit [IsStrictOrderedRing K] in
/-- Before any newcomer is placed. -/
theorem Settled.begin {previous : OrderedMap String (TreePosition K)}
    (hprevious : ∀ e ∈ previous.entries, ∀ f ∈ previous.entries, e.1 ≠ f.1 →
      ApartBy spacing.xGap spacing.yGap e.2.point f.2.point) :
    Settled spacing initial (survivors initial previous) [] (survivors initial previous,
      (survivors initial previous).values.foldl (occupy spacing) .empty) where
  grid := (isGrid_empty spacing).foldl_occupy _
  keys := (List.append_nil _).symm
  kept := List.Subset.refl _
  described e he := by
    obtain ⟨place, old, hplace, -, heq⟩ := mem_survivors.mp he
    rw [heq]
    exact ⟨place, hplace, rfl, rfl⟩
  apart := by
    refine pairwise_apartBy fun e he f hf hne => ?_
    obtain ⟨_, old, -, hold, heq⟩ := mem_survivors.mp he
    obtain ⟨_, old', -, hold', heq'⟩ := mem_survivors.mp hf
    rw [heq, heq']
    exact hprevious _ (OrderedMap.get?_eq_some_iff.mp hold) _
      (OrderedMap.get?_eq_some_iff.mp hold') hne
  below e he hnone := by
    rw [OrderedMap.get?_eq_some_iff.mpr he] at hnone
    cases hnone

/-! ## All newcomers -/

section Newcomers

variable {processes : List ProcessLayoutNode}
  (hinitial : IsForestLayout processes spacing.xGap spacing.yGap initial)
  (hpids : ∀ e ∈ initial.entries, (pidOf e.1).isSome)
  (hx : 0 < spacing.xGap) (hy : 0 < spacing.yGap)
include hinitial hpids hx hy

/-- All newcomers are placed, parents before their children. -/
theorem Settled.run {rest : List (String × TreePosition K)}
    (h : Settled spacing initial start done state) (hrest : newcomers initial start = done ++ rest)
    (hsteps : 2 * initial.size < steps) :
    ∃ state', rest.foldlM (placeNewcomer spacing steps outside) state = some state' ∧
      Settled spacing initial start (newcomers initial start) state' := by
  induction rest generalizing done state with
  | nil =>
    rw [List.append_nil] at hrest
    rw [hrest]
    exact ⟨state, rfl, h⟩
  | cons e rest ih =>
    have hsorted : (newcomers initial start).Pairwise _ := pairwise_newcomers hpids
    have hnodup : ((newcomers initial start).map Prod.fst).Nodup := by
      rw [newcomers, ((List.mergeSort_perm _ _).map Prod.fst).nodup_iff]
      exact initial.nodup.sublist (List.filter_sublist.map Prod.fst)
    have hmem (f : String × TreePosition K) :
        f ∈ newcomers initial start ↔ f ∈ initial.entries ∧ start.get? f.1 = none := by
      rw [newcomers, List.mem_mergeSort, List.mem_filter, Option.isNone_iff_eq_none]
    obtain ⟨he, hout⟩ := (hmem e).mp (hrest ▸ List.mem_append_right _ List.mem_cons_self)
    rw [hrest] at hsorted hnodup hmem
    have hnew : e.1 ∉ state.1.entries.map Prod.fst := by
      rw [h.keys, List.mem_append, not_or]
      refine ⟨OrderedMap.get?_eq_none_iff.mp hout, fun hdone => ?_⟩
      rw [List.map_append, List.map_cons] at hnodup
      exact (List.nodup_append.mp hnodup).2.2 _ hdone _ List.mem_cons_self rfl
    have hparent (q : String) (hq : e.2.parent = some q) :
        q ∈ state.1.entries.map Prod.fst := by
      obtain ⟨above, habove, hdepth, -⟩ := hinitial.child e he q hq
      rw [h.keys, List.mem_append]
      by_cases hstart : start.get? q = none
      · right
        have hlisted := (hmem (q, above)).mpr ⟨OrderedMap.get?_eq_some_iff.mp habove, hstart⟩
        rcases List.mem_append.mp hlisted with hdone | hlater
        · exact List.mem_map.mpr ⟨_, hdone, rfl⟩
        · -- What comes later is no deeper than its parent would be.
          rcases List.mem_cons.mp hlater with rfl | hlater
          · exact absurd hdepth (Nat.ne_of_lt (Nat.lt_succ_self _))
          · have hle := List.rel_of_pairwise_cons (List.pairwise_append.mp hsorted).2.1 hlater
            dsimp only at hle
            omega
      · left
        by_contra hnot
        exact hstart (OrderedMap.get?_eq_none_iff.mpr hnot)
    have hsize : state.1.size ≤ initial.size := by
      have hsub : state.1.entries.map Prod.fst ⊆ initial.entries.map Prod.fst := by
        intro id hid
        obtain ⟨f, hf, rfl⟩ := List.mem_map.mp hid
        obtain ⟨place, hplace, -⟩ := h.described f hf
        exact List.mem_map.mpr ⟨_, hplace, rfl⟩
      have hlength := (List.subperm_of_subset state.1.nodup hsub).length_le
      rwa [List.length_map, List.length_map] at hlength
    obtain ⟨state₁, hplace, h₁⟩ : ∃ state₁, placeNewcomer spacing steps outside state e =
        some state₁ ∧ Settled spacing initial start (done ++ [e]) state₁ :=
      h.step hx hy he hnew hparent (lt_of_le_of_lt (Nat.mul_le_mul_left 2 hsize) hsteps)
    obtain ⟨state₂, hrun, h₂⟩ := ih h₁ (by rw [hrest, List.append_assoc]; rfl)
    refine ⟨state₂, ?_, h₂⟩
    rw [List.foldlM_cons, hplace]
    exact hrun

end Newcomers

/-! ## One call -/

/-- What a call keeps: the processes are placed as the current forest describes them, who has been
placed before stays there, newcomers are below their parents, and no two overlap. -/
structure IsStableLayout (spacing : Spacing K) (processes : List ProcessLayoutNode)
    (relations : List Scene.FdRelation) (previous layout : OrderedMap String (TreePosition K)) :
    Prop where
  keys : (layout.entries.map Prod.fst).Perm (processes.map fun p => key p.identity)
  described : ∃ initial, IsForestLayout processes spacing.xGap spacing.yGap initial ∧
    (∀ steps, processes.length < steps →
      treeLayout spacing.target steps processes spacing.xGap spacing.yGap relations =
        some initial) ∧
    ∀ e ∈ layout.entries, ∃ place, initial.get? e.1 = some place ∧ e.2.parent = place.parent ∧
      e.2.depth = place.depth
  kept : ∀ e ∈ layout.entries, ∀ old, previous.get? e.1 = some old →
    e.2.x = old.x ∧ e.2.y = old.y
  below : ∀ e ∈ layout.entries, previous.get? e.1 = none → ∀ q, e.2.parent = some q →
    ∃ above, layout.get? q = some above ∧ above.y + spacing.yGap ≤ e.2.y
  apart : ∀ e ∈ layout.entries, ∀ f ∈ layout.entries, e.1 ≠ f.1 →
    ApartBy spacing.xGap spacing.yGap e.2.point f.2.point

omit [FloorRing K] [IsStrictOrderedRing K] in
/-- In a list of places that are apart all are. -/
theorem apartBy_of_pairwise {xGap yGap : K} {entries : List (String × TreePosition K)}
    (h : entries.Pairwise fun e f => ApartBy xGap yGap e.2.point f.2.point) :
    ∀ e ∈ entries, ∀ f ∈ entries, e.1 ≠ f.1 → ApartBy xGap yGap e.2.point f.2.point := by
  intro e he f hf hne
  rcases rel_or_rel_of_pairwise h he hf (fun hef => hne (hef ▸ rfl)) with hef | hfe
  · exact hef
  · exact hfe.symm

omit [IsStrictOrderedRing K] in
/-- Where all newcomers are placed the layout is as it should be. -/
theorem Settled.isStableLayout {processes : List ProcessLayoutNode}
    {relations : List Scene.FdRelation} {previous : OrderedMap String (TreePosition K)}
    (hinitial : IsForestLayout processes spacing.xGap spacing.yGap initial)
    (hlayout : ∀ steps, processes.length < steps →
      treeLayout spacing.target steps processes spacing.xGap spacing.yGap relations = some initial)
    (h : Settled spacing initial (survivors initial previous)
      (newcomers initial (survivors initial previous)) state) :
    IsStableLayout spacing processes relations previous state.1 := by
  have hnone {id : String} (hid : previous.get? id = none) :
      (survivors initial previous).get? id = none := by
    apply OrderedMap.get?_eq_none_iff.mpr
    intro hmem
    obtain ⟨e, he, rfl⟩ := List.mem_map.mp hmem
    obtain ⟨_, old, -, hold, -⟩ := mem_survivors.mp he
    rw [hid] at hold
    cases hold
  have hperm : (state.1.entries.map Prod.fst).Perm (initial.entries.map Prod.fst) := by
    apply (List.perm_ext_iff_of_nodup state.1.nodup initial.nodup).mpr
    intro id
    constructor
    · intro hid
      obtain ⟨e, he, rfl⟩ := List.mem_map.mp hid
      obtain ⟨place, hplace, -⟩ := h.described e he
      exact List.mem_map.mpr ⟨_, hplace, rfl⟩
    · intro hid
      rw [h.keys, List.mem_append]
      by_cases hstart : (survivors initial previous).get? id = none
      · right
        obtain ⟨e, he, rfl⟩ := List.mem_map.mp hid
        refine List.mem_map.mpr ⟨e, ?_, rfl⟩
        rw [newcomers, List.mem_mergeSort, List.mem_filter, Option.isNone_iff_eq_none]
        exact ⟨he, hstart⟩
      · left
        by_contra hnot
        exact hstart (OrderedMap.get?_eq_none_iff.mpr hnot)
  constructor
  · exact hperm.trans hinitial.keys
  · refine ⟨initial, hinitial, hlayout, fun e he => ?_⟩
    obtain ⟨place, hplace, hsame⟩ := h.described e he
    exact ⟨place, OrderedMap.get?_eq_some_iff.mpr hplace, hsame⟩
  · intro e he old hold
    obtain ⟨place, hplace, -⟩ := h.described e he
    have hstays : (e.1, { place with x := old.x, y := old.y }) ∈
        (survivors initial previous).entries := mem_survivors.mpr ⟨place, old, hplace, hold, rfl⟩
    have heq := List.inj_on_of_nodup_map state.1.nodup he (h.kept hstays) rfl
    rw [heq]
    exact ⟨rfl, rfl⟩
  · intro e he hold q hq
    obtain ⟨above, habove, hle⟩ := h.below e he (hnone hold) q hq
    exact ⟨above, OrderedMap.get?_eq_some_iff.mpr habove, hle⟩
  · exact apartBy_of_pairwise h.apart

omit [FloorRing K] [IsStrictOrderedRing K] in
/-- Where no process stays, the fresh layout is as it should be. -/
theorem IsForestLayout.isStableLayout {processes : List ProcessLayoutNode}
    {relations : List Scene.FdRelation} {previous : OrderedMap String (TreePosition K)}
    (hinitial : IsForestLayout processes spacing.xGap spacing.yGap initial)
    (hlayout : ∀ steps, processes.length < steps →
      treeLayout spacing.target steps processes spacing.xGap spacing.yGap relations = some initial)
    (hempty : (survivors initial previous).size = 0) :
    IsStableLayout spacing processes relations previous initial where
  keys := hinitial.keys
  described := by
    refine ⟨initial, hinitial, hlayout, fun e he => ?_⟩
    exact ⟨e.2, OrderedMap.get?_eq_some_iff.mpr he, rfl, rfl⟩
  kept e he old hold := by
    have hstays : (e.1, { e.2 with x := old.x, y := old.y }) ∈
        (survivors initial previous).entries := mem_survivors.mpr ⟨e.2, old, he, hold, rfl⟩
    rw [List.length_eq_zero_iff.mp hempty] at hstays
    cases hstays
  below e he _ q hq := by
    obtain ⟨above, habove, -, hle⟩ := hinitial.child e he q hq
    exact ⟨above, habove, hle⟩
  apart := hinitial.apart

omit [IsStrictOrderedRing K] in
/-- More rings make no difference. -/
theorem addNewcomers_mono {steps' : ℕ} (hle : steps ≤ steps')
    {layout : OrderedMap String (TreePosition K)}
    (h : addNewcomers spacing steps initial start = some layout) :
    addNewcomers spacing steps' initial start = some layout := by
  rw [addNewcomers] at h ⊢
  obtain ⟨state, hstate, h⟩ := Option.bind_eq_some_iff.mp h
  rw [foldlM_eq_some_of_imp (fun _ _ _ => placeNewcomer_mono hle) hstate]
  exact h

section Call

variable {previous : OrderedMap String (TreePosition K)} {processes : List ProcessLayoutNode}
  (hprevious : ∀ e ∈ previous.entries, ∀ f ∈ previous.entries, e.1 ≠ f.1 →
    ApartBy spacing.xGap spacing.yGap e.2.point f.2.point)
  (hdistinct : DistinctIdentities processes)
  (hlocal : ∀ p ∈ processes, p.identity.host = none)
  (relations : List Scene.FdRelation) (hx : 0 < spacing.xGap) (hy : 0 < spacing.yGap)
include hprevious hdistinct hlocal hx hy

/-- A call returns, whatever is left of the previous layout. -/
theorem exists_stableLayout : ∃ layout, IsStableLayout spacing processes relations previous layout ∧
    ∀ steps, 2 * processes.length < steps → ∀ processes', processes'.Perm processes →
      stableLayout spacing steps processes' previous relations = some layout := by
  obtain ⟨initial, hinitial, hlayout⟩ :=
    treeLayout_isForestLayout spacing.target hdistinct relations hx hy
  have hlayout' (steps : ℕ) (hsteps : processes.length < steps) :=
    hlayout steps hsteps processes (List.Perm.refl _)
  have hsize : initial.size = processes.length := by
    have hlength := hinitial.keys.length_eq
    rwa [List.length_map, List.length_map] at hlength
  by_cases hempty : (survivors initial previous).size = 0
  · refine ⟨initial, hinitial.isStableLayout hlayout' hempty, ?_⟩
    intro steps hsteps processes' hperm
    rw [stableLayout, hlayout steps (by omega) processes' hperm, Option.bind_eq_bind,
      Option.bind_some, if_pos hempty]
    rfl
  · have hpids : ∀ e ∈ initial.entries, (pidOf e.1).isSome := by
      intro e he
      obtain ⟨p, hp, hpe⟩ := List.mem_map.mp
        (hinitial.keys.mem_iff.mp (List.mem_map.mpr ⟨e, he, rfl⟩))
      rw [← hpe, pidOf_key (hlocal p hp)]
      rfl
    obtain ⟨state, hrun, hsettled⟩ := (Settled.begin hprevious).run hinitial hpids hx hy
      (List.nil_append _).symm (Nat.lt_succ_self (2 * initial.size))
    have hadd : addNewcomers spacing (2 * initial.size + 1) initial (survivors initial previous) =
        some state.1 := by
      rw [addNewcomers, hrun]
      rfl
    refine ⟨state.1, hsettled.isStableLayout hinitial hlayout', ?_⟩
    intro steps hsteps processes' hperm
    rw [stableLayout, hlayout steps (by omega) processes' hperm, Option.bind_eq_bind,
      Option.bind_some, if_neg hempty]
    exact addNewcomers_mono (by omega) hadd

end Call

/-! ## Runs -/

/-- What a call is about. -/
structure LayoutCall where
  processes : List ProcessLayoutNode
  relations : List Scene.FdRelation

/-- The processes differ in PID or start time and are those of one host. -/
def LayoutCall.IsValid (call : LayoutCall) : Prop :=
  DistinctIdentities call.processes ∧ ∀ p ∈ call.processes, p.identity.host = none

instance (call : LayoutCall) : Decidable call.IsValid :=
  inferInstanceAs (Decidable (List.Nodup _ ∧ ∀ p ∈ call.processes, p.identity.host = none))

/-- The same processes, perhaps in another order. -/
def LayoutCall.Reordered (call' call : LayoutCall) : Prop :=
  call'.processes.Perm call.processes ∧ call'.relations = call.relations

/-- The layouts of calls, each of which is given the previous layout. -/
def stableLayouts (spacing : Spacing K) (steps : ℕ) :
    OrderedMap String (TreePosition K) → List LayoutCall →
      Option (List (OrderedMap String (TreePosition K)))
  | _, [] => some []
  | previous, call :: calls => do
    let layout ← stableLayout spacing steps call.processes previous call.relations
    let layouts ← stableLayouts spacing steps layout calls
    pure (layout :: layouts)

/-- A run: a tree layout, and then stable layouts. -/
def layoutRun (spacing : Spacing K) (steps : ℕ) (first : LayoutCall) (calls : List LayoutCall) :
    Option (List (OrderedMap String (TreePosition K))) := do
  let layout ← treeLayout spacing.target steps first.processes spacing.xGap spacing.yGap
    first.relations
  let layouts ← stableLayouts spacing steps layout calls
  pure (layout :: layouts)

/-- Every layout of a run is as it should be after the one before. -/
inductive AreStableLayouts (spacing : Spacing K) : OrderedMap String (TreePosition K) →
    List LayoutCall → List (OrderedMap String (TreePosition K)) → Prop
  | nil (previous : OrderedMap String (TreePosition K)) : AreStableLayouts spacing previous [] []
  | cons {previous layout : OrderedMap String (TreePosition K)} {call : LayoutCall}
      {calls : List LayoutCall} {layouts : List (OrderedMap String (TreePosition K))}
      (h : IsStableLayout spacing call.processes call.relations previous layout)
      (hrest : AreStableLayouts spacing layout calls layouts) :
      AreStableLayouts spacing previous (call :: calls) (layout :: layouts)

/-- All calls of a run return. -/
theorem exists_stableLayouts (hx : 0 < spacing.xGap) (hy : 0 < spacing.yGap)
    {previous : OrderedMap String (TreePosition K)}
    (hprevious : ∀ e ∈ previous.entries, ∀ f ∈ previous.entries, e.1 ≠ f.1 →
      ApartBy spacing.xGap spacing.yGap e.2.point f.2.point)
    {calls : List LayoutCall} (hcalls : ∀ call ∈ calls, call.IsValid) :
    ∃ layouts, AreStableLayouts spacing previous calls layouts ∧
      ∀ steps, (∀ call ∈ calls, 2 * call.processes.length < steps) →
        ∀ calls', List.Forall₂ LayoutCall.Reordered calls' calls →
          stableLayouts spacing steps previous calls' = some layouts := by
  induction calls generalizing previous with
  | nil =>
    refine ⟨[], .nil previous, fun steps _ calls' hreordered => ?_⟩
    rw [List.forall₂_nil_right_iff.mp hreordered]
    rfl
  | cons call calls ih =>
    obtain ⟨⟨hdistinct, hlocal⟩, hrest⟩ := List.forall_mem_cons.mp hcalls
    obtain ⟨layout, hlayout, hrun⟩ :=
      exists_stableLayout hprevious hdistinct hlocal call.relations hx hy
    obtain ⟨layouts, hlayouts, hruns⟩ := ih hlayout.apart hrest
    refine ⟨layout :: layouts, .cons hlayout hlayouts, fun steps hsteps calls'' hreordered => ?_⟩
    obtain ⟨call', calls', ⟨hperm, hrelations⟩, hreorderedRest, rfl⟩ :=
      List.forall₂_cons_right_iff.mp hreordered
    obtain ⟨hstep, hsteps⟩ := List.forall_mem_cons.mp hsteps
    rw [stableLayouts, hrelations, hrun steps hstep _ hperm, Option.bind_eq_bind, Option.bind_some,
      hruns steps hsteps calls' hreorderedRest]
    rfl

/-- In every run that begins with a tree layout all calls return, the first layout is a forest, and
each later one keeps what was placed, puts newcomers below their parents and lets no two processes
overlap, in whatever order they are given. -/
theorem layoutRun_stable (hx : 0 < spacing.xGap) (hy : 0 < spacing.yGap) {first : LayoutCall}
    {calls : List LayoutCall} (hfirst : first.IsValid) (hcalls : ∀ call ∈ calls, call.IsValid) :
    ∃ layout layouts, IsForestLayout first.processes spacing.xGap spacing.yGap layout ∧
      AreStableLayouts spacing layout calls layouts ∧
      ∀ steps, (∀ call ∈ first :: calls, 2 * call.processes.length < steps) →
        ∀ first' calls', first'.Reordered first → List.Forall₂ LayoutCall.Reordered calls' calls →
          layoutRun spacing steps first' calls' = some (layout :: layouts) := by
  obtain ⟨layout, hlayout, hrun⟩ :=
    treeLayout_isForestLayout spacing.target hfirst.1 first.relations hx hy
  obtain ⟨layouts, hlayouts, hruns⟩ := exists_stableLayouts hx hy hlayout.apart hcalls
  refine ⟨layout, layouts, hlayout, hlayouts, ?_⟩
  intro steps hsteps first' calls' hreordered hreordereds
  obtain ⟨hstep, hsteps⟩ := List.forall_mem_cons.mp hsteps
  rw [layoutRun, hreordered.2, hrun steps (by omega) _ hreordered.1, Option.bind_eq_bind,
    Option.bind_some, hruns steps hsteps calls' hreordereds]
  rfl

/-- The gaps of the source, and rows that are 40 wide. -/
def usualSpacing : Spacing ℚ := ⟨fun _ _ => 40, 24 / 5, 13 / 2⟩

/-- Two processes that are each other's parents, one below them, and others. -/
def tangledCall : LayoutCall := ⟨tangledProcesses, []⟩

/-- A process with children that come and go; one of them comes back under another identity. -/
def changingCalls : List LayoutCall :=
  [⟨[⟨⟨7, 5, none⟩, none, none⟩, ⟨⟨9, 20, none⟩, some ⟨7, 5, none⟩, none⟩,
      ⟨⟨3, 30, none⟩, some ⟨9, 20, none⟩, none⟩], []⟩,
    ⟨[⟨⟨7, 5, none⟩, none, none⟩, ⟨⟨9, 99, none⟩, some ⟨7, 5, none⟩, none⟩], []⟩]

theorem layoutRun_stable_changing :
    ∃ layout layouts, IsForestLayout tangledCall.processes usualSpacing.xGap usualSpacing.yGap
        layout ∧
      AreStableLayouts usualSpacing layout changingCalls layouts ∧
      ∀ steps, (∀ call ∈ tangledCall :: changingCalls, 2 * call.processes.length < steps) →
        ∀ first' calls', first'.Reordered tangledCall →
          List.Forall₂ LayoutCall.Reordered calls' changingCalls →
          layoutRun usualSpacing steps first' calls' = some (layout :: layouts) :=
  layoutRun_stable (by norm_num [usualSpacing]) (by norm_num [usualSpacing]) (by decide)
    (by decide)

end Procinsh.Space.ProcessLayout
