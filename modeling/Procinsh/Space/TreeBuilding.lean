import Procinsh.Foundation.Lineage
import Procinsh.Foundation.Lists
import Procinsh.Space.TreeBlocks

/-!
# Building trees

`build` puts a process above the packed blocks of its children.  The leaves among them share a block,
in which those with several peers may change places with others.  Down a forest the recursion ends,
as it goes from a lineage to a longer one and there are only so many processes.
-/

namespace Procinsh.Space.ProcessLayout

variable {K : Type} [Field K] [LinearOrder K] {forest : Forest K}

/-- The parents form a forest, and gaps are positive. -/
structure IsForest (forest : Forest K) : Prop where
  known : forest.parents.entries.map Prod.fst = forest.keys
  acyclic : ∀ a, ¬ OnCycle (parentOf forest.parents) a
  xGap_pos : 0 < forest.xGap
  yGap_pos : 0 < forest.yGap

omit [Field K] [LinearOrder K] in
theorem mem_children {c id : String} :
    c ∈ children forest id ↔ parentOf forest.parents c = some id := by
  rw [children, List.mem_mergeSort, List.mem_map]
  constructor
  · rintro ⟨e, he, rfl⟩
    obtain ⟨hmem, hparent⟩ := List.mem_filter.mp he
    apply parentOf_of_get?
    rw [OrderedMap.get?_eq_some_iff, ← of_decide_eq_true hparent]
    exact hmem
  · intro h
    have hmem := OrderedMap.get?_eq_some_iff.mp (Option.join_eq_some_iff.mp h)
    exact ⟨(c, some id), List.mem_filter.mpr ⟨hmem, decide_eq_true rfl⟩, rfl⟩

omit [Field K] [LinearOrder K] in
theorem nodup_children (forest : Forest K) (id : String) : (children forest id).Nodup := by
  rw [children, (List.mergeSort_perm _ _).nodup_iff]
  exact forest.parents.nodup.sublist (List.filter_sublist.map Prod.fst)

omit [Field K] [LinearOrder K] in
theorem isEmpty_children {id : String} :
    (children forest id).isEmpty ↔ ∀ x, parentOf forest.parents x ≠ some id := by
  rw [List.isEmpty_iff, List.eq_nil_iff_forall_not_mem]
  simp only [mem_children, ne_eq]

/-! ## Places for hubs -/

omit [Field K] [LinearOrder K] in
/-- Processes that are moved to slots stand there, with what they had otherwise. -/
theorem filterMap_moveTo {block : PackedTree K} {ids : List String}
    {slots : List (TreePosition K)} (hids : ids ⊆ block.keys) (hlength : ids.length = slots.length) :
    let moved := (ids.zip slots).filterMap fun e => moveTo block e.1 e.2
    moved.map Prod.fst = ids ∧
      (moved.map fun e => e.2.point) = slots.map TreePosition.point ∧
      ∀ e ∈ moved, ∃ old, (e.1, old) ∈ block.positions.entries ∧ e.2.parent = old.parent ∧
        e.2.depth = old.depth := by
  induction ids generalizing slots with
  | nil =>
    obtain rfl := List.length_eq_zero_iff.mp hlength.symm
    exact ⟨rfl, rfl, fun e he => absurd he List.not_mem_nil⟩
  | cons id ids ih =>
    cases slots with
    | nil => cases hlength
    | cons slot slots =>
      obtain ⟨hid, hids⟩ := List.cons_subset.mp hids
      obtain ⟨hfst, hpoint, hold⟩ := ih hids (Nat.succ.inj hlength)
      obtain ⟨e, hmem, rfl⟩ := List.mem_map.mp hid
      have hmove : moveTo block e.1 slot = some (e.1, { e.2 with x := slot.x, y := slot.y }) := by
        rw [moveTo, OrderedMap.get?_eq_some_iff.mpr hmem, Option.map_some]
      intro moved
      have hmoved : moved = (e.1, { e.2 with x := slot.x, y := slot.y }) ::
          (ids.zip slots).filterMap fun e => moveTo block e.1 e.2 :=
        List.filterMap_cons_some hmove
      rw [hmoved]
      refine ⟨?_, ?_, List.forall_mem_cons.mpr ⟨⟨e.2, hmem, rfl, rfl⟩, hold⟩⟩
      · rw [List.map_cons, hfst]
      · rw [List.map_cons, List.map_cons, hpoint]
        rfl

omit [Field K] [LinearOrder K] in
/-- The hubs are some of the leaves. -/
theorem hubs_spec (forest : Forest K) {leaves : List String} (hleaves : leaves.Nodup) :
    (hubs forest leaves).Nodup ∧ hubs forest leaves ⊆ leaves := by
  have hperm : (hubs forest leaves).Perm (leaves.filter fun leaf => 1 < forest.peers leaf) :=
    List.mergeSort_perm _ _
  refine ⟨hperm.nodup_iff.mpr (hleaves.filter _), ?_⟩
  intro leaf hleaf
  exact List.mem_of_mem_filter (hperm.subset hleaf)

section Strict

variable [IsStrictOrderedRing K]

/-- The places of a block differ. -/
theorem IsBlock.nodup_values (hforest : IsForest forest) {block : PackedTree K}
    (h : IsBlock forest block) : block.positions.values.Nodup := by
  apply List.pairwise_map.mpr
  refine h.apart.imp fun {e f} hef heq => ?_
  rw [heq, ApartBy, sub_self, sub_self, abs_zero] at hef
  rcases hef with hef | hef
  · exact absurd hef (not_le.mpr hforest.xGap_pos)
  · exact absurd hef (not_le.mpr hforest.yGap_pos)

/-- The processes of a block have changed places. -/
structure Rearranged (block block' : PackedTree K) : Prop where
  width_eq : block'.width = block.width
  height_eq : block'.height = block.height
  keys_perm : block'.keys.Perm block.keys
  points_perm : (block'.positions.entries.map fun e => e.2.point).Perm
    (block.positions.entries.map fun e => e.2.point)
  kept : ∀ e ∈ block'.positions.entries, ∃ old, (e.1, old) ∈ block.positions.entries ∧
    e.2.parent = old.parent ∧ e.2.depth = old.depth

theorem centerHubs_rearranged (hforest : IsForest forest) {leaves : List String}
    {block : PackedTree K} (hblock : IsBlock forest block) (hleaves : leaves.Nodup)
    (hkeys : block.keys.Perm leaves) : Rearranged block (centerHubs forest leaves block) := by
  obtain ⟨hnodup, hsub⟩ := hubs_spec forest hleaves
  have hslots := hblock.nodup_values hforest
  have hlength : block.positions.values.length = leaves.length := by
    rw [← hkeys.length_eq, PackedTree.keys, OrderedMap.values, List.length_map, List.length_map]
  have havailable : (available block.positions.values).Perm block.positions.values :=
    List.mergeSort_perm _ _
  rw [centerHubs]
  generalize hubs forest leaves = hubs at hnodup hsub
  -- The slots that are used and those that remain are all slots.
  have hused : ((available block.positions.values).take hubs.length).Nodup ∧
      (available block.positions.values).take hubs.length ⊆ block.positions.values :=
    ⟨(havailable.nodup_iff.mpr hslots).sublist (List.take_sublist _ _),
      List.Subset.trans (List.take_subset _ _) havailable.subset⟩
  have hcount : ((available block.positions.values).take hubs.length).length = hubs.length := by
    rw [List.length_take, havailable.length_eq, hlength]
    exact Nat.min_eq_left (List.subperm_of_subset hnodup hsub).length_le
  generalize (available block.positions.values).take hubs.length = used at hused hcount
  have hplaces := perm_append_filter_notMem hslots hused.1 hused.2
  have hids := perm_append_filter_notMem hleaves hnodup hsub
  rw [← List.zip_append hcount.symm]
  obtain ⟨hfst, hpoint, hold⟩ := filterMap_moveTo
    (fun id hid => hkeys.mem_iff.mpr (hids.mem_iff.mp hid))
    ((hids.length_eq.trans hlength.symm).trans hplaces.length_eq.symm)
  have hentries := OrderedMap.entries_ofList (by rw [hfst, hids.nodup_iff]; exact hleaves)
  constructor
  · rfl
  · rfl
  · rw [PackedTree.keys, hentries, hfst]
    exact hids.trans hkeys.symm
  · rw [hentries, hpoint]
    refine (hplaces.map TreePosition.point).trans (List.Perm.of_eq ?_)
    rw [OrderedMap.values, List.map_map]
    rfl
  · rw [hentries]
    exact hold

omit [IsStrictOrderedRing K] in
/-- Processes without children that change places are a block as before. -/
theorem Rearranged.isBlock {block block' : PackedTree K} (h : Rearranged block block')
    (hblock : IsBlock forest block) (hflat : ∀ e ∈ block.positions.entries, e.2.depth = 0)
    (hbare : ∀ id ∈ block.keys, ∀ x, parentOf forest.parents x ≠ some id) :
    IsBlock forest block' := by
  have hdepth (e : String × TreePosition K) (he : e ∈ block'.positions.entries) :
      e.2.depth = 0 := by
    obtain ⟨old, hmem, -, hdepth⟩ := h.kept e he
    rw [hdepth, hflat _ hmem]
  constructor
  · rw [h.width_eq]
    exact hblock.width_nonneg
  · rw [h.height_eq]
    exact hblock.height_nonneg
  · intro id
    constructor
    · intro hid
      obtain ⟨e, he, rfl⟩ := List.mem_map.mp hid
      exact ⟨e.1, ⟨e, he, rfl, hdepth e he⟩, Reaches.refl _ e.1⟩
    · rintro ⟨r, ⟨e, he, rfl, -⟩, hreach⟩
      have hkey : e.1 ∈ block'.keys := List.mem_map.mpr ⟨e, he, rfl⟩
      rcases hreach.eq_or_tail with heq | ⟨q, -, hq⟩
      · exact heq ▸ hkey
      · exact absurd hq (hbare e.1 (h.keys_perm.mem_iff.mp hkey) q)
  · intro e he
    obtain ⟨old, hmem, hparent, -⟩ := h.kept e he
    rw [hparent, hblock.parent _ hmem]
  · intro e he hne
    exact absurd (hdepth e he) hne
  · intro e he
    obtain ⟨f, hf, hfe⟩ := List.mem_map.mp
      (h.points_perm.mem_iff.mp (List.mem_map.mpr ⟨e, he, rfl⟩))
    rw [h.width_eq, h.height_eq, ← hfe]
    exact hblock.inside f hf
  · apply List.pairwise_map.mp
    rw [h.points_perm.pairwise_iff ApartBy.symm]
    exact List.pairwise_map.mpr hblock.apart
  · intro a ha c d _ hc
    exact absurd hc (hbare a (h.keys_perm.mem_iff.mp ha) c)

omit [Field K] [LinearOrder K] [IsStrictOrderedRing K] in
theorem Rearranged.isRoot_iff {block block' : PackedTree K} (h : Rearranged block block')
    (hflat : ∀ e ∈ block.positions.entries, e.2.depth = 0) {r : String} :
    block'.IsRoot r ↔ block.IsRoot r := by
  constructor
  · rintro ⟨e, he, rfl, hdepth⟩
    obtain ⟨old, hmem, -, hkept⟩ := h.kept e he
    exact ⟨_, hmem, rfl, hkept ▸ hdepth⟩
  · rintro ⟨e, he, rfl, -⟩
    obtain ⟨f, hf, hfe⟩ := List.mem_map.mp
      (h.keys_perm.mem_iff.mpr (List.mem_map.mpr ⟨e, he, rfl⟩))
    obtain ⟨old, hmem, -, hkept⟩ := h.kept f hf
    exact ⟨f, hf, hfe, hkept.trans (hflat _ hmem)⟩

/-! ## A process above its children -/

section Crown

variable {id : String} {packed : PackedTree K}

/-- An entry that is moved below a process. -/
def lowered (forest : Forest K) (packed : PackedTree K) (e : String × TreePosition K) :
    String × TreePosition K :=
  (e.1, { e.2 with
    x := e.2.x + crownOffset forest packed
    y := e.2.y + forest.yGap
    depth := e.2.depth + 1 })

omit [IsStrictOrderedRing K] in
theorem entries_crown (hid : id ∉ packed.keys) :
    (crown forest id packed).positions.entries =
      (id, crownPlace forest id packed) :: packed.positions.entries.map (lowered forest packed) := by
  have hlowered : (shifted packed (crownOffset forest packed) forest.yGap).map (fun e =>
      (e.1, { e.2 with depth := e.2.depth + 1 })) =
        packed.positions.entries.map (lowered forest packed) := by
    rw [shifted, List.map_map]
    rfl
  rw [crown]
  apply (OrderedMap.entries_ofList ?_).trans
  · rw [← hlowered]
  · rw [List.map_cons, List.map_map]
    apply List.nodup_cons.mpr
    constructor
    · change id ∉ (shifted packed _ _).map Prod.fst
      rwa [map_fst_shifted]
    · change ((shifted packed _ _).map Prod.fst).Nodup
      rw [map_fst_shifted]
      exact packed.positions.nodup

omit [IsStrictOrderedRing K] in
theorem keys_crown (hid : id ∉ packed.keys) : (crown forest id packed).keys = id :: packed.keys := by
  rw [PackedTree.keys, entries_crown hid, List.map_cons, List.map_map]
  rfl

omit [IsStrictOrderedRing K] in
theorem height_crown (packed : PackedTree K) :
    (crown forest id packed).height = packed.height + forest.yGap := by
  rw [crown]
  dsimp only
  split
  · next h => rw [h, zero_add]
  · rfl

variable (hforest : IsForest forest) (h : IsBlock forest packed)
  (hroots : ∀ r, packed.IsRoot r ↔ parentOf forest.parents r = some id)
include hforest h hroots

omit [IsStrictOrderedRing K] in
/-- No process is below itself. -/
theorem notMem_keys_of_roots : id ∉ packed.keys := by
  intro hid
  obtain ⟨r, hr, hreach⟩ := (h.mem_keys id).mp hid
  exact hforest.acyclic r (onCycle_iff.mpr ⟨id, (hroots r).mp hr, hreach⟩)

omit [IsStrictOrderedRing K] in
theorem mem_crown_iff {x : String × TreePosition K} :
    x ∈ (crown forest id packed).positions.entries ↔
      x = (id, crownPlace forest id packed) ∨
        ∃ e ∈ packed.positions.entries, x = lowered forest packed e := by
  rw [entries_crown (notMem_keys_of_roots hforest h hroots), List.mem_cons, List.mem_map]
  simp only [eq_comm]

omit [IsStrictOrderedRing K] in
/-- The process is the only root. -/
theorem isRoot_crown_iff (r : String) : (crown forest id packed).IsRoot r ↔ r = id := by
  constructor
  · rintro ⟨x, hx, rfl, hdepth⟩
    rcases (mem_crown_iff hforest h hroots).mp hx with rfl | ⟨e, -, rfl⟩
    · rfl
    · cases hdepth
  · rintro rfl
    exact ⟨_, (mem_crown_iff hforest h hroots).mpr (.inl rfl), rfl, rfl⟩

omit [IsStrictOrderedRing K] in
/-- The block holds all that is below the process. -/
theorem mem_keys_crown_iff (x : String) :
    x ∈ (crown forest id packed).keys ↔ Reaches (parentOf forest.parents) x id := by
  rw [keys_crown (notMem_keys_of_roots hforest h hroots), List.mem_cons]
  constructor
  · rintro (rfl | hx)
    · exact Reaches.refl _ x
    · obtain ⟨r, hr, hreach⟩ := (h.mem_keys x).mp hx
      exact hreach.tail ((hroots r).mp hr)
  · intro hx
    rcases hx.eq_or_tail with heq | ⟨r, hreach, hr⟩
    · exact .inl heq.symm
    · exact .inr ((h.mem_keys x).mpr ⟨r, (hroots r).mpr hr, hreach⟩)

omit hforest hroots in
/-- What is below a process is held by the box below it. -/
theorem holds_lowered {e : String × TreePosition K} (he : e ∈ packed.positions.entries) :
    Box.Holds forest.xGap forest.yGap
      ⟨crownOffset forest packed, forest.yGap, packed.width, packed.height⟩
      (lowered forest packed e).2.point :=
  (h.inside e he).move rfl

/-- A process above the packed blocks of its children makes a block. -/
theorem isBlock_crown
    (hbeside : BranchesBeside (parentOf forest.parents) packed.positions.entries id) :
    IsBlock forest (crown forest id packed) := by
  have hmem {x : String × TreePosition K} := mem_crown_iff (x := x) hforest h hroots
  have hid := notMem_keys_of_roots hforest h hroots
  have hwidth : forest.xGap ≤ (crown forest id packed).width := le_max_left _ _
  have hfits : packed.width ≤ (crown forest id packed).width := le_max_right _ _
  have hoffset : crownOffset forest packed = ((crown forest id packed).width - packed.width) / 2 :=
    rfl
  have hxGap := hforest.xGap_pos
  have hyGap := hforest.yGap_pos
  have hheight := h.height_nonneg
  constructor
  · exact hxGap.le.trans hwidth
  · rw [height_crown]
    exact add_nonneg hheight hyGap.le
  · intro x
    rw [mem_keys_crown_iff hforest h hroots]
    constructor
    · intro hx
      exact ⟨id, (isRoot_crown_iff hforest h hroots id).mpr rfl, hx⟩
    · rintro ⟨r, hr, hx⟩
      rwa [← (isRoot_crown_iff hforest h hroots r).mp hr]
  · intro x hx
    rcases hmem.mp hx with rfl | ⟨e, he, rfl⟩
    · rfl
    · exact h.parent e he
  · intro x hx hdepth
    rcases hmem.mp hx with rfl | ⟨e, he, rfl⟩
    · exact absurd rfl hdepth
    · by_cases hroot : e.2.depth = 0
      · -- A child of the process.
        refine ⟨_, hmem.mpr (.inl rfl), (hroots e.1).mp ⟨e, he, rfl, hroot⟩, ?_, ?_⟩
        · rw [lowered, hroot]
          rfl
        · have htop := (holds_lowered h he).top
          rw [crownPlace, zero_add]
          exact htop
      · obtain ⟨above, habove, hparent, hlevel, hbelow⟩ := h.linked e he hroot
        refine ⟨_, hmem.mpr (.inr ⟨above, habove, rfl⟩), hparent, ?_, ?_⟩
        · rw [lowered, hlevel]
          rfl
        · rw [lowered, lowered]
          linarith
  · intro x hx
    rcases hmem.mp hx with rfl | ⟨e, he, rfl⟩
    · rw [height_crown]
      constructor
      · change 0 + forest.xGap / 2 ≤ (crown forest id packed).width / 2
        linarith
      · change (crown forest id packed).width / 2 + forest.xGap / 2 ≤
          0 + (crown forest id packed).width
        linarith
      · exact le_refl 0
      · change 0 + forest.yGap ≤ 0 + (packed.height + forest.yGap)
        linarith
    · apply (holds_lowered h he).within
      · rw [hoffset]
        linarith
      · rw [hoffset]
        linarith
      · exact hyGap.le
      · rw [height_crown]
        linarith
  · rw [entries_crown hid]
    apply List.Pairwise.cons
    · intro x hx
      obtain ⟨e, he, rfl⟩ := List.mem_map.mp hx
      have htop := (holds_lowered h he).top
      refine .inr (le_abs.mpr (.inr ?_))
      change forest.yGap ≤ -(0 - (lowered forest packed e).2.y)
      rw [zero_sub, neg_neg]
      exact htop
    · apply List.pairwise_map.mpr
      refine h.apart.imp fun {e f} hef => ?_
      exact (apartBy_add_right (crownOffset forest packed, forest.yGap)).mpr hef
  · intro a ha c d hcd hc hd hbelow hbelow'
    have hside : SideBySide (parentOf forest.parents) packed.positions.entries c d := by
      rw [keys_crown hid] at ha
      rcases List.mem_cons.mp ha with rfl | ha
      · exact hbeside c d hcd hc hd hbelow hbelow'
      · exact h.beside a ha c d hcd hc hd hbelow hbelow'
    have hreach := (mem_keys_crown_iff hforest h hroots a).mp ha
    apply hside.of_entries (crownOffset forest packed)
    intro x hx hxcd
    rcases hmem.mp hx with rfl | ⟨e, he, rfl⟩
    · -- The process is not below its descendants.
      rcases hxcd with hx | hx
      · exact absurd (onCycle_iff.mpr ⟨a, hc, hreach.trans hx⟩) (hforest.acyclic c)
      · exact absurd (onCycle_iff.mpr ⟨a, hd, hreach.trans hx⟩) (hforest.acyclic d)
    · exact ⟨e, he, rfl, rfl⟩

end Crown

/-! ## The recursion -/

omit [IsStrictOrderedRing K] in
/-- More steps make no difference. -/
theorem build_mono {steps steps' : ℕ} (hle : steps ≤ steps') {id : String} {block : PackedTree K}
    (h : build forest steps id = some block) : build forest steps' id = some block := by
  induction steps generalizing steps' id block with
  | zero => cases h
  | succ steps ih =>
    obtain ⟨more, rfl⟩ := Nat.exists_eq_add_of_le' (Nat.le_trans (Nat.succ_pos steps) hle)
    have hless : steps ≤ more := Nat.le_of_succ_le_succ hle
    rw [build] at h ⊢
    obtain ⟨layouts, hlayouts, h⟩ := Option.bind_eq_some_iff.mp h
    rw [mapM_eq_some_of_imp ?_ hlayouts]
    · exact h
    · intro child block hblock
      dsimp only at hblock ⊢
      split at hblock
      · next hempty =>
        rw [if_pos hempty]
        obtain ⟨blocks, hblocks, rfl⟩ := Option.map_eq_some_iff.mp hblock
        rw [mapM_eq_some_of_imp (fun leaf block hleaf => ih hless hleaf) hblocks]
        rfl
      · next hempty =>
        rw [if_neg hempty]
        exact ih hless hblock

omit [IsStrictOrderedRing K] in
/-- A block whose roots have no children has no other processes. -/
theorem IsBlock.flat_of_bare {block : PackedTree K} (h : IsBlock forest block)
    (hbare : ∀ r, block.IsRoot r → ∀ x, parentOf forest.parents x ≠ some r) :
    (∀ id, id ∈ block.keys ↔ block.IsRoot id) ∧ ∀ e ∈ block.positions.entries, e.2.depth = 0 := by
  have hroot (id : String) (hid : id ∈ block.keys) : block.IsRoot id := by
    obtain ⟨r, hr, hreach⟩ := (h.mem_keys id).mp hid
    rcases hreach.eq_or_tail with rfl | ⟨q, -, hq⟩
    · exact hr
    · exact absurd hq (hbare r hr q)
  constructor
  · intro id
    refine ⟨hroot id, fun hid => ?_⟩
    exact (h.mem_keys id).mpr ⟨id, hid, Reaches.refl _ id⟩
  · intro e he
    obtain ⟨f, hf, hfe, hdepth⟩ := hroot e.1 (List.mem_map.mpr ⟨e, he, rfl⟩)
    rwa [← List.inj_on_of_nodup_map block.positions.nodup hf he hfe]

/-- A block with one root. -/
def IsTree (forest : Forest K) (id : String) (block : PackedTree K) : Prop :=
  IsBlock forest block ∧ ∀ r, block.IsRoot r ↔ r = id

omit [IsStrictOrderedRing K] in
/-- The trees of different processes have different roots. -/
theorem pairwise_roots {ids : List String} {blocks : List (PackedTree K)} (hids : ids.Nodup)
    (h : List.Forall₂ (IsTree forest) ids blocks) :
    blocks.Pairwise fun b c => ∀ r, b.IsRoot r → ¬ c.IsRoot r := by
  refine pairwise_of_forall₂ h hids ?_
  intro i j b c hb hc hij r hr hr'
  exact hij (((hb.2 r).mp hr).symm.trans ((hc.2 r).mp hr'))

/-- The trees of some processes with the same parent are packed. -/
theorem packs_trees (hforest : IsForest forest) {ids : List String} {blocks : List (PackedTree K)}
    (hids : ids.Nodup) (h : List.Forall₂ (IsTree forest) ids blocks) {q : Option String}
    (hparent : ∀ id ∈ ids, parentOf forest.parents id = q) {gap : K} (hgap : 0 ≤ gap)
    (wrapRows : Bool) :
    Packs forest gap wrapRows blocks (pack forest blocks gap wrapRows) ∧
      ∀ r, (pack forest blocks gap wrapRows).IsRoot r ↔ r ∈ ids := by
  have hpacks : Packs forest gap wrapRows blocks (pack forest blocks gap wrapRows) := by
    apply packs_pack hforest.acyclic hgap wrapRows (q := q)
    · intro b hb
      obtain ⟨id, -, htree⟩ := exists_left_of_forall₂ h hb
      exact htree.1
    · exact pairwise_roots hids h
    · intro b hb r hr
      obtain ⟨id, hid, htree⟩ := exists_left_of_forall₂ h hb
      rw [(htree.2 r).mp hr]
      exact hparent id hid
  refine ⟨hpacks, fun r => ?_⟩
  rw [hpacks.isRoot_iff]
  constructor
  · rintro ⟨b, hb, hr⟩
    obtain ⟨id, hid, htree⟩ := exists_left_of_forall₂ h hb
    rwa [(htree.2 r).mp hr]
  · intro hr
    obtain ⟨b, hb, htree⟩ := exists_right_of_forall₂ h hr
    exact ⟨b, hb, (htree.2 r).mpr rfl⟩

/-- The leaves below a process make a block. -/
theorem leafBlock_spec (hforest : IsForest forest) {id : String} {leaves : List String}
    {blocks : List (PackedTree K)} (hleaves : leaves.Nodup)
    (h : List.Forall₂ (IsTree forest) leaves blocks)
    (hparent : ∀ leaf ∈ leaves, parentOf forest.parents leaf = some id)
    (hbare : ∀ leaf ∈ leaves, ∀ x, parentOf forest.parents x ≠ some leaf) :
    IsBlock forest (leafBlock forest leaves blocks) ∧
      ∀ r, (leafBlock forest leaves blocks).IsRoot r ↔ r ∈ leaves := by
  have hgap : (0 : K) ≤ 3 := by positivity
  obtain ⟨hpacks, hroots⟩ := packs_trees hforest hleaves h hparent hgap true
  rw [leafBlock]
  generalize pack forest blocks 3 true = block at hpacks hroots
  obtain ⟨hkeys, hflat⟩ := hpacks.isBlock.flat_of_bare fun r hr => hbare r ((hroots r).mp hr)
  have hmem (leaf : String) : leaf ∈ block.keys ↔ leaf ∈ leaves :=
    (hkeys leaf).trans (hroots leaf)
  split
  · have hrearranged := centerHubs_rearranged hforest hpacks.isBlock hleaves
      ((List.perm_ext_iff_of_nodup block.positions.nodup hleaves).mpr hmem)
    constructor
    · apply hrearranged.isBlock hpacks.isBlock hflat
      intro leaf hleaf
      exact hbare leaf ((hmem leaf).mp hleaf)
    · intro r
      rw [hrearranged.isRoot_iff hflat, hroots]
  · exact ⟨hpacks.isBlock, hroots⟩

/-- What is packed below a process, in the place of a child: the tree of the child, or the block of
all leaves. -/
structure Stands (forest : Forest K) (leaves : List String) (child : String)
    (block : PackedTree K) : Prop where
  isBlock : IsBlock forest block
  isRoot_iff : ∀ r, block.IsRoot r ↔
    if (children forest child).isEmpty then r ∈ leaves else r = child
  head : (children forest child).isEmpty → leaves.head? = some child

section Below

variable {id : String} {childIds leaves : List String} {layouts : List (PackedTree K)}
  (hforest : IsForest forest) (hnodup : childIds.Nodup)
  (hleaf : ∀ leaf, leaf ∈ leaves ↔
    parentOf forest.parents leaf = some id ∧ (children forest leaf).isEmpty)
  (hchildren : ∀ child, child ∈ childIds ↔ parentOf forest.parents child = some id ∧
    ((children forest child).isEmpty → leaves.head? = some child))
  (hstands : List.Forall₂ (Stands forest leaves) childIds layouts)
include hforest hnodup hleaf hchildren hstands

/-- What is packed below a process: its children are the roots. -/
theorem packs_below : Packs forest 3 false layouts (pack forest layouts 3 false) ∧
    ∀ r, (pack forest layouts 3 false).IsRoot r ↔ parentOf forest.parents r = some id := by
  have hparent (b : PackedTree K) (hb : b ∈ layouts) (r : String) (hr : b.IsRoot r) :
      parentOf forest.parents r = some id := by
    obtain ⟨child, hchild, hstand⟩ := exists_left_of_forall₂ hstands hb
    have hroot := (hstand.isRoot_iff r).mp hr
    split at hroot
    · exact ((hleaf r).mp hroot).1
    · rw [hroot]
      exact ((hchildren child).mp hchild).1
  have hroots : layouts.Pairwise fun b c => ∀ r, b.IsRoot r → ¬ c.IsRoot r := by
    refine pairwise_of_forall₂ hstands hnodup ?_
    intro child child' b c hb hc hne r hr hr'
    have hroot := (hb.isRoot_iff r).mp hr
    have hroot' := (hc.isRoot_iff r).mp hr'
    by_cases hempty : (children forest child).isEmpty
    · rw [if_pos hempty] at hroot
      by_cases hempty' : (children forest child').isEmpty
      · -- There is only one block of leaves.
        exact hne (Option.some_inj.mp ((hb.head hempty).symm.trans (hc.head hempty')))
      · rw [if_neg hempty'] at hroot'
        exact hempty' (hroot' ▸ ((hleaf r).mp hroot).2)
    · rw [if_neg hempty] at hroot
      by_cases hempty' : (children forest child').isEmpty
      · rw [if_pos hempty'] at hroot'
        exact hempty (hroot ▸ ((hleaf r).mp hroot').2)
      · rw [if_neg hempty'] at hroot'
        exact hne (hroot.symm.trans hroot')
  have hgap : (0 : K) ≤ 3 := by positivity
  have hpacks := packs_pack hforest.acyclic hgap false (fun b hb => by
    obtain ⟨child, -, hstand⟩ := exists_left_of_forall₂ hstands hb
    exact hstand.isBlock) hroots hparent
  refine ⟨hpacks, fun r => ?_⟩
  rw [hpacks.isRoot_iff]
  constructor
  · rintro ⟨b, hb, hr⟩
    exact hparent b hb r hr
  · intro hr
    by_cases hempty : (children forest r).isEmpty
    · have hmem := (hleaf r).mpr ⟨hr, hempty⟩
      obtain ⟨first, hfirst⟩ := List.exists_mem_of_ne_nil leaves (List.ne_nil_of_mem hmem)
      obtain ⟨head, hhead⟩ := Option.isSome_iff_exists.mp (List.isSome_head?.mpr
        (List.ne_nil_of_mem hmem))
      obtain ⟨hheadParent, hheadEmpty⟩ := (hleaf head).mp (List.mem_of_head? hhead)
      obtain ⟨b, hb, hstand⟩ := exists_right_of_forall₂ hstands
        ((hchildren head).mpr ⟨hheadParent, fun _ => hhead⟩)
      refine ⟨b, hb, (hstand.isRoot_iff r).mpr ?_⟩
      rwa [if_pos hheadEmpty]
    · obtain ⟨b, hb, hstand⟩ := exists_right_of_forall₂ hstands
        ((hchildren r).mpr ⟨hr, fun h => absurd h hempty⟩)
      refine ⟨b, hb, (hstand.isRoot_iff r).mpr ?_⟩
      rw [if_neg hempty]

/-- The children with descendants are side by side. -/
theorem branchesBeside_below : BranchesBeside (parentOf forest.parents)
    (pack forest layouts 3 false).positions.entries id := by
  intro c d hcd hc hd hbelow hbelow'
  have hgap : (0 : K) ≤ 3 := by positivity
  obtain ⟨hpacks, -⟩ := packs_below hforest hnodup hleaf hchildren hstands
  have hbranch {c : String} (hc : parentOf forest.parents c = some id)
      (hbelow : ∃ x, parentOf forest.parents x = some c) :
      ∃ b ∈ layouts, ∀ r, b.IsRoot r ↔ r = c := by
    obtain ⟨x, hx⟩ := hbelow
    have hempty : ¬ (children forest c).isEmpty := fun h => isEmpty_children.mp h x hx
    obtain ⟨b, hb, hstand⟩ := exists_right_of_forall₂ hstands
      ((hchildren c).mpr ⟨hc, fun h => absurd h hempty⟩)
    refine ⟨b, hb, fun r => ?_⟩
    rw [hstand.isRoot_iff, if_neg hempty]
  obtain ⟨b, hb, hroot⟩ := hbranch hc hbelow
  obtain ⟨b', hb', hroot'⟩ := hbranch hd hbelow'
  apply hpacks.sideBySide hgap hforest.xGap_pos ?_ hb hb' ((hroot c).mpr rfl) ((hroot' d).mpr rfl)
  · rintro rfl
    exact hcd ((hroot' c).mp ((hroot c).mpr rfl))
  · intro b hb
    obtain ⟨child, -, hstand⟩ := exists_left_of_forall₂ hstands hb
    exact hstand.isBlock

end Below

/-- With enough steps the tree below a process is built: its lineage grows on the way down, and no
process occurs twice in it. -/
theorem exists_build (hforest : IsForest forest) {steps : ℕ} {above : List String} {id : String}
    (hline : IsLineage (parentOf forest.parents) (above ++ [id]))
    (hknown : above ++ [id] ⊆ forest.keys)
    (hsteps : forest.keys.length < (above ++ [id]).length + steps) :
    ∃ block, build forest steps id = some block ∧ IsTree forest id block := by
  induction steps generalizing above id with
  | zero =>
    have hlength := (List.subperm_of_subset hline.nodup hknown).length_le
    exact absurd hsteps (not_lt.mpr hlength)
  | succ steps ih =>
    -- The children are built with the steps that remain.
    have hchild (c : String) (hc : parentOf forest.parents c = some id) :
        ∃ block, build forest steps c = some block ∧ IsTree forest c block := by
      have hline' : IsLineage (parentOf forest.parents) ((above ++ [id]) ++ [c]) := by
        rw [IsLineage.concat_iff, List.getLast?_concat]
        exact ⟨hline, hc⟩
      apply ih hline'
      · apply List.append_subset.mpr
        refine ⟨hknown, List.cons_subset.mpr ⟨?_, List.nil_subset _⟩⟩
        rw [← hforest.known]
        exact mem_keys_of_parentOf hc
      · rw [List.length_append, List.length_singleton]
        omega
    rw [build]
    generalize hleaves : (children forest id).filter (fun child =>
      (children forest child).isEmpty) = leaves
    have hleaf (leaf : String) : leaf ∈ leaves ↔
        parentOf forest.parents leaf = some id ∧ (children forest leaf).isEmpty := by
      rw [← hleaves, List.mem_filter, mem_children]
    have hleavesNodup : leaves.Nodup := by
      rw [← hleaves]
      exact (nodup_children forest id).filter _
    obtain ⟨blocks, hblocks, htrees⟩ : ∃ blocks, leaves.mapM (build forest steps) = some blocks ∧
        List.Forall₂ (IsTree forest) leaves blocks :=
      exists_mapM_of_forall_mem fun leaf h => hchild leaf ((hleaf leaf).mp h).1
    generalize hids : (children forest id).filter (fun child =>
      !(children forest child).isEmpty || leaves.head? = some child) = childIds
    have hchildren (child : String) : child ∈ childIds ↔
        parentOf forest.parents child = some id ∧
          ((children forest child).isEmpty → leaves.head? = some child) := by
      rw [← hids, List.mem_filter, mem_children, Bool.or_eq_true, Bool.not_eq_true',
        decide_eq_true_eq, ← Bool.not_eq_true, imp_iff_not_or]
    have hnodup : childIds.Nodup := by
      rw [← hids]
      exact (nodup_children forest id).filter _
    obtain ⟨layouts, hlayouts, hstands⟩ : ∃ layouts, (childIds.mapM fun child =>
        if (children forest child).isEmpty then
          (leaves.mapM (build forest steps)).map (leafBlock forest leaves)
        else build forest steps child) = some layouts ∧
        List.Forall₂ (Stands forest leaves) childIds layouts := by
      apply exists_mapM_of_forall_mem
      intro child hmem
      obtain ⟨hparent, hhead⟩ := (hchildren child).mp hmem
      by_cases hempty : (children forest child).isEmpty
      · rw [if_pos hempty, hblocks]
        obtain ⟨hblock, hroots⟩ := leafBlock_spec hforest hleavesNodup htrees
          (fun leaf h => ((hleaf leaf).mp h).1)
          (fun leaf h => isEmpty_children.mp ((hleaf leaf).mp h).2)
        refine ⟨_, rfl, hblock, fun r => ?_, hhead⟩
        rw [hroots, if_pos hempty]
      · rw [if_neg hempty]
        obtain ⟨block, hbuild, htree⟩ := hchild child hparent
        refine ⟨block, hbuild, htree.1, fun r => ?_, hhead⟩
        rw [htree.2, if_neg hempty]
    obtain ⟨hpacks, hroots⟩ := packs_below hforest hnodup hleaf hchildren hstands
    refine ⟨crown forest id (pack forest layouts 3 false), ?_, ?_, ?_⟩
    · rw [hlayouts]
      rfl
    · exact isBlock_crown hforest hpacks.isBlock hroots
        (branchesBeside_below hforest hnodup hleaf hchildren hstands)
    · exact isRoot_crown_iff hforest hpacks.isBlock hroots

end Strict

end Procinsh.Space.ProcessLayout
