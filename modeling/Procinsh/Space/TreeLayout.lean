import Mathlib.Data.Rat.Defs
import Mathlib.Tactic.NormNum
import Procinsh.Space.Identities
import Procinsh.Space.TreeBuilding

/-!
# The tree layout

`treeLayout` places every process once, as a forest that follows the given parents: a missing parent
and a process itself are none, and the lowest process of each cycle becomes a root.  No two
processes overlap, children are below their parents, and subtrees are side by side; the order of the
processes does not matter.
-/

namespace Procinsh.Space.ProcessLayout

/-! ## What is placed -/

/-- The parent of a process is another one that is there. -/
def Link (processes : List ProcessLayoutNode) (a b : String) : Prop :=
  a ≠ b ∧ (∃ p ∈ processes, key p.identity = a ∧ p.parentId.map key = some b) ∧
    ∃ q ∈ processes, key q.identity = b

/-- The process is on a cycle of links, and the lowest on it by PID, then start time. -/
def IsLowest (processes : List ProcessLayoutNode) (a : String) : Prop :=
  Relation.TransGen (Link processes) a a ∧
    ∀ p ∈ processes, ∀ q ∈ processes, key p.identity = a →
      Relation.ReflTransGen (Link processes) a (key q.identity) → byIdentity p q

/-- The parent that a process has in a layout. -/
def placedParent {K : Type} (layout : OrderedMap String (TreePosition K)) (id : String) :
    Option String :=
  (layout.get? id).bind TreePosition.parent

/-- A correct layout of processes as a forest, without overlaps. -/
structure IsForestLayout {K : Type} [Field K] [LinearOrder K] (processes : List ProcessLayoutNode)
    (xGap yGap : K) (layout : OrderedMap String (TreePosition K)) : Prop where
  /-- Every process is placed, once. -/
  keys : (layout.entries.map Prod.fst).Perm (processes.map fun p => key p.identity)
  /-- A link is kept, unless it is that of the lowest process on a cycle. -/
  parent : ∀ a b, placedParent layout a = some b ↔ Link processes a b ∧ ¬ IsLowest processes a
  /-- Every cycle has one lowest process. -/
  cycle : ∀ a, Relation.TransGen (Link processes) a a →
    ∃! r, Relation.ReflTransGen (Link processes) a r ∧ IsLowest processes r
  /-- Depth is the distance to the root. -/
  root : ∀ e ∈ layout.entries, e.2.parent = none → e.2.depth = 0
  child : ∀ e ∈ layout.entries, ∀ b, e.2.parent = some b →
    ∃ above, layout.get? b = some above ∧ e.2.depth = above.depth + 1 ∧ above.y + yGap ≤ e.2.y
  apart : ∀ e ∈ layout.entries, ∀ f ∈ layout.entries, e.1 ≠ f.1 →
    ApartBy xGap yGap e.2.point f.2.point
  /-- The subtrees of those children of a process that have descendants are side by side. -/
  beside : ∀ a, BranchesBeside (placedParent layout) layout.entries a

/-! ## Sorting the processes -/

theorem byIdentity_iff {a b : ProcessLayoutNode} : byIdentity a b ↔
    a.identity.pid < b.identity.pid ∨ a.identity.pid = b.identity.pid ∧
      a.identity.startTimeTicks ≤ b.identity.startTimeTicks := by
  simp [byIdentity]

theorem pairwise_byIdentity (processes : List ProcessLayoutNode) :
    (processes.mergeSort byIdentity).Pairwise fun a b => byIdentity a b := by
  apply List.pairwise_mergeSort
  · intro a b c hab hbc
    rw [byIdentity_iff] at *
    omega
  · intro a b
    rw [Bool.or_eq_true, byIdentity_iff, byIdentity_iff]
    omega

/-- The processes differ in PID or start time. -/
def DistinctIdentities (processes : List ProcessLayoutNode) : Prop :=
  (processes.map fun p => (p.identity.pid, p.identity.startTimeTicks)).Nodup

section Sorting

variable {processes : List ProcessLayoutNode} (hdistinct : DistinctIdentities processes)
include hdistinct

theorem eq_of_byIdentity {p q : ProcessLayoutNode} (hp : p ∈ processes) (hq : q ∈ processes)
    (hpq : byIdentity p q) (hqp : byIdentity q p) : p = q := by
  rw [byIdentity_iff] at hpq hqp
  apply List.inj_on_of_nodup_map hdistinct hp hq
  apply Prod.ext
  · dsimp only
    omega
  · dsimp only
    omega

/-- The processes are sorted in one way. -/
theorem mergeSort_eq_of_perm {processes' : List ProcessLayoutNode}
    (hperm : processes'.Perm processes) :
    processes'.mergeSort byIdentity = processes.mergeSort byIdentity := by
  refine List.Perm.eq_of_pairwise (fun a b ha hb hab hba => ?_) (pairwise_byIdentity _)
    (pairwise_byIdentity _) ?_
  · exact eq_of_byIdentity hdistinct (hperm.mem_iff.mp (List.mem_mergeSort.mp ha))
      (List.mem_mergeSort.mp hb) hab hba
  · exact (List.mergeSort_perm _ _).trans (hperm.trans (List.mergeSort_perm _ _).symm)

/-- The keys of the processes differ. -/
theorem nodup_keys : (processes.map fun p => key p.identity).Nodup := by
  apply List.pairwise_map.mpr
  refine (List.pairwise_map.mp hdistinct).imp fun {p q} hpq hkey => hpq ?_
  rw [key_inj.mp hkey]

end Sorting

/-! ## The given parents -/

section Given

variable {processes ordered : List ProcessLayoutNode}
  (hperm : ordered.Perm processes) (hkeys : (ordered.map fun p => key p.identity).Nodup)
include hperm hkeys

/-- A process is known by its key. -/
theorem get?_known {a : String} {node : ProcessLayoutNode} :
    (OrderedMap.ofList (ordered.map fun node => (key node.identity, node))).get? a = some node ↔
      node ∈ processes ∧ key node.identity = a := by
  have hentries : (OrderedMap.ofList (ordered.map fun node => (key node.identity, node))).entries =
      ordered.map fun node => (key node.identity, node) := by
    apply OrderedMap.entries_ofList
    rwa [List.map_map]
  rw [OrderedMap.get?_eq_some_iff, hentries, List.mem_map, ← hperm.mem_iff]
  constructor
  · rintro ⟨p, hp, heq⟩
    obtain ⟨rfl, rfl⟩ := Prod.mk.inj heq
    exact ⟨hp, rfl⟩
  · rintro ⟨hnode, rfl⟩
    exact ⟨node, hnode, rfl⟩

omit hperm in
theorem entries_given (known : OrderedMap String ProcessLayoutNode) :
    (OrderedMap.ofList (ordered.map fun node =>
      (key node.identity, knownParent known node))).entries =
        ordered.map fun node => (key node.identity, knownParent known node) := by
  apply OrderedMap.entries_ofList
  rwa [List.map_map]

/-- The given parent of a process is where its link leads. -/
theorem parentOf_given {a b : String} :
    parentOf (OrderedMap.ofList (ordered.map fun node => (key node.identity,
      knownParent (OrderedMap.ofList (ordered.map fun node => (key node.identity, node))) node)))
        a = some b ↔ Link processes a b := by
  rw [parentOf, Option.join_eq_some_iff, OrderedMap.get?_eq_some_iff, entries_given hkeys,
    List.mem_map]
  constructor
  · rintro ⟨p, hp, heq⟩
    obtain ⟨rfl, hparent⟩ := Prod.mk.inj heq
    obtain ⟨hmap, hfilter⟩ := Option.filter_eq_some_iff.mp hparent
    rw [Bool.and_eq_true, decide_eq_true_eq, Option.isSome_iff_exists] at hfilter
    obtain ⟨hne, q, hq⟩ := hfilter
    exact ⟨hne.symm, ⟨p, hperm.mem_iff.mp hp, rfl, hmap⟩, q, (get?_known hperm hkeys).mp hq⟩
  · rintro ⟨hne, ⟨p, hp, rfl, hmap⟩, q, hq⟩
    refine ⟨p, hperm.mem_iff.mpr hp, Prod.ext rfl (Option.filter_eq_some_iff.mpr ⟨hmap, ?_⟩)⟩
    rw [Bool.and_eq_true, decide_eq_true_eq, Option.isSome_iff_exists]
    exact ⟨hne.symm, q, (get?_known hperm hkeys).mpr hq⟩

end Given

/-! ## Ranks -/

section Ranks

variable {processes ordered : List ProcessLayoutNode} (hdistinct : DistinctIdentities processes)
  (hperm : ordered.Perm processes) (hsorted : ordered.Pairwise fun a b => byIdentity a b)
include hdistinct hperm hsorted

/-- The rank of a process is its place by PID, then start time. -/
theorem rank_le_rank_iff {p q : ProcessLayoutNode} (hp : p ∈ processes) (hq : q ∈ processes) :
    rank (ordered.map fun node => key node.identity) (key p.identity) ≤
      rank (ordered.map fun node => key node.identity) (key q.identity) ↔ byIdentity p q := by
  have hkeys : (ordered.map fun node => key node.identity).Nodup :=
    (hperm.map fun node => key node.identity).nodup_iff.mpr (nodup_keys hdistinct)
  have hrank (i : ℕ) (hi : i < ordered.length) :
      rank (ordered.map fun node => key node.identity) (key ordered[i].identity) = i := by
    have hidx := hkeys.idxOf_getElem i (by rwa [List.length_map])
    rwa [List.getElem_map] at hidx
  obtain ⟨i, hi, rfl⟩ := List.getElem_of_mem (hperm.mem_iff.mpr hp)
  obtain ⟨j, hj, rfl⟩ := List.getElem_of_mem (hperm.mem_iff.mpr hq)
  rw [hrank i hi, hrank j hj]
  constructor
  · intro hij
    rcases hij.lt_or_eq with hij | rfl
    · exact List.pairwise_iff_getElem.mp hsorted i j hi hj hij
    · rw [byIdentity_iff]
      exact .inr ⟨rfl, le_refl _⟩
  · intro hby
    by_contra hij
    have hback := List.pairwise_iff_getElem.mp hsorted j i hj hi (not_le.mp hij)
    have heq := eq_of_byIdentity hdistinct hp hq hby hback
    have hranks := hrank i hi
    rw [heq, hrank j hj] at hranks
    omega

omit hdistinct hperm hsorted in
/-- Where links lead, there is a process. -/
theorem exists_of_reaches {a b : String} (h : Relation.ReflTransGen (Link processes) a b)
    (ha : ∃ p ∈ processes, key p.identity = a) : ∃ q ∈ processes, key q.identity = b := by
  rcases Relation.ReflTransGen.cases_tail h with rfl | ⟨c, -, hcb⟩
  · exact ha
  · exact hcb.2.2

/-- A process is the lowest on a cycle by its rank if it is so by PID and start time. -/
theorem lowestOnCycle_iff {parent : String → Option String}
    (hlinks : ∀ a b, parent a = some b ↔ Link processes a b) {a : String} :
    LowestOnCycle (rank (ordered.map fun node => key node.identity)) parent a ↔
      IsLowest processes a := by
  have hclimbs : Climbs parent = Link processes := by
    funext a b
    exact propext (hlinks a b)
  rw [LowestOnCycle, IsLowest, OnCycle, Reaches, hclimbs]
  refine and_congr_right fun hcycle => ?_
  obtain ⟨c, hac, -⟩ := Relation.TransGen.head'_iff.mp hcycle
  obtain ⟨p, hp, hpa, -⟩ := hac.2.1
  constructor
  · intro h p' hp' q hq hkey hreach
    rw [← rank_le_rank_iff hdistinct hperm hsorted hp' hq, hkey]
    exact h _ hreach
  · intro h b hreach
    obtain ⟨q, hq, rfl⟩ := exists_of_reaches hreach ⟨p, hp, hpa⟩
    rw [← hpa, rank_le_rank_iff hdistinct hperm hsorted hp hq]
    exact h p hp q hq hpa hreach

end Ranks

/-! ## The forest -/

section Layout

variable {K : Type} [Field K] [LinearOrder K] {target : List (PackedTree K) → K → K} {steps : ℕ}
  {processes ordered : List ProcessLayoutNode} {xGap yGap : K}
  {relations : List Scene.FdRelation}

/-- The forest of some processes. -/
structure IsForestOf (processes ordered : List ProcessLayoutNode) (xGap yGap : K)
    (forest : Forest K) : Prop where
  isForest : IsForest forest
  keys : forest.keys = ordered.map fun node => key node.identity
  parent : ∀ a b, parentOf forest.parents a = some b ↔
    Link processes a b ∧ ¬ IsLowest processes a
  cycle : ∀ a, Relation.TransGen (Link processes) a a →
    ∃! r, Relation.ReflTransGen (Link processes) a r ∧ IsLowest processes r
  ends : ∀ a, Ends (parentOf forest.parents) a
  xGap_eq : forest.xGap = xGap
  yGap_eq : forest.yGap = yGap

/-- With enough steps the cycles are broken and there is a forest. -/
theorem exists_forestOf (target : List (PackedTree K) → K → K)
    (hdistinct : DistinctIdentities processes) (hperm : ordered.Perm processes)
    (hsorted : ordered.Pairwise fun a b => byIdentity a b) (hx : 0 < xGap) (hy : 0 < yGap)
    (hsteps : processes.length < steps) (relations : List Scene.FdRelation) :
    ∃ forest, forestOf target steps ordered xGap yGap relations = some forest ∧
      IsForestOf processes ordered xGap yGap forest := by
  have hkeys : (ordered.map fun node => key node.identity).Nodup :=
    (hperm.map fun node => key node.identity).nodup_iff.mpr (nodup_keys hdistinct)
  have hlinks (a b : String) := parentOf_given (a := a) (b := b) hperm hkeys
  have hgiven := entries_given hkeys
    (OrderedMap.ofList (ordered.map fun node => (key node.identity, node)))
  rw [forestOf]
  generalize OrderedMap.ofList (ordered.map fun node => (key node.identity, node)) = known
    at hlinks hgiven ⊢
  generalize OrderedMap.ofList (ordered.map fun node =>
    (key node.identity, knownParent known node)) = given at hlinks hgiven ⊢
  have hknown : given.entries.map Prod.fst = ordered.map fun node => key node.identity := by
    rw [hgiven, List.map_map]
    rfl
  have hsize : given.size < steps := by
    rw [OrderedMap.size, hgiven, List.length_map, hperm.length_eq]
    exact hsteps
  obtain ⟨parents, hrun, hparents, hends, hcut⟩ := foldlM_breakCycle hknown hsize
  refine ⟨_, by rw [hrun]; rfl, ?_⟩
  constructor
  · refine ⟨hparents, fun a => ?_, hx, hy⟩
    exact (hends a).not_onCycle_of_reaches (Reaches.refl _ a)
  · rfl
  · intro a b
    rw [hcut, hlinks, lowestOnCycle_iff hdistinct hperm hsorted hlinks]
  · intro a ha
    have hclimbs : Climbs (parentOf given) = Link processes := by
      funext a b
      exact propext (hlinks a b)
    have hlowest := OnCycle.existsUnique_lowest (a := a)
      (fun _ _ ha _ => eq_of_rank_eq hknown ha) (by rwa [OnCycle, hclimbs])
    rw [Reaches, hclimbs] at hlowest
    refine (existsUnique_congr fun r => ?_).mp hlowest
    rw [lowestOnCycle_iff hdistinct hperm hsorted hlinks]
  · exact hends
  · rfl
  · rfl

omit [Field K] [LinearOrder K] in
/-- More steps make no difference. -/
theorem forestOf_mono {steps' : ℕ} (hle : steps ≤ steps') {forest : Forest K}
    (h : forestOf target steps ordered xGap yGap relations = some forest) :
    forestOf target steps' ordered xGap yGap relations = some forest := by
  rw [forestOf] at h ⊢
  obtain ⟨parents, hparents, h⟩ := Option.bind_eq_some_iff.mp h
  rw [foldlM_eq_some_of_imp (fun parents id parents' => breakCycle_mono hle) hparents]
  exact h

theorem treeLayout_mono {steps' : ℕ} (hle : steps ≤ steps')
    {layout : OrderedMap String (TreePosition K)}
    (h : treeLayout target steps processes xGap yGap relations = some layout) :
    treeLayout target steps' processes xGap yGap relations = some layout := by
  rw [treeLayout] at h ⊢
  obtain ⟨forest, hforest, h⟩ := Option.bind_eq_some_iff.mp h
  obtain ⟨trees, htrees, h⟩ := Option.bind_eq_some_iff.mp h
  rw [forestOf_mono hle hforest, Option.bind_eq_bind, Option.bind_some,
    mapM_eq_some_of_imp (fun _ _ => build_mono hle) htrees]
  exact h

variable [IsStrictOrderedRing K]

/-- With enough steps the trees of all roots are built, and packed they make a block of all
processes. -/
theorem exists_trees {forest : Forest K} (h : IsForestOf processes ordered xGap yGap forest)
    (hperm : ordered.Perm processes) (hsteps : processes.length < steps)
    (known : OrderedMap String ProcessLayoutNode) :
    ∃ trees, (roots known forest).mapM (build forest steps) = some trees ∧
      IsBlock forest (pack forest trees 9 true) ∧
      (pack forest trees 9 true).keys.Perm forest.keys ∧
      ∀ r, (pack forest trees 9 true).IsRoot r → parentOf forest.parents r = none := by
  generalize hroots : roots known forest = roots
  have hkeys : forest.keys.Nodup := by
    rw [← h.isForest.known]
    exact forest.parents.nodup
  have hmem (r : String) : r ∈ roots ↔ r ∈ forest.keys ∧ parentOf forest.parents r = none := by
    rw [← hroots, ProcessLayout.roots, List.mem_mergeSort, List.mem_filter, Option.isNone_iff_eq_none]
    exact Iff.rfl
  have hnodup : roots.Nodup := by
    rw [← hroots, ProcessLayout.roots, (List.mergeSort_perm _ _).nodup_iff]
    exact hkeys.filter _
  have hlength : forest.keys.length = processes.length := by
    rw [h.keys, List.length_map, hperm.length_eq]
  obtain ⟨trees, htrees, hall⟩ : ∃ trees, roots.mapM (build forest steps) = some trees ∧
      List.Forall₂ (IsTree forest) roots trees := by
    apply exists_mapM_of_forall_mem
    intro r hr
    obtain ⟨hknown, hroot⟩ := (hmem r).mp hr
    have hline : IsLineage (parentOf forest.parents) ([] ++ [r]) := IsLineage.singleton hroot
    apply exists_build h.isForest hline
    · exact List.cons_subset.mpr ⟨hknown, List.nil_subset _⟩
    · rw [List.nil_append, List.length_singleton, hlength]
      omega
  have hgap : (0 : K) ≤ 9 := by positivity
  obtain ⟨hpacks, hrootIff⟩ := packs_trees h.isForest hnodup hall
    (fun id hid => ((hmem id).mp hid).2) hgap true
  refine ⟨trees, htrees, hpacks.isBlock, ?_, fun r hr => ((hmem r).mp ((hrootIff r).mp hr)).2⟩
  apply (List.perm_ext_iff_of_nodup (PackedTree.positions _).nodup hkeys).mpr
  intro id
  have hparentKnown {a b : String} (hab : parentOf forest.parents a = some b) :
      b ∈ forest.keys := by
    obtain ⟨q, hq, rfl⟩ := ((h.parent a b).mp hab).1.2.2
    rw [h.keys]
    exact List.mem_map.mpr ⟨q, hperm.mem_iff.mpr hq, rfl⟩
  change id ∈ (pack forest trees 9 true).keys ↔ _
  rw [hpacks.isBlock.mem_keys]
  constructor
  · rintro ⟨r, hr, hreach⟩
    rcases hreach.eq_or_head with rfl | ⟨p, hp, -⟩
    · exact ((hmem id).mp ((hrootIff id).mp hr)).1
    · rw [← h.isForest.known]
      exact mem_keys_of_parentOf hp
  · intro hid
    obtain ⟨r, hreach, hr⟩ := h.ends id
    refine ⟨r, (hrootIff r).mpr ((hmem r).mpr ⟨?_, hr⟩), hreach⟩
    rcases hreach.eq_or_tail with rfl | ⟨q, -, hq⟩
    · exact hid
    · exact hparentKnown hq

/-! ## Centring -/

omit [IsStrictOrderedRing K] in
/-- The entries of a centred layout: all are moved alike. -/
theorem entries_centered (positions : OrderedMap String (TreePosition K)) :
    ∃ dx, (centered positions).entries =
      positions.entries.map fun e => (e.1, { e.2 with x := e.2.x + dx }) := by
  refine ⟨-middle (positions.values.map TreePosition.x), ?_⟩
  rw [centered, OrderedMap.entries_ofList]
  · simp only [sub_eq_add_neg]
  · rw [List.map_map]
    exact positions.nodup

/-- The packed trees of a forest, centred, are its layout. -/
theorem isForestLayout_centered {forest : Forest K} {block : PackedTree K}
    (h : IsForestOf processes ordered xGap yGap forest) (hperm : ordered.Perm processes)
    (hblock : IsBlock forest block) (hkeys : block.keys.Perm forest.keys)
    (hroots : ∀ r, block.IsRoot r → parentOf forest.parents r = none) :
    IsForestLayout processes xGap yGap (centered block.positions) := by
  obtain ⟨dx, hentries⟩ := entries_centered block.positions
  have hmem {e : String × TreePosition K} : e ∈ (centered block.positions).entries ↔
      ∃ x ∈ block.positions.entries, e = (x.1, { x.2 with x := x.2.x + dx }) := by
    rw [hentries, List.mem_map]
    simp only [eq_comm]
  have hmapped : (centered block.positions).entries.map Prod.fst = block.keys := by
    rw [hentries, List.map_map]
    rfl
  have hparent : placedParent (centered block.positions) = parentOf forest.parents := by
    funext a
    rw [placedParent]
    cases hget : (centered block.positions).get? a with
    | none =>
      rw [OrderedMap.get?_eq_none_iff, hmapped, hkeys.mem_iff, ← h.isForest.known] at hget
      refine (Option.eq_none_iff_forall_ne_some.mpr fun p hp => hget ?_).symm
      exact mem_keys_of_parentOf hp
    | some place =>
      obtain ⟨x, hx, heq⟩ := hmem.mp (OrderedMap.get?_eq_some_iff.mp hget)
      obtain ⟨rfl, rfl⟩ := Prod.mk.inj heq
      exact hblock.parent x hx
  -- A process is a root of the block exactly if it has no parent.
  have hdepth {x : String × TreePosition K} (hx : x ∈ block.positions.entries) :
      x.2.depth = 0 ↔ parentOf forest.parents x.1 = none := by
    constructor
    · intro hzero
      exact hroots x.1 ⟨x, hx, rfl, hzero⟩
    · intro hnone
      by_contra hne
      obtain ⟨above, -, hsome, -⟩ := hblock.linked x hx hne
      rw [hnone] at hsome
      cases hsome
  constructor
  · rw [hmapped]
    refine hkeys.trans ?_
    rw [h.keys]
    exact hperm.map _
  · intro a b
    rw [hparent]
    exact h.parent a b
  · exact h.cycle
  · intro e he hnone
    obtain ⟨x, hx, rfl⟩ := hmem.mp he
    exact (hdepth hx).mpr ((hblock.parent x hx).symm.trans hnone)
  · intro e he b hb
    obtain ⟨x, hx, rfl⟩ := hmem.mp he
    have hsome : parentOf forest.parents x.1 = some b := (hblock.parent x hx).symm.trans hb
    have hne : x.2.depth ≠ 0 := by
      rw [Ne, hdepth hx, hsome]
      exact Option.some_ne_none b
    obtain ⟨above, habove, hparentAbove, hlevel, hbelow⟩ := hblock.linked x hx hne
    obtain rfl := Option.some_inj.mp (hparentAbove.symm.trans hsome)
    refine ⟨_, OrderedMap.get?_eq_some_iff.mpr (hmem.mpr ⟨above, habove, rfl⟩), hlevel, ?_⟩
    rw [← h.yGap_eq]
    exact hbelow
  · intro e he f hf hne
    obtain ⟨x, hx, rfl⟩ := hmem.mp he
    obtain ⟨y, hy, rfl⟩ := hmem.mp hf
    have hapart : ApartBy xGap yGap x.2.point y.2.point := by
      rw [← h.xGap_eq, ← h.yGap_eq]
      rcases rel_or_rel_of_pairwise hblock.apart hx hy (fun hxy => hne (hxy ▸ rfl)) with hxy | hyx
      · exact hxy
      · exact hyx.symm
    have hmoved := (apartBy_add_right (dx, 0)).mpr hapart
    simpa [TreePosition.point] using hmoved
  · intro a c d hcd hc hd hbelow hbelow'
    rw [hparent] at hc hd hbelow hbelow' ⊢
    have ha : a ∈ block.keys := by
      obtain ⟨q, hq, rfl⟩ := ((h.parent c a).mp hc).1.2.2
      rw [hkeys.mem_iff, h.keys]
      exact List.mem_map.mpr ⟨q, hperm.mem_iff.mpr hq, rfl⟩
    refine (hblock.beside a ha c d hcd hc hd hbelow hbelow').of_entries dx fun e he _ => ?_
    obtain ⟨x, hx, rfl⟩ := hmem.mp he
    exact ⟨x, hx, rfl, rfl⟩

/-- With more steps than there are processes, and at whatever width rows wrap, `treeLayout` returns
one layout of the processes as a forest, in whatever order they are given. -/
theorem treeLayout_isForestLayout (target : List (PackedTree K) → K → K)
    (hdistinct : DistinctIdentities processes) (relations : List Scene.FdRelation)
    (hx : 0 < xGap) (hy : 0 < yGap) :
    ∃ layout, IsForestLayout processes xGap yGap layout ∧
      ∀ steps, processes.length < steps → ∀ processes', processes'.Perm processes →
        treeLayout target steps processes' xGap yGap relations = some layout := by
  have hperm : (processes.mergeSort byIdentity).Perm processes := List.mergeSort_perm _ _
  obtain ⟨forest, hforest, hof⟩ := exists_forestOf target hdistinct hperm
    (pairwise_byIdentity processes) hx hy (Nat.lt_succ_self _) relations
  obtain ⟨trees, htrees, hblock, hkeys, hroots⟩ := exists_trees hof hperm (Nat.lt_succ_self _)
    (OrderedMap.ofList ((processes.mergeSort byIdentity).map fun node => (key node.identity, node)))
  refine ⟨_, isForestLayout_centered hof hperm hblock hkeys hroots, ?_⟩
  intro steps hsteps processes' hperm'
  have hlayout : treeLayout target (processes.length + 1) processes' xGap yGap relations =
      some (centered (pack forest trees 9 true).positions) := by
    rw [treeLayout, mergeSort_eq_of_perm hdistinct hperm', hforest, Option.bind_eq_bind,
      Option.bind_some, htrees]
    rfl
  exact treeLayout_mono hsteps hlayout

end Layout

/-- Two processes that are each other's parents, one below them, and two that are left as roots. -/
def tangledProcesses : List ProcessLayoutNode :=
  [⟨⟨7, 5, none⟩, some ⟨4, 5, none⟩, none⟩, ⟨⟨4, 5, none⟩, some ⟨7, 5, none⟩, none⟩,
    ⟨⟨9, 2, none⟩, some ⟨7, 5, none⟩, none⟩, ⟨⟨2, 1, none⟩, some ⟨2, 1, none⟩, some "kthreadd"⟩,
    ⟨⟨4, 8, none⟩, some ⟨1, 1, none⟩, none⟩]

theorem treeLayout_isForestLayout_tangled : ∃ layout,
    IsForestLayout tangledProcesses (24 / 5 : ℚ) (13 / 2) layout ∧
      ∀ steps, tangledProcesses.length < steps → ∀ processes', processes'.Perm tangledProcesses →
        treeLayout (fun _ _ => 40) steps processes' (24 / 5) (13 / 2) [] = some layout :=
  treeLayout_isForestLayout (fun _ _ => 40)
    (by unfold DistinctIdentities; decide) [] (by norm_num) (by norm_num)

end Procinsh.Space.ProcessLayout
