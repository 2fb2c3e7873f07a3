import Procinsh.Hardware.Switches

/-!
# The class of a path below a host bridge

The chains of two endpoints are found again from the path between them: both begin with the chain of
the lowest common ancestor.  So the ports that are counted for a path are exactly those on it, and the
path is classified by the switches that it crosses, except where its lowest common ancestor is the
upstream port of a switch below another one.
-/

namespace Procinsh.Hardware

open Ipc

section Chains

variable {nodes : List PciNode} {a b top : PciNode} {before climbed descended : List PciNode}

/-- Chains that part behind a common part have that part in common. -/
theorem commonCount_append (common : List PciNode) {left right : List PciNode}
    (hpart : ∀ x ∈ left.head?, ∀ y ∈ right.head?, x.address ≠ y.address) :
    commonCount (common ++ left) (common ++ right) = common.length := by
  induction common with
  | nil =>
    rw [List.nil_append, List.nil_append, commonCount]
    cases left with
    | nil => rfl
    | cons x left =>
      cases right with
      | nil => rfl
      | cons y right =>
        rw [List.zip_cons_cons, List.takeWhile_cons_of_neg]
        · rfl
        · exact fun heq => hpart x rfl y rfl (of_decide_eq_true heq)
  | cons z common ih =>
    rw [List.cons_append, List.cons_append, commonCount, List.zip_cons_cons, List.takeWhile_cons,
      if_pos (decide_eq_true rfl), List.length_cons, List.length_cons]
    exact congrArg (· + 1) ih

/-- Nodes below a node continue its chain. -/
theorem chain_append (h : Topology nodes) {c : List PciNode}
    (hlineage : IsLineage (parentOf nodes) (before ++ [top]))
    (hmem : ∀ n ∈ top :: c, n ∈ nodes) (hchain : (top :: c).IsChain IsParent)
    (hlast : (top :: c).getLast? = some a) : chain nodes a = some (before ++ top :: c) := by
  have hanodes := hmem a (List.mem_of_getLast? hlast)
  obtain ⟨first, rest, hsplit⟩ := List.append_of_mem hanodes
  obtain ⟨c', hc', hlineage', hlast', -⟩ := h.chain hsplit
  rw [hc']
  refine congrArg some (hlineage'.unique ⟨?_, ?_⟩ ?_)
  · intro r hr
    refine hlineage.root r ?_
    cases before with
    | nil => exact hr
    | cons _ _ => exact hr
  · refine List.isChain_split.mpr ⟨hlineage.descends, hchain.imp_of_mem_imp fun p n hp hn hparent => ?_⟩
    exact (h.parentOf_eq_some_iff (hmem n hn)).mpr ⟨hmem p hp, hparent⟩
  · rw [hlast', List.getLast?_append, hlast]
    rfl

/-- An endpoint ends a chain of parents. -/
theorem eq_nil_of_isChain (hleaves : EndpointsAreLeaves nodes) {c : List PciNode}
    (hmem : ∀ n ∈ top :: c, n ∈ nodes) (hchain : (top :: c).IsChain IsParent)
    (hrole : top.role = .endpoint) : c = [] := by
  cases c with
  | nil => rfl
  | cons n c =>
    have hn := hmem n (List.mem_cons_of_mem _ List.mem_cons_self)
    have hparent := (List.isChain_cons_cons.mp hchain).1
    exact absurd hrole (hleaves n hn top (hmem top List.mem_cons_self) hparent)

/-- The two sides of a path below its lowest common ancestor. -/
structure Sides (nodes : List PciNode) (a b top : PciNode) (climbed descended : List PciNode) :
    Prop where
  left : (top :: climbed).IsChain IsParent
  right : (top :: descended).IsChain IsParent
  left_last : (top :: climbed).getLast? = some a
  right_last : (top :: descended).getLast? = some b
  left_mem : ∀ n ∈ top :: climbed, n ∈ nodes
  right_mem : ∀ n ∈ top :: descended, n ∈ nodes
  part : ∀ n ∈ climbed, n ∉ descended

theorem TreePath.sides (htree : TreePath nodes a b climbed [top] descended) :
    Sides nodes a b top climbed descended := by
  have hmem := htree.mem
  have hnodup := htree.nodup
  have hbegins := htree.begins
  rw [← List.reverse_cons] at hmem hnodup hbegins
  cases htree.apex with
  | ancestor _ _ hleft hright =>
    refine ⟨hleft, hright, ?_, htree.ends, ?_, ?_, ?_⟩
    · rwa [List.head?_reverse] at hbegins
    · exact fun n hn => hmem n (List.mem_append_left _ (List.mem_reverse.mpr hn))
    · intro n hn
      rcases List.mem_cons.mp hn with rfl | hn
      · exact hmem n (List.mem_append_left _ (List.mem_reverse.mpr List.mem_cons_self))
      · exact hmem n (List.mem_append_right _ hn)
    · exact fun n hn hn' => List.disjoint_of_nodup_append hnodup
        (List.mem_reverse.mpr (List.mem_cons_of_mem _ hn)) hn'

/-- Different endpoints are both below the lowest common ancestor. -/
theorem Sides.ne_nil (hleaves : EndpointsAreLeaves nodes)
    (hsides : Sides nodes a b top climbed descended) (ha : a.role = .endpoint)
    (hb : b.role = .endpoint) (hne : a ≠ b) : climbed ≠ [] ∧ descended ≠ [] := by
  constructor
  · rintro rfl
    obtain rfl := Option.some.inj hsides.left_last
    obtain rfl := eq_nil_of_isChain hleaves hsides.right_mem hsides.right ha
    exact hne (Option.some.inj hsides.right_last)
  · rintro rfl
    obtain rfl := Option.some.inj hsides.right_last
    obtain rfl := eq_nil_of_isChain hleaves hsides.left_mem hsides.left hb
    exact hne (Option.some.inj hsides.left_last).symm

/-- The nodes below the lowest common ancestor have their parents on the path. -/
theorem Sides.isBelow (h : Topology nodes) (hsides : Sides nodes a b top climbed descended) :
    IsBelow nodes top (climbed ++ descended) := by
  have hparent {c : List PciNode} (hmem : ∀ n ∈ top :: c, n ∈ nodes)
      (hchain : (top :: c).IsChain IsParent) (n : PciNode) (hn : n ∈ c) :
      ∃ p ∈ top :: c, parentOf nodes n = some p := by
    obtain ⟨s, t, rfl⟩ := List.append_of_mem hn
    rw [← List.cons_append] at hchain hmem
    obtain ⟨-, -, hlink⟩ := List.isChain_append.mp hchain
    cases hlast : (top :: s).getLast? with
    | none => cases List.getLast?_eq_none_iff.mp hlast
    | some p =>
      have hp := List.mem_append_left (n :: t) (List.mem_of_getLast? hlast)
      have hnode := hmem n (List.mem_append_right _ List.mem_cons_self)
      exact ⟨p, hp, (h.parentOf_eq_some_iff hnode).mpr ⟨hmem p hp, hlink p hlast n rfl⟩⟩
  refine ⟨hsides.left_mem top List.mem_cons_self, fun n hn => ?_, fun n hn => ?_⟩
  · rcases List.mem_append.mp hn with hn | hn
    · exact hsides.left_mem n (List.mem_cons_of_mem _ hn)
    · exact hsides.right_mem n (List.mem_cons_of_mem _ hn)
  · rcases List.mem_append.mp hn with hn | hn
    · obtain ⟨p, hp, hpn⟩ := hparent hsides.left_mem hsides.left n hn
      exact ⟨p, List.cons_subset_cons _ (List.subset_append_left _ _) hp, hpn⟩
    · obtain ⟨p, hp, hpn⟩ := hparent hsides.right_mem hsides.right n hn
      exact ⟨p, List.cons_subset_cons _ (List.subset_append_right _ _) hp, hpn⟩

/-- The ports that are counted are those of the path. -/
theorem Sides.countedOnce_crossed_iff (hsides : Sides nodes a b top climbed descended)
    (ha : a.role = .endpoint) (hb : b.role = .endpoint) (hdescended : descended ≠ []) :
    CountedOnce nodes (crossed top climbed descended) ↔
      CountedOnce nodes (top :: (climbed ++ descended)) := by
  have hport {l : List PciNode} {c n : PciNode} (hlast : l.getLast? = some c)
      (hc : c.role = .endpoint) (hn : n.role = .switchPort) : n ∈ l.dropLast ↔ n ∈ l := by
    have hne : n ≠ c := by
      rintro rfl
      rw [hc] at hn
      cases hn
    conv_rhs => rw [← List.dropLast_append_getLast? c hlast]
    rw [List.mem_append, List.mem_singleton, or_iff_left hne]
  have hright : descended.getLast? = some b := by
    rw [← List.getLast?_cons_of_ne_nil hdescended]
    exact hsides.right_last
  have hmem (n : PciNode) (hn : n.role = .switchPort) :
      n ∈ crossed top climbed descended ↔ n ∈ top :: (climbed ++ descended) := by
    rw [crossed, List.mem_append, hport hsides.left_last ha hn, hport hright hb hn,
      ← List.mem_append, List.cons_append]
  constructor
  · exact fun hone n hn hrole m hm hrole' =>
      hone n ((hmem n hrole).mpr hn) hrole m ((hmem m hrole').mpr hm) hrole'
  · exact fun hone n hn hrole m hm hrole' =>
      hone n ((hmem n hrole).mp hn) hrole m ((hmem m hrole').mp hm) hrole'

/-- The chains of the ends of a path go through its lowest common ancestor. -/
theorem Sides.exists_chains (h : Topology nodes)
    (hsides : Sides nodes a b top climbed descended) :
    ∃ before, chain nodes a = some (before ++ top :: climbed) ∧
      chain nodes b = some (before ++ top :: descended) ∧
      commonCount (before ++ top :: climbed) (before ++ top :: descended) = before.length + 1 := by
  obtain ⟨first, rest, hsplit⟩ := List.append_of_mem (hsides.left_mem top List.mem_cons_self)
  obtain ⟨c, -, hlineage, hlast, -⟩ := h.chain hsplit
  obtain ⟨before, rfl⟩ := List.getLast?_eq_some_iff.mp hlast
  refine ⟨before, chain_append h hlineage hsides.left_mem hsides.left hsides.left_last,
    chain_append h hlineage hsides.right_mem hsides.right hsides.right_last, ?_⟩
  have hcount := commonCount_append (before ++ [top]) fun x (hx : x ∈ climbed.head?) y
      (hy : y ∈ descended.head?) hxy => by
    have hxm := List.mem_of_mem_head? hx
    have hym := List.mem_of_mem_head? hy
    refine hsides.part x hxm ?_
    rwa [List.inj_on_of_nodup_map h.distinct (hsides.left_mem x (List.mem_cons_of_mem _ hxm))
      (hsides.right_mem y (List.mem_cons_of_mem _ hym)) hxy]
  rw [List.append_assoc, List.append_assoc, List.length_append] at hcount
  exact hcount

end Chains

/-! ## All paths -/

section All

variable {bandwidth : PcieLink → F64} {numaNodes : ℕ} {nodes : List PciNode} {a b top : PciNode}
  {climbed descended : List PciNode} {path : HardwarePath}

/-- The class of a path below a host bridge. -/
theorem Topology.pathClass_eq (h : Topology nodes) (hleaves : EndpointsAreLeaves nodes)
    (hpath : pathBetween bandwidth nodes numaNodes a b = some path) (ha : a.role = .endpoint)
    (hb : b.role = .endpoint) (hne : a ≠ b) (hsides : Sides nodes a b top climbed descended)
    (htop : top.role ≠ .hostBridge) :
    path.pathClass = if ((crossed top climbed descended).foldl (addSwitch nodes) []).length ≤ 1
      then .pix else .pxb := by
  obtain ⟨before, hca, hcb, hcommon⟩ := hsides.exists_chains h
  obtain ⟨-, hdescended⟩ := hsides.ne_nil hleaves ha hb hne
  rw [pathBetween_of_ancestor hca hcb hdescended hcommon, if_neg htop] at hpath
  obtain rfl := Option.some.inj hpath
  rfl

theorem atMostOneSwitch_path_iff :
    AtMostOneSwitch nodes (climbed.reverse ++ [top] ++ descended) ↔
      AtMostOneSwitch nodes (top :: (climbed ++ descended)) := by
  unfold AtMostOneSwitch
  simp only [List.mem_append, List.mem_reverse, List.mem_cons, List.not_mem_nil, or_false, or_assoc,
    or_left_comm]

/-- For the nodes that `read_topology` returns, if the endpoints have nothing below them, paths with a
lowest common ancestor below a host bridge are classified by the number of switches that they cross,
unless that ancestor is the upstream port of a switch below another one, and of the ports below it the
path crosses only downstream ports of that switch. -/
theorem buildHardwarePaths_pathClass_iff (bandwidth : PcieLink → F64) (numaNodes : ℕ) {steps : ℕ}
    {sources : HardwareSources} (hread : readTopology steps sources = some nodes)
    (hleaves : EndpointsAreLeaves nodes) :
    ∃ paths, buildHardwarePaths bandwidth nodes numaNodes = some paths ∧
      ∀ path ∈ paths, ∀ a ∈ nodes, ∀ b ∈ nodes, path.a = a.address → path.b = b.address →
        ∀ climbed top descended, TreePath nodes a b climbed [top] descended →
          top.role ≠ .hostBridge → (path.pathClass = .pix ∨ path.pathClass = .pxb) ∧
            ((path.pathClass = .pix ↔
              AtMostOneSwitch nodes (climbed.reverse ++ [top] ++ descended)) ↔
                ¬ IsNestedTop nodes top (climbed ++ descended)) := by
  have h := topology_of_readTopology hread
  obtain ⟨paths, hpaths, hall⟩ := h.exists_paths bandwidth numaNodes
  refine ⟨paths, hpaths, fun path hpath a ha b hb hpa hpb climbed top descended htree htop => ?_⟩
  obtain ⟨⟨a', b'⟩, hpair, hbetween, hends⟩ := exists_left_of_forall₂ hall hpath
  obtain ⟨ha', hb'⟩ := mem_of_mem_pairs hpair
  obtain ⟨ha', harole⟩ := List.mem_filter.mp ha'
  obtain ⟨hb', hbrole⟩ := List.mem_filter.mp hb'
  obtain rfl : a = a' := List.inj_on_of_nodup_map h.distinct ha ha' (hpa.symm.trans hends.a_eq)
  obtain rfl : b = b' := List.inj_on_of_nodup_map h.distinct hb hb' (hpb.symm.trans hends.b_eq)
  have harole : a.role = .endpoint := of_decide_eq_true harole
  have hbrole : b.role = .endpoint := of_decide_eq_true hbrole
  have hne : a ≠ b := by
    rintro rfl
    exact (List.nodup_cons.mp ((sublist_of_mem_endpoints hpair).nodup
      (List.Nodup.of_map _ h.distinct))).1 List.mem_cons_self
  have hsides := htree.sides
  obtain ⟨-, hdescended⟩ := hsides.ne_nil hleaves harole hbrole hne
  have hbelow := hsides.isBelow h
  have hcrossed : ∀ n ∈ crossed top climbed descended, n ∈ nodes := by
    intro n hn
    rcases List.mem_append.mp hn with hn | hn
    · exact hsides.left_mem n (List.mem_of_mem_dropLast hn)
    · exact hsides.right_mem n (List.mem_cons_of_mem _ (List.mem_of_mem_dropLast hn))
  rw [atMostOneSwitch_path_iff, ← h.countedOnce_iff_iff hleaves hbelow,
    ← hsides.countedOnce_crossed_iff harole hbrole hdescended,
    ← h.length_foldl_addSwitch_le_one_iff hcrossed,
    h.pathClass_eq hleaves hbetween harole hbrole hne hsides htop]
  split
  · next hle => exact ⟨.inl rfl, by simp only [hle]⟩
  · next hle => exact ⟨.inr rfl, by simp only [hle, reduceCtorEq]⟩

theorem endpointsAreLeaves_cascade : EndpointsAreLeaves cascadeNodes := by
  unfold EndpointsAreLeaves
  decide +kernel

theorem buildHardwarePaths_pathClass_iff_cascade :
    ∃ paths, buildHardwarePaths (fun _ => ⟨0⟩) cascadeNodes 1 = some paths ∧
      ∀ path ∈ paths, ∀ a ∈ cascadeNodes, ∀ b ∈ cascadeNodes, path.a = a.address →
        path.b = b.address → ∀ climbed top descended,
          TreePath cascadeNodes a b climbed [top] descended → top.role ≠ .hostBridge →
            (path.pathClass = .pix ∨ path.pathClass = .pxb) ∧
              ((path.pathClass = .pix ↔
                AtMostOneSwitch cascadeNodes (climbed.reverse ++ [top] ++ descended)) ↔
                  ¬ IsNestedTop cascadeNodes top (climbed ++ descended)) :=
  buildHardwarePaths_pathClass_iff (fun _ => ⟨0⟩) 1 readTopology_cascade endpointsAreLeaves_cascade

theorem treePath_cascade : TreePath cascadeNodes cascadeLeftGpu cascadeRightGpu
    [cascadeLeft, cascadeLeftGpu] [cascadeNestedUp] [cascadeRight, cascadeRightGpu] where
  begins := rfl
  ends := rfl
  mem := by decide +kernel
  nodup := by decide +kernel
  apex := by
    refine .ancestor _ _ ?_ ?_
    · exact .cons_cons rfl (.cons_cons rfl (.singleton _))
    · exact .cons_cons rfl (.cons_cons rfl (.singleton _))

/-- Between the two GPUs there is one switch only, but the class is that of several. -/
theorem pathClass_cascade :
    readTopology 9 cascadeSources = some cascadeNodes ∧ EndpointsAreLeaves cascadeNodes ∧
      TreePath cascadeNodes cascadeLeftGpu cascadeRightGpu [cascadeLeft, cascadeLeftGpu]
        [cascadeNestedUp] [cascadeRight, cascadeRightGpu] ∧
      cascadeNestedUp.role ≠ .hostBridge ∧
      AtMostOneSwitch cascadeNodes
        [cascadeLeftGpu, cascadeLeft, cascadeNestedUp, cascadeRight, cascadeRightGpu] ∧
      (buildHardwarePaths (fun _ => ⟨0⟩) cascadeNodes 1).map
        (fun paths => paths.map fun path => (path.a, path.b, path.pathClass)) =
          some [(cascadeLeftGpu.address, cascadeRightGpu.address, .pxb)] := by
  have h := topology_of_readTopology readTopology_cascade
  have hsides := treePath_cascade.sides
  have hroot : IsUpstream cascadeNodes cascadeUp :=
    .root rfl (p := cascadeRoot) (by decide +kernel) rfl
  have hup : IsUpstream cascadeNodes cascadeNestedUp :=
    .nested rfl (d := cascadeDown) (by decide +kernel) rfl (by decide +kernel) hroot
  refine ⟨readTopology_cascade, endpointsAreLeaves_cascade, treePath_cascade, by decide, ?_,
    by decide +kernel⟩
  have hone := (h.atMostOneSwitch_iff endpointsAreLeaves_cascade (hsides.isBelow h) hup).mpr
    (by decide +kernel)
  exact atMostOneSwitch_path_iff.mpr hone

end All

end Procinsh.Hardware
