import Procinsh.Hardware.Paths

/-!
# Paths are the paths of the forest

The chains of two endpoints run together up to their lowest common ancestor, or not at all.  The path
climbs from the first endpoint to that ancestor and descends to the second, or crosses from the one
host bridge to the other.  No slice is out of range because an endpoint that is behind another one
in the list is not among its ancestors, so that its own chain goes on behind the common part.
-/

namespace Procinsh.Hardware

open Ipc

/-! ## Pairs -/

section Pairs

variable {α : Type}

/-- The second of a pair is behind the first. -/
theorem sublist_of_mem_pairs {l : List α} {a b : α} (h : (a, b) ∈ pairs l) : [a, b].Sublist l := by
  induction l with
  | nil => cases h
  | cons x l ih =>
    rcases List.mem_append.mp h with h | h
    · obtain ⟨y, hy, heq⟩ := List.mem_map.mp h
      obtain ⟨rfl, rfl⟩ := Prod.mk.inj heq
      exact (List.singleton_sublist.mpr hy).cons_cons x
    · exact (ih h).cons x

theorem mem_of_mem_pairs {l : List α} {a b : α} (h : (a, b) ∈ pairs l) : a ∈ l ∧ b ∈ l := by
  have hsub := (sublist_of_mem_pairs h).subset
  exact ⟨hsub List.mem_cons_self, hsub (List.mem_cons_of_mem _ List.mem_cons_self)⟩

/-- Two items of a list without duplicates are one pair. -/
theorem countP_pairs [DecidableEq α] {l : List α} (h : l.Nodup) {a b : α} (ha : a ∈ l) (hb : b ∈ l)
    (hne : a ≠ b) : (pairs l).countP (fun e => e = (a, b) ∨ e = (b, a)) = 1 := by
  induction l with
  | nil => cases ha
  | cons x l ih =>
    obtain ⟨hx, hl⟩ := List.nodup_cons.mp h
    have hnone (c d : α) (hcd : c ∉ l ∨ d ∉ l) :
        (pairs l).countP (fun e => e = (c, d) ∨ e = (d, c)) = 0 := by
      refine List.countP_eq_zero.mpr fun e he hor => ?_
      rcases of_decide_eq_true hor with rfl | rfl
      · exact hcd.elim (· (mem_of_mem_pairs he).1) (· (mem_of_mem_pairs he).2)
      · exact hcd.elim (· (mem_of_mem_pairs he).2) (· (mem_of_mem_pairs he).1)
    have hone (d : α) (hd : d ∈ l) :
        (l.map (x, ·)).countP (fun e => e = (x, d) ∨ e = (d, x)) = 1 := by
      have hxd : x ≠ d := fun heq => hx (heq ▸ hd)
      rw [List.countP_map, ← List.count_eq_one_of_mem hl hd, List.count]
      refine List.countP_congr fun y _ => ?_
      simp [hxd]
    rw [pairs, List.countP_append]
    by_cases hax : a = x
    · subst hax
      have hbl : b ∈ l := (List.mem_cons.mp hb).resolve_left (Ne.symm hne)
      rw [hone b hbl, hnone a b (.inl hx)]
    · have hal : a ∈ l := (List.mem_cons.mp ha).resolve_left hax
      by_cases hbx : b = x
      · subst hbx
        have hswap : (fun e => decide (e = (a, b) ∨ e = (b, a))) =
            fun e => decide (e = (b, a) ∨ e = (a, b)) := by
          funext e
          rw [decide_eq_decide]
          exact or_comm
        rw [hswap, hone a hal, hnone b a (.inl hx)]
      · have hbl : b ∈ l := (List.mem_cons.mp hb).resolve_left hbx
        have hzero : (l.map (x, ·)).countP (fun e => e = (a, b) ∨ e = (b, a)) = 0 := by
          rw [List.countP_map]
          refine List.countP_eq_zero.mpr fun y _ hor => ?_
          rcases of_decide_eq_true hor with heq | heq
          · exact hax (Prod.mk.inj heq).1.symm
          · exact hbx (Prod.mk.inj heq).1.symm
        rw [hzero, ih hl hal hbl]

end Pairs

/-! ## Where two chains part -/

/-- A node is the parent of another one. -/
def IsParent (p c : PciNode) : Prop := c.parent = some p.address

/-- The chains of two nodes: a common part, and what is behind it.  The second chain goes on behind the
common part. -/
structure Fork (nodes : List PciNode) (a b : PciNode) (common left right : List PciNode) :
    Prop where
  left_lineage : IsLineage (parentOf nodes) (common ++ left)
  right_lineage : IsLineage (parentOf nodes) (common ++ right)
  left_last : (common ++ left).getLast? = some a
  right_last : (common ++ right).getLast? = some b
  mem : ∀ n ∈ common ++ left ++ right, n ∈ nodes
  part : ∀ x ∈ left.head?, x ∉ right.head?
  right_ne : right ≠ []

section Forks

variable {nodes : List PciNode} {a b : PciNode} {common left right : List PciNode}

/-- The chains of two nodes of which the second is behind the first. -/
theorem Topology.exists_fork (h : Topology nodes) (hsub : [a, b].Sublist nodes) :
    ∃ common left right, Fork nodes a b common left right ∧
      Hardware.chain nodes a = some (common ++ left) ∧
      Hardware.chain nodes b = some (common ++ right) ∧
      commonCount (common ++ left) (common ++ right) = common.length := by
  obtain ⟨first, rest, hnodes, ha, hb⟩ := List.cons_sublist_iff.mp hsub
  have hbrest := List.singleton_sublist.mp hb
  obtain ⟨s, t, rfl⟩ := List.append_of_mem ha
  have hsplita : nodes = s ++ a :: (t ++ rest) := by rw [hnodes, List.append_assoc]; rfl
  obtain ⟨ca, hca, hlineage, hlast, hmem⟩ := h.chain hsplita
  have hbnodes : b ∈ nodes := hnodes ▸ List.mem_append_right _ hbrest
  obtain ⟨u, v, hsplitb⟩ := List.append_of_mem hbnodes
  obtain ⟨cb, hcb, hlineage', hlast', hmem'⟩ := h.chain hsplitb
  have hca' (x : PciNode) (hx : x ∈ ca) : x ∈ s ++ a :: t := by
    have hx := hmem x hx
    rw [List.mem_append] at hx ⊢
    refine hx.imp_right fun hx => ?_
    obtain rfl := List.mem_singleton.mp hx
    exact List.mem_cons_self
  have hcanodes (x : PciNode) (hx : x ∈ ca) : x ∈ nodes :=
    hnodes ▸ List.mem_append_left _ (hca' x hx)
  have hcbnodes (x : PciNode) (hx : x ∈ cb) : x ∈ nodes := by
    have hx := hmem' x hx
    rw [List.mem_append] at hx
    rcases hx with hx | hx
    · exact hsplitb ▸ List.mem_append_left _ hx
    · obtain rfl := List.mem_singleton.mp hx
      exact hbnodes
  have hkey : ∀ x ∈ ca, ∀ y ∈ cb, x.address = y.address → x = y := fun x hx y hy hxy =>
    List.inj_on_of_nodup_map h.distinct (hcanodes x hx) (hcbnodes y hy) hxy
  obtain ⟨common, left, right, rfl, rfl, hlength, hpart⟩ :=
    exists_takeWhile_zip PciNode.address hkey
  refine ⟨common, left, right, ⟨hlineage, hlineage', hlast, hlast', ?_, hpart, ?_⟩, hca, hcb,
    hlength.symm⟩
  · intro n hn
    rcases List.mem_append.mp hn with hn | hn
    · exact hcanodes n hn
    · exact hcbnodes n (List.mem_append_right _ hn)
  · rintro rfl
    -- The second node would be among the ancestors of the first, and so before it.
    rw [List.append_nil] at hlast'
    have hbefore := hca' b (List.mem_append_left _ (List.mem_of_getLast? hlast'))
    have hnodup := List.Nodup.of_map _ h.distinct
    rw [hnodes] at hnodup
    exact (List.disjoint_of_nodup_append hnodup) hbefore hbrest

end Forks

/-! ## The path -/

/-- Nodes that are next to each other on a path. -/
def Adjacent (x y : PciNode) : Prop :=
  IsParent x y ∨ IsParent y x ∨ x.role = .hostBridge ∧ y.role = .hostBridge

/-- What the top of a path is: the lowest common ancestor, or two host bridges. -/
inductive Apex (climbed : List PciNode) : List PciNode → List PciNode → Prop
  | ancestor (top : PciNode) (descended : List PciNode)
      (hleft : (top :: climbed).IsChain IsParent) (hright : (top :: descended).IsChain IsParent) :
      Apex climbed [top] descended
  | bridges (x y : PciNode) (descended : List PciNode) (hx : x.role = .hostBridge)
      (hy : y.role = .hostBridge) (hleft : (x :: climbed).IsChain IsParent)
      (hright : (y :: descended).IsChain IsParent) : Apex climbed [x, y] descended

/-- The simple path between two nodes: from the first node through the nodes that are climbed, which
are listed downwards, to the apex, and through those that are descended to the second one. -/
structure TreePath (nodes : List PciNode) (a b : PciNode) (climbed apex descended : List PciNode) :
    Prop where
  begins : (climbed.reverse ++ apex).head? = some a
  ends : (apex ++ descended).getLast? = some b
  mem : ∀ n ∈ climbed.reverse ++ apex ++ descended, n ∈ nodes
  nodup : (climbed.reverse ++ apex ++ descended).Nodup
  apex : Apex climbed apex descended

section Paths

variable {nodes : List PciNode} {a b : PciNode} {common left right climbed apex descended :
  List PciNode}

/-- Along a path each node is next to the one before it. -/
theorem Apex.isChain_adjacent (h : Apex climbed apex descended) :
    (climbed.reverse ++ apex ++ descended).IsChain Adjacent := by
  have hup (x : PciNode) (hleft : (x :: climbed).IsChain IsParent) :
      (climbed.reverse ++ [x]).IsChain Adjacent := by
    rw [← List.reverse_cons, List.isChain_reverse]
    exact hleft.imp fun _ _ hparent => .inr (.inl hparent)
  have hdown (y : PciNode) (hright : (y :: descended).IsChain IsParent) :
      (y :: descended).IsChain Adjacent := hright.imp fun _ _ hparent => .inl hparent
  cases h with
  | ancestor top _ hleft hright =>
    rw [List.append_assoc]
    exact List.isChain_split.mpr ⟨hup top hleft, hdown top hright⟩
  | bridges x y _ hx hy hleft hright =>
    rw [List.append_assoc]
    refine List.isChain_append_cons_cons.mpr ⟨hup x hleft, .inr (.inr ⟨hx, hy⟩), hdown y hright⟩

/-- A lineage is a chain of parents. -/
theorem Topology.isChain_of_isLineage (h : Topology nodes) {c : List PciNode}
    (hlineage : IsLineage (parentOf nodes) c) (hmem : ∀ n ∈ c, n ∈ nodes) :
    c.IsChain IsParent :=
  hlineage.descends.imp_of_mem_imp fun _ n _ hn hparent =>
    ((h.parentOf_eq_some_iff (hmem n hn)).mp hparent).2

/-- The chains of two nodes make a path. -/
theorem Topology.treePath_of_fork (h : Topology nodes) (hfork : Fork nodes a b common left right) :
    (∃ x y climbed descended, common = [] ∧ left = x :: climbed ∧ right = y :: descended ∧
      TreePath nodes a b climbed [x, y] descended) ∨
    ∃ before top, common = before ++ [top] ∧ TreePath nodes a b left [top] right := by
  have hleftmem (n : PciNode) (hn : n ∈ common ++ left) : n ∈ nodes :=
    hfork.mem n (List.mem_append_left _ hn)
  have hrightmem (n : PciNode) (hn : n ∈ common ++ right) : n ∈ nodes := by
    rcases List.mem_append.mp hn with hn | hn
    · exact hleftmem n (List.mem_append_left _ hn)
    · exact hfork.mem n (List.mem_append_right _ hn)
  have hleft := h.isChain_of_isLineage hfork.left_lineage hleftmem
  have hright := h.isChain_of_isLineage hfork.right_lineage hrightmem
  have hdisjoint := hfork.left_lineage.disjoint hfork.right_lineage hfork.part
  have hleftnodup := hfork.left_lineage.nodup
  have hrightnodup := hfork.right_lineage.nodup
  rcases List.eq_nil_or_concat' common with rfl | ⟨before, top, rfl⟩
  · refine .inl ?_
    rw [List.nil_append] at hleft hright hleftnodup hrightnodup hleftmem hrightmem
    cases left with
    | nil => cases hfork.left_last
    | cons x climbed =>
      cases right with
      | nil => exact absurd rfl hfork.right_ne
      | cons y descended =>
        have hroot (z : PciNode) (hz : z ∈ nodes) (hnone : parentOf nodes z = none) :
            z.role = .hostBridge :=
          (h.hostBridge_iff z hz).mpr ((h.parentOf_eq_none_iff hz).mp hnone)
        have hseq : climbed.reverse ++ [x, y] ++ descended =
            (x :: climbed).reverse ++ y :: descended := by
          rw [List.reverse_cons, List.append_assoc, List.append_assoc]
          rfl
        refine ⟨x, y, climbed, descended, rfl, rfl, rfl, ⟨?_, ?_, ?_, ?_, ?_⟩⟩
        · have hfirst : climbed.reverse ++ [x, y] = (x :: climbed).reverse ++ [y] := by
            rw [List.reverse_cons, List.append_assoc]
            rfl
          have hlast : (x :: climbed).getLast? = some a := hfork.left_last
          rw [hfirst, List.head?_append, List.head?_reverse, hlast, Option.some_or]
        · have hlast : (y :: descended).getLast? = some b := hfork.right_last
          change (x :: y :: descended).getLast? = some b
          rwa [List.getLast?_cons_cons]
        · intro n hn
          rw [hseq] at hn
          rcases List.mem_append.mp hn with hn | hn
          · exact hleftmem n (List.mem_reverse.mp hn)
          · exact hrightmem n hn
        · rw [hseq]
          refine List.nodup_append.mpr ⟨List.nodup_reverse.mpr hleftnodup, hrightnodup, ?_⟩
          rintro n hn m hm rfl
          exact hdisjoint n (List.mem_reverse.mp hn) hm
        · refine .bridges x y descended ?_ ?_ hleft hright
          · exact hroot x (hleftmem x List.mem_cons_self) (hfork.left_lineage.root x rfl)
          · exact hroot y (hrightmem y List.mem_cons_self) (hfork.right_lineage.root y rfl)
  · refine .inr ⟨before, top, rfl, ⟨?_, ?_, ?_, ?_, ?_⟩⟩
    · have hlast := hfork.left_last
      rw [List.append_assoc, List.singleton_append, List.getLast?_append] at hlast
      rw [← List.reverse_cons, List.head?_reverse]
      cases hleft : (top :: left).getLast? with
      | none => cases List.getLast?_eq_none_iff.mp hleft
      | some c => rwa [hleft, Option.some_or] at hlast
    · have hlast := hfork.right_last
      rw [List.append_assoc, List.getLast?_append] at hlast
      cases hright : ([top] ++ right).getLast? with
      | none => cases List.getLast?_eq_none_iff.mp hright
      | some c => rwa [hright, Option.some_or] at hlast
    · intro n hn
      rcases List.mem_append.mp hn with hn | hn
      · rcases List.mem_append.mp hn with hn | hn
        · exact hleftmem n (List.mem_append_right _ (List.mem_reverse.mp hn))
        · exact hleftmem n (List.mem_append_left _ (List.mem_append_right _ hn))
      · exact hrightmem n (List.mem_append_right _ hn)
    · rw [← List.reverse_cons]
      rw [List.append_assoc, List.singleton_append] at hleftnodup
      refine List.nodup_append.mpr ⟨List.nodup_reverse.mpr hleftnodup.of_append_right,
        hrightnodup.of_append_right, ?_⟩
      rintro n hn m hm rfl
      rcases List.mem_cons.mp (List.mem_reverse.mp hn) with rfl | hn
      · exact List.disjoint_of_nodup_append hrightnodup
          (List.mem_append_right _ (List.mem_singleton_self n)) hm
      · exact hdisjoint n hn hm
    · rw [List.append_assoc] at hleft hright
      exact .ancestor top right hleft.right_of_append hright.right_of_append

end Paths

/-! ## What is computed for a pair -/

/-- The negotiated link above a node. -/
def currentLink (n : PciNode) : Option PcieLink := n.link.bind PcieLinkInfo.current

/-- The first of the slowest links above nodes. -/
def slowestLink (bandwidth : PcieLink → F64) (ns : List PciNode) : Option PcieLink :=
  minBy (fun link => totalKey (bandwidth link)) (ns.filterMap currentLink)

section Computed

variable {bandwidth : PcieLink → F64} {nodes : List PciNode} {numaNodes : ℕ} {a b : PciNode}
  {left right : List PciNode}

/-- The path between nodes of different trees. -/
theorem pathBetween_of_bridges {x y : PciNode} (ha : chain nodes a = some (x :: left))
    (hb : chain nodes b = some (y :: right)) (hcommon : commonCount (x :: left) (y :: right) = 0) :
    pathBetween bandwidth nodes numaNodes a b = some {
      id := a.address ++ "/" ++ b.address
      a := a.address
      b := b.address
      pathClass :=
        if (numaOf numaNodes a).isSome ∧ numaOf numaNodes a = numaOf numaNodes b then .node
        else .sys
      via := (x :: left).dropLast.reverse.map PciNode.address ++
        (y :: right).dropLast.map PciNode.address
      bottleneck := slowestLink bandwidth (left ++ right) } := by
  have hup (z : PciNode) (l : List PciNode) : slice (z :: l) 1 (z :: l).length = some l :=
    slice_append [z] l
  have hdrop (z : PciNode) (l : List PciNode) :
      slice (z :: l) 0 ((z :: l).length - 1) = some (z :: l).dropLast :=
    slice_append_dropLast [] (List.cons_ne_nil z l)
  rw [pathBetween, ha, hb]
  dsimp only [bind, Option.bind]
  rw [hcommon, Nat.zero_max, Nat.zero_sub, hup, hup, hdrop, if_pos rfl, hdrop, pathClass, if_pos rfl]
  rfl

/-- The ports that a path crosses below its lowest common ancestor, and that ancestor. -/
def crossed (top : PciNode) (left right : List PciNode) : List PciNode :=
  (top :: left).dropLast ++ right.dropLast

/-- The path between nodes of one tree. -/
theorem pathBetween_of_ancestor {before : List PciNode} {top : PciNode}
    (ha : chain nodes a = some (before ++ top :: left))
    (hb : chain nodes b = some (before ++ top :: right)) (hright : right ≠ [])
    (hcommon : commonCount (before ++ top :: left) (before ++ top :: right) = before.length + 1) :
    pathBetween bandwidth nodes numaNodes a b = some {
      id := a.address ++ "/" ++ b.address
      a := a.address
      b := b.address
      pathClass :=
        if top.role = .hostBridge then .phb
        else if ((crossed top left right).foldl (addSwitch nodes) []).length ≤ 1 then .pix
        else .pxb
      via := (top :: left).dropLast.reverse.map PciNode.address ++
        right.dropLast.map PciNode.address
      bottleneck := slowestLink bandwidth (left ++ right) } := by
  have hlength : (before ++ [top]).length = before.length + 1 := List.length_append
  have hup (l : List PciNode) : slice (before ++ top :: l) (before.length + 1)
      (before ++ top :: l).length = some l := by
    have hslice := slice_append (before ++ [top]) l
    rwa [hlength, List.append_assoc] at hslice
  have hclimbed : slice (before ++ top :: left) before.length
      ((before ++ top :: left).length - 1) = some (top :: left).dropLast :=
    slice_append_dropLast before (List.cons_ne_nil top left)
  have hdescended : slice (before ++ top :: right) (before.length + 1)
      ((before ++ top :: right).length - 1) = some right.dropLast := by
    have hslice := slice_append_dropLast (before ++ [top]) hright
    rwa [hlength, List.append_assoc] at hslice
  have htop : (before ++ top :: left)[before.length]? = some top := by
    rw [List.getElem?_append_right le_rfl, Nat.sub_self]
    rfl
  have hmax : max (before.length + 1) 1 = before.length + 1 := by omega
  have hne : before.length + 1 ≠ 0 := Nat.succ_ne_zero _
  rw [pathBetween, ha, hb]
  dsimp only [bind, Option.bind]
  rw [hcommon, hmax, Nat.add_sub_cancel, hup, hup, hclimbed, if_neg hne, hdescended, pathClass,
    if_neg hne, Nat.add_sub_cancel, htop]
  dsimp only [bind, Option.bind]
  rw [hclimbed, hdescended]
  by_cases hhost : top.role = .hostBridge
  · rw [if_pos hhost, if_pos hhost]
    rfl
  · rw [if_neg hhost, if_neg hhost]
    rfl

end Computed

/-! ## All paths -/

/-- A link above one of the nodes that is not faster than any other of them; no link if there is
none. -/
structure IsBottleneck (bandwidth : PcieLink → F64) (ns : List PciNode) (link : Option PcieLink) :
    Prop where
  none_iff : link = none ↔ ∀ n ∈ ns, currentLink n = none
  mem : ∀ l, link = some l → ∃ n ∈ ns, currentLink n = some l
  le : ∀ l, link = some l → ∀ n ∈ ns, ∀ l', currentLink n = some l' →
    totalKey (bandwidth l) ≤ totalKey (bandwidth l')

theorem isBottleneck_slowestLink (bandwidth : PcieLink → F64) (ns : List PciNode) :
    IsBottleneck bandwidth ns (slowestLink bandwidth ns) where
  none_iff := by
    rw [slowestLink, minBy_eq_none_iff, List.filterMap_eq_nil_iff]
  mem l hl := by
    obtain ⟨n, hn, hlink⟩ := List.mem_filterMap.mp (minBy_eq_some hl).1
    exact ⟨n, hn, hlink⟩
  le l hl n hn l' hl' := by
    have hmem : l' ∈ ns.filterMap currentLink := List.mem_filterMap.mpr ⟨n, hn, hl'⟩
    exact (minBy_eq_some hl).2 l' hmem

/-- A path as it is between two nodes of the forest. -/
structure IsPathBetween (bandwidth : PcieLink → F64) (nodes : List PciNode) (a b : PciNode)
    (path : HardwarePath) : Prop where
  a_eq : path.a = a.address
  b_eq : path.b = b.address
  tree : ∃ climbed apex descended, TreePath nodes a b climbed apex descended ∧
    (climbed.reverse ++ apex ++ descended).IsChain Adjacent ∧
    path.a :: path.via ++ [path.b] =
      (climbed.reverse ++ apex ++ descended).map PciNode.address ∧
    IsBottleneck bandwidth (climbed ++ descended) path.bottleneck

section All

variable {bandwidth : PcieLink → F64} {nodes : List PciNode} {numaNodes : ℕ} {a b : PciNode}

/-- What is between the ends of a path, with the ends. -/
theorem ends_via {u v : List PciNode} (hu : u.getLast? = some a) (hv : v.getLast? = some b) :
    a.address :: (u.dropLast.reverse.map PciNode.address ++ v.dropLast.map PciNode.address) ++
      [b.address] = (u.reverse ++ v).map PciNode.address := by
  have hu := List.dropLast_append_getLast? a hu
  have hv := List.dropLast_append_getLast? b hv
  conv_rhs => rw [← hu, ← hv]
  simp

/-- The path between two endpoints of which the second is behind the first. -/
theorem Topology.exists_pathBetween (h : Topology nodes) (hsub : [a, b].Sublist nodes) :
    ∃ path, pathBetween bandwidth nodes numaNodes a b = some path ∧
      IsPathBetween bandwidth nodes a b path := by
  obtain ⟨common, left, right, hfork, ha, hb, hcommon⟩ := h.exists_fork hsub
  rcases h.treePath_of_fork hfork with ⟨x, y, climbed, descended, rfl, rfl, rfl, htree⟩ |
    ⟨before, top, rfl, htree⟩
  · have hseq : climbed.reverse ++ [x, y] ++ descended =
        (x :: climbed).reverse ++ y :: descended := by
      rw [List.reverse_cons, List.append_assoc, List.append_assoc]
      rfl
    refine ⟨_, pathBetween_of_bridges ha hb hcommon, rfl, rfl, climbed, [x, y], descended, htree,
      htree.apex.isChain_adjacent, ?_, isBottleneck_slowestLink _ _⟩
    rw [hseq]
    exact ends_via hfork.left_last hfork.right_last
  · rw [List.length_append, List.append_assoc, List.append_assoc] at hcommon
    rw [List.append_assoc] at ha hb
    have hlast (l : List PciNode) (c : PciNode) (hl : l ≠ [])
        (hc : ((before ++ [top]) ++ l).getLast? = some c) : l.getLast? = some c := by
      rw [List.getLast?_append] at hc
      cases hlast : l.getLast? with
      | none => exact absurd (List.getLast?_eq_none_iff.mp hlast) hl
      | some d => rwa [hlast, Option.some_or] at hc
    refine ⟨_, pathBetween_of_ancestor ha hb hfork.right_ne hcommon, rfl, rfl, left, [top], right,
      htree, htree.apex.isChain_adjacent, ?_, isBottleneck_slowestLink _ _⟩
    rw [← List.reverse_cons]
    refine ends_via ?_ (hlast right b hfork.right_ne hfork.right_last)
    rw [← List.head?_reverse, List.reverse_cons]
    exact htree.begins

theorem sublist_of_mem_endpoints (hpair : (a, b) ∈ pairs (endpoints nodes)) :
    [a, b].Sublist nodes :=
  (sublist_of_mem_pairs hpair).trans List.filter_sublist

/-- Paths have the ends of their pairs. -/
theorem map_ends_eq {l : List (PciNode × PciNode)} {paths : List HardwarePath}
    (h : List.Forall₂ (fun pair path => IsPathBetween bandwidth nodes pair.1 pair.2 path) l paths) :
    paths.map (fun path => (path.a, path.b)) = l.map fun e => (e.1.address, e.2.address) := by
  induction h with
  | nil => rfl
  | cons hpath _ ih => rw [List.map_cons, List.map_cons, ih, hpath.a_eq, hpath.b_eq]

/-- The paths are those of the pairs of endpoints. -/
theorem Topology.exists_paths (h : Topology nodes) (bandwidth : PcieLink → F64) (numaNodes : ℕ) :
    ∃ paths, buildHardwarePaths bandwidth nodes numaNodes = some paths ∧
      List.Forall₂ (fun pair path => pathBetween bandwidth nodes numaNodes pair.1 pair.2 = some path ∧
        IsPathBetween bandwidth nodes pair.1 pair.2 path) (pairs (endpoints nodes)) paths := by
  obtain ⟨paths, hpaths, hall⟩ := exists_mapM_eq_pure
    (f := fun pair => pathBetween bandwidth nodes numaNodes pair.1 pair.2)
    (R := fun pair pair' => pair = pair' ∧ pair ∈ pairs (endpoints nodes))
    (P := fun pair path => pathBetween bandwidth nodes numaNodes pair.1 pair.2 = some path ∧
      IsPathBetween bandwidth nodes pair.1 pair.2 path)
    (List.forall₂_same.mpr fun pair hpair => ⟨rfl, hpair⟩)
    (by
      rintro pair _ ⟨rfl, hpair⟩
      obtain ⟨path, hpath, hbetween⟩ := h.exists_pathBetween (sublist_of_mem_endpoints hpair)
      exact ⟨path, hpath, hpath, hbetween⟩)
  exact ⟨paths, hpaths, hall⟩

/-- For the nodes that `read_topology` returns, paths are found without a slice out of range: exactly
one for each two endpoints, which is the simple path between them in the forest, and with a link of
the smallest bandwidth among those above the nodes that are climbed and descended. -/
theorem buildHardwarePaths_treePaths (bandwidth : PcieLink → F64) (numaNodes : ℕ) {steps : ℕ}
    {sources : HardwareSources} (hread : readTopology steps sources = some nodes) :
    ∃ paths, buildHardwarePaths bandwidth nodes numaNodes = some paths ∧
      (∀ a ∈ endpoints nodes, ∀ b ∈ endpoints nodes, a ≠ b →
        paths.countP (fun path => (path.a, path.b) = (a.address, b.address) ∨
          (path.a, path.b) = (b.address, a.address)) = 1) ∧
      ∀ path ∈ paths, ∃ a ∈ endpoints nodes, ∃ b ∈ endpoints nodes, a ≠ b ∧
        IsPathBetween bandwidth nodes a b path := by
  have h := topology_of_readTopology hread
  have hnodup : nodes.Nodup := List.Nodup.of_map _ h.distinct
  have hinj (x : PciNode) (hx : x ∈ endpoints nodes) (y : PciNode) (hy : y ∈ endpoints nodes) :
      x.address = y.address ↔ x = y :=
    ⟨fun heq => List.inj_on_of_nodup_map h.distinct (List.mem_of_mem_filter hx)
      (List.mem_of_mem_filter hy) heq, congrArg _⟩
  obtain ⟨paths, hpaths, hall⟩ := h.exists_paths bandwidth numaNodes
  have hall := hall.imp fun _ _ hbetween => hbetween.2
  refine ⟨paths, hpaths, fun a ha b hb hne => ?_, fun path hpath => ?_⟩
  · rw [← countP_pairs (hnodup.filter _) ha hb hne]
    have hends := congrArg (List.countP fun e =>
      e = (a.address, b.address) ∨ e = (b.address, a.address)) (map_ends_eq hall)
    rw [List.countP_map, List.countP_map] at hends
    refine hends.trans (List.countP_congr fun e he => ?_)
    obtain ⟨he₁, he₂⟩ := mem_of_mem_pairs he
    rw [Function.comp_apply, decide_eq_true_iff, decide_eq_true_iff, Prod.mk.injEq, Prod.mk.injEq,
      hinj e.1 he₁ a ha, hinj e.2 he₂ b hb, hinj e.1 he₁ b hb, hinj e.2 he₂ a ha, Prod.ext_iff,
      Prod.ext_iff]
  · obtain ⟨⟨a, b⟩, hpair, hbetween⟩ := exists_left_of_forall₂ hall hpath
    obtain ⟨ha, hb⟩ := mem_of_mem_pairs hpair
    refine ⟨a, ha, b, hb, ?_, hbetween⟩
    rintro rfl
    have htwice := (sublist_of_mem_endpoints hpair).nodup hnodup
    exact (List.nodup_cons.mp htwice).1 List.mem_cons_self

theorem buildHardwarePaths_treePaths_cascade :
    ∃ paths, buildHardwarePaths (fun _ => ⟨0⟩) cascadeNodes 1 = some paths ∧
      (∀ a ∈ endpoints cascadeNodes, ∀ b ∈ endpoints cascadeNodes, a ≠ b →
        paths.countP (fun path => (path.a, path.b) = (a.address, b.address) ∨
          (path.a, path.b) = (b.address, a.address)) = 1) ∧
      ∀ path ∈ paths, ∃ a ∈ endpoints cascadeNodes, ∃ b ∈ endpoints cascadeNodes, a ≠ b ∧
        IsPathBetween (fun _ => ⟨0⟩) cascadeNodes a b path :=
  buildHardwarePaths_treePaths (fun _ => ⟨0⟩) 1 readTopology_cascade

end All

end Procinsh.Hardware
