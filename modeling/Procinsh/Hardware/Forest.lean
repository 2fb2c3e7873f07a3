import Mathlib.Data.Prod.Basic
import Mathlib.Data.String.Basic
import Procinsh.Foundation.Lists
import Procinsh.Hardware.Topology

/-!
# The nodes form a forest

What `read_topology` returns is a forest with the host bridges as roots: addresses are distinct, and
a node comes behind its parent.  A node is added to the map only behind its parent, which is the node
before it in its chain, so that all parents are there; and where the depths can be computed the order
by depths puts parents first.
-/

namespace Procinsh.Hardware

open Ipc

/-! ## What the map of nodes keeps -/

/-- The nodes so far: each is built for its address, a host bridge has no parent, and all others have
one that is a node, too. -/
def Rooted (nodes : OrderedMap String PciNode) : Prop :=
  ∀ address n, nodes.get? address = some n → n.address = address ∧
    n.role = roleOf address n.kind n.parent ∧ (n.parent = none ↔ isHostBridge address) ∧
    ∀ p, n.parent = some p → (nodes.get? p).isSome

/-- A chain that can be added below a parent: only a first entry without a parent is a host
bridge. -/
def IsChainBelow (parent : Option String) : List (String × Dir) → Prop
  | [] => True
  | entry :: rest => (parent = none ↔ isHostBridge entry.1) ∧ ∀ e ∈ rest, ¬ isHostBridge e.1

section Adding

variable {sources : HardwareSources} {nodes : OrderedMap String PciNode}

/-- Nodes stay. -/
theorem isSome_addNode {p : String} (h : (nodes.get? p).isSome) (parent : Option String)
    (address : String) (dir : Dir) (kind : Option HardwareKind) :
    ((addNode sources nodes parent address dir kind).get? p).isSome := by
  rw [addNode]
  split
  · exact h
  · by_cases hp : p = address
    · rw [hp, OrderedMap.get?_set_self]
      rfl
    · rw [OrderedMap.get?_set_ne _ hp]
      exact h

/-- What is added is there. -/
theorem isSome_addNode_self (parent : Option String) (address : String) (dir : Dir)
    (kind : Option HardwareKind) :
    ((addNode sources nodes parent address dir kind).get? address).isSome := by
  rw [addNode]
  split
  · next hany =>
    cases hn : nodes.get? address with
    | none =>
      rw [hn] at hany
      cases hany
    | some n => rfl
  · rw [OrderedMap.get?_set_self]
    rfl

theorem Rooted.addNode (h : Rooted nodes) {parent : Option String} {address : String}
    (hroot : parent = none ↔ isHostBridge address)
    (hparent : ∀ p, parent = some p → (nodes.get? p).isSome) (dir : Dir)
    (kind : Option HardwareKind) : Rooted (addNode sources nodes parent address dir kind) := by
  intro a n hn
  have hkept (p : String) (hp : (nodes.get? p).isSome) :
      ((Hardware.addNode sources nodes parent address dir kind).get? p).isSome :=
    isSome_addNode hp parent address dir kind
  have hold (hn : nodes.get? a = some n) : n.address = a ∧
      n.role = roleOf a n.kind n.parent ∧ (n.parent = none ↔ isHostBridge a) ∧
      ∀ p, n.parent = some p →
        ((Hardware.addNode sources nodes parent address dir kind).get? p).isSome := by
    obtain ⟨haddress, hrole, hnone, hsome⟩ := h a n hn
    exact ⟨haddress, hrole, hnone, fun p hp => hkept p (hsome p hp)⟩
  rw [Hardware.addNode] at hn
  split at hn
  · exact hold hn
  · by_cases ha : a = address
    · rw [ha, OrderedMap.get?_set_self] at hn
      obtain rfl := Option.some.inj hn
      rw [ha]
      exact ⟨rfl, rfl, hroot, fun p hp => hkept p (hparent p hp)⟩
    · rw [OrderedMap.get?_set_ne _ ha] at hn
      exact hold hn

theorem Rooted.addChain (h : Rooted nodes) {kind : HardwareKind} {parent : Option String}
    {chain : List (String × Dir)} (hchain : IsChainBelow parent chain)
    (hparent : ∀ p, parent = some p → (nodes.get? p).isSome) :
    Rooted (addChain sources kind nodes parent chain) := by
  induction chain generalizing nodes parent with
  | nil => exact h
  | cons entry rest ih =>
    obtain ⟨address, dir⟩ := entry
    obtain ⟨hroot, hrest⟩ := hchain
    refine ih (h.addNode hroot hparent dir _) ?_ fun p hp => ?_
    · cases rest with
      | nil => trivial
      | cons next rest =>
        obtain ⟨hnext, hrest⟩ := List.forall_mem_cons.mp hrest
        exact ⟨iff_of_false (Option.some_ne_none address) hnext, hrest⟩
    · obtain rfl := Option.some.inj hp
      exact isSome_addNode_self parent _ dir _

end Adding

/-- A path gives a chain that begins with a host bridge. -/
theorem isChainBelow_chainOf (dir : Dir) : IsChainBelow none (chainOf dir) := by
  have hstep (dir : Dir) (state : Dir × List (String × Dir)) (h : IsChainBelow none state.2) :
      IsChainBelow none (dir.foldl chainStep state).2 := by
    induction dir generalizing state with
    | nil => exact h
    | cons part dir ih =>
      refine ih _ ?_
      unfold chainStep
      dsimp only
      split
      · next hhost => exact ⟨iff_of_true rfl hhost, fun e he => absurd he List.not_mem_nil⟩
      · next hhost =>
        split
        · next hbelow =>
          cases hstate : state.2 with
          | nil =>
            rw [hstate] at hbelow
            cases hbelow
          | cons entry rest =>
            rw [hstate] at h
            refine ⟨h.1, fun e he => ?_⟩
            rcases List.mem_append.mp he with he | he
            · exact h.2 e he
            · obtain rfl := List.mem_singleton.mp he
              exact hhost
        · exact h
  exact hstep dir ([], []) trivial

theorem rooted_chains (sources : HardwareSources) :
    Rooted ((readChains sources).foldl
      (fun nodes chain => addChain sources chain.2 nodes none chain.1) OrderedMap.empty) := by
  have hchains : ∀ chain ∈ readChains sources, IsChainBelow none chain.1 := by
    intro chain hchain
    obtain ⟨name, -, hname⟩ := List.mem_filterMap.mp hchain
    obtain ⟨dir, -, hname⟩ := Option.bind_eq_some_iff.mp hname
    obtain ⟨kind, -, hname⟩ := Option.bind_eq_some_iff.mp hname
    split at hname
    · obtain rfl := Option.some.inj hname
      exact isChainBelow_chainOf dir
    · cases hname
  have hfold (chains : List (List (String × Dir) × HardwareKind))
      (hchains : ∀ chain ∈ chains, IsChainBelow none chain.1) (nodes : OrderedMap String PciNode)
      (h : Rooted nodes) : Rooted (chains.foldl
        (fun nodes chain => addChain sources chain.2 nodes none chain.1) nodes) := by
    induction chains generalizing nodes with
    | nil => exact h
    | cons chain chains ih =>
      obtain ⟨hchain, hrest⟩ := List.forall_mem_cons.mp hchains
      exact ih hrest _ (h.addChain hchain fun p hp => by cases hp)
  exact hfold _ hchains _ fun address n hn => by cases hn

/-! ## The order -/

/-- The nodes of a forest, parents before children. -/
structure Topology (nodes : List PciNode) : Prop where
  distinct : (nodes.map PciNode.address).Nodup
  ordered : ∀ before n after, nodes = before ++ n :: after → ∀ p, n.parent = some p →
    ∃ m ∈ before, m.address = p
  hostBridge_iff : ∀ n ∈ nodes, n.role = .hostBridge ↔ n.parent = none
  rootPort : ∀ n ∈ nodes, n.role = .rootPort → ∀ m ∈ nodes, n.parent = some m.address →
    m.role = .hostBridge
  switchPort : ∀ n ∈ nodes, n.role = .switchPort → ∀ m ∈ nodes, n.parent = some m.address →
    m.role ≠ .hostBridge

/-- Following more parents finds the same depth. -/
theorem depthFrom_unique {all : List PciNode} {steps steps' : ℕ} {address : Option String}
    {d d' : ℕ} (h : depthFrom all steps address = some d)
    (h' : depthFrom all steps' address = some d') : d = d' := by
  induction steps generalizing steps' address d d' with
  | zero =>
    cases address with
    | none =>
      cases steps' with
      | zero => exact Option.some.inj (h.symm.trans h')
      | succ _ => exact Option.some.inj (h.symm.trans h')
    | some _ => cases h
  | succ steps ih =>
    cases address with
    | none =>
      cases steps' with
      | zero => exact Option.some.inj (h.symm.trans h')
      | succ _ => exact Option.some.inj (h.symm.trans h')
    | some a =>
      cases steps' with
      | zero => cases h'
      | succ steps' =>
        obtain ⟨e, he, rfl⟩ := Option.map_eq_some_iff.mp h
        obtain ⟨e', he', rfl⟩ := Option.map_eq_some_iff.mp h'
        rw [ih he he']

/-- What is computed for each item stands beside it. -/
theorem zip_of_mapM {α β : Type} {f : α → Option β} {l : List α} {values : List β}
    (h : l.mapM f = some values) :
    (values.zip l).map Prod.snd = l ∧ ∀ e ∈ values.zip l, f e.2 = some e.1 := by
  induction l generalizing values with
  | nil =>
    cases h
    exact ⟨rfl, fun e he => absurd he List.not_mem_nil⟩
  | cons a l ih =>
    rw [List.mapM_cons] at h
    obtain ⟨b, hb, h⟩ := Option.bind_eq_some_iff.mp h
    obtain ⟨rest, hrest, h⟩ := Option.bind_eq_some_iff.mp h
    obtain rfl := Option.some.inj h
    obtain ⟨hmap, hall⟩ := ih hrest
    rw [List.zip_cons_cons, List.map_cons, hmap]
    exact ⟨rfl, List.forall_mem_cons.mpr ⟨hb, hall⟩⟩

theorem byDepth_iff {x y : ℕ × PciNode} :
    byDepth x y ↔ x.1 < y.1 ∨ x.1 = y.1 ∧ x.2.address ≤ y.2.address := by
  unfold byDepth
  simp

theorem byDepth_trans (x y z : ℕ × PciNode) (hxy : byDepth x y) (hyz : byDepth y z) :
    byDepth x z := by
  rw [byDepth_iff] at hxy hyz ⊢
  rcases hxy with hxy | ⟨hxy, haddress⟩
  · exact .inl (by omega)
  · rcases hyz with hyz | ⟨hyz, haddress'⟩
    · exact .inl (by omega)
    · exact .inr ⟨hxy.trans hyz, le_trans haddress haddress'⟩

theorem byDepth_total (x y : ℕ × PciNode) : byDepth x y || byDepth y x := by
  rw [Bool.or_eq_true, byDepth_iff, byDepth_iff]
  rcases lt_trichotomy x.1 y.1 with hlt | heq | hgt
  · exact .inl (.inl hlt)
  · exact (le_total x.2.address y.2.address).imp (fun h => .inr ⟨heq, h⟩) fun h =>
      .inr ⟨heq.symm, h⟩
  · exact .inr (.inl hgt)

/-- Sorting sorts by depths. -/
theorem pairwise_mergeSort_byDepth (l : List (ℕ × PciNode)) :
    (l.mergeSort byDepth).Pairwise fun x y => x.1 ≤ y.1 := by
  refine (List.pairwise_mergeSort byDepth_trans byDepth_total l).imp fun hxy => ?_
  rw [byDepth_iff] at hxy
  omega

theorem roleOf_eq_hostBridge_iff {address : String} {kind : Option HardwareKind}
    {parent : Option String} :
    roleOf address kind parent = .hostBridge ↔ isHostBridge address := by
  rw [roleOf]
  split
  · next h => exact iff_of_true rfl h
  · next h =>
    refine iff_of_false ?_ h
    split
    · exact HardwareRole.noConfusion
    · split
      · exact HardwareRole.noConfusion
      · exact HardwareRole.noConfusion

/-- A bridge is a root port exactly if its parent is a host bridge. -/
theorem any_isHostBridge_of_roleOf {address : String} {kind : Option HardwareKind}
    {parent : Option String} (h : roleOf address kind parent = .rootPort ∨
      roleOf address kind parent = .switchPort) :
    roleOf address kind parent = .rootPort ↔ parent.any isHostBridge := by
  rw [roleOf] at h ⊢
  split at h
  · rcases h with h | h
    · cases h
    · cases h
  · next hhost =>
    rw [if_neg hhost]
    split at h
    · rcases h with h | h
      · cases h
      · cases h
    · next hkind =>
      rw [if_neg hkind]
      split
      · next hany => exact iff_of_true rfl hany
      · next hany => exact iff_of_false HardwareRole.noConfusion hany

/-- The nodes of the map are told apart by their addresses. -/
theorem Rooted.get?_of_mem_values {nodes : OrderedMap String PciNode} (h : Rooted nodes)
    {n : PciNode} (hn : n ∈ nodes.values) : nodes.get? n.address = some n := by
  obtain ⟨⟨address, m⟩, he, rfl⟩ := List.mem_map.mp hn
  have hget := OrderedMap.get?_eq_some_iff.mpr he
  rw [(h address m hget).1]
  exact hget

theorem Rooted.nodup_address {nodes : OrderedMap String PciNode} (h : Rooted nodes) :
    (nodes.values.map PciNode.address).Nodup := by
  have hkeys : nodes.values.map PciNode.address = nodes.entries.map Prod.fst := by
    rw [OrderedMap.values, List.map_map]
    refine List.map_congr_left fun e he => ?_
    exact (h e.1 e.2 (OrderedMap.get?_eq_some_iff.mpr he)).1
  rw [hkeys]
  exact nodes.nodup

/-- A node is deeper than its parent. -/
theorem depthFrom_lt {all : List PciNode} (hdistinct : (all.map PciNode.address).Nodup)
    {m n : PciNode} (hm : m ∈ all) (hparent : n.parent = some m.address) {steps d e : ℕ}
    (hn : depthFrom all steps n.parent = some d) (hd : depthFrom all steps m.parent = some e) :
    e < d := by
  rw [hparent] at hn
  cases steps with
  | zero => cases hn
  | succ steps =>
    have hfind : all.find? (fun node => node.address = m.address) = some m := by
      cases hfound : all.find? fun node => node.address = m.address with
      | none => exact absurd (decide_eq_true rfl) (List.find?_eq_none.mp hfound m hm)
      | some k =>
        refine congrArg some (List.inj_on_of_nodup_map hdistinct (List.mem_of_find?_eq_some hfound)
          hm ?_)
        exact of_decide_eq_true (List.find?_some hfound :)
    rw [depthFrom, hfind] at hn
    obtain ⟨c, hc, rfl⟩ := Option.map_eq_some_iff.mp hn
    rw [depthFrom_unique hd hc]
    exact Nat.lt_succ_self c

/-- What `read_topology` returns is a forest. -/
theorem topology_of_readTopology {steps : ℕ} {sources : HardwareSources} {nodes : List PciNode}
    (h : readTopology steps sources = some nodes) : Topology nodes := by
  have hrooted := rooted_chains sources
  obtain ⟨depths, hdepths, hnodes⟩ := Option.bind_eq_some_iff.mp h
  obtain rfl := Option.some.inj hnodes
  generalize (readChains sources).foldl
    (fun nodes chain => addChain sources chain.2 nodes none chain.1) OrderedMap.empty = map
    at hrooted hdepths
  obtain ⟨hsnd, hdepth⟩ := zip_of_mapM hdepths
  have hsorted := pairwise_mergeSort_byDepth (depths.zip map.values)
  have hperm := List.mergeSort_perm (depths.zip map.values) byDepth
  generalize (depths.zip map.values).mergeSort byDepth = sorted at hsorted hperm ⊢
  have hvalues : (sorted.map Prod.snd).Perm map.values := hsnd ▸ hperm.map Prod.snd
  have hmem (n : PciNode) (hn : n ∈ sorted.map Prod.snd) : map.get? n.address = some n :=
    hrooted.get?_of_mem_values (hvalues.mem_iff.mp hn)
  refine ⟨(hvalues.map _).nodup_iff.mpr hrooted.nodup_address, ?_, ?_, ?_, ?_⟩
  · intro before n after hsplit p hp
    obtain ⟨first, rest, rfl, rfl, hrest⟩ := List.map_eq_append_iff.mp hsplit
    obtain ⟨e, last, rfl, rfl, rfl⟩ := List.map_eq_cons_iff.mp hrest
    have hmemAll {x : ℕ × PciNode} (hx : x ∈ first ++ e :: last) :
        depthFrom map.values steps x.2.parent = some x.1 := hdepth x (hperm.mem_iff.mp hx)
    have he : e ∈ first ++ e :: last := List.mem_append_right _ List.mem_cons_self
    obtain ⟨-, -, -, hparent⟩ := hrooted _ _ (hmem e.2 (List.mem_map_of_mem he))
    obtain ⟨m, hm⟩ := Option.isSome_iff_exists.mp (hparent p hp)
    obtain ⟨haddress, -⟩ := hrooted p m hm
    have hmvalues : m ∈ map.values :=
      List.mem_map.mpr ⟨(p, m), OrderedMap.get?_eq_some_iff.mp hm, rfl⟩
    obtain ⟨x, hx, rfl⟩ := List.mem_map.mp (hvalues.mem_iff.mpr hmvalues)
    -- The parent is less deep, so it is not among the nodes from this one on.
    have hlt : x.1 < e.1 := depthFrom_lt hrooted.nodup_address hmvalues
      (hp.trans (congrArg some haddress.symm)) (hmemAll he) (hmemAll hx)
    refine ⟨x.2, ?_, haddress⟩
    rcases List.mem_append.mp hx with hx | hx
    · exact List.mem_map_of_mem hx
    · have hbehind := (List.pairwise_cons.mp (List.pairwise_append.mp hsorted).2.1).1
      rcases List.mem_cons.mp hx with rfl | hx
      · exact absurd hlt (Nat.lt_irrefl _)
      · exact absurd (hbehind x hx) (Nat.not_le.mpr hlt)
  · intro n hn
    obtain ⟨-, hrole, hnone, -⟩ := hrooted _ _ (hmem n hn)
    rw [hrole, roleOf_eq_hostBridge_iff, hnone]
  · intro n hn hroot m hm hparent
    obtain ⟨-, hrole, -⟩ := hrooted _ _ (hmem n hn)
    obtain ⟨-, hrole', -⟩ := hrooted _ _ (hmem m hm)
    have hany := (any_isHostBridge_of_roleOf (.inl (hrole ▸ hroot))).mp (hrole ▸ hroot)
    rw [hparent] at hany
    rw [hrole', roleOf_eq_hostBridge_iff]
    exact hany
  · intro n hn hport m hm hparent hhost
    obtain ⟨-, hrole, -⟩ := hrooted _ _ (hmem n hn)
    obtain ⟨-, hrole', -⟩ := hrooted _ _ (hmem m hm)
    rw [hrole', roleOf_eq_hostBridge_iff] at hhost
    have hany : n.parent.any isHostBridge := by
      rw [hparent]
      exact hhost
    have hroot := (any_isHostBridge_of_roleOf (.inr (hrole ▸ hport))).mpr hany
    rw [← hrole, hport] at hroot
    cases hroot

/-! ## Two switches in a cascade -/

/-- Nodes that are sorted by their depths are what `read_topology` returns. -/
theorem readTopology_of_pairwise {steps : ℕ} {sources : HardwareSources} {depths : List ℕ}
    {sorted : List (ℕ × PciNode)} {result : List PciNode}
    (hresult : ((readChains sources).foldl
      (fun nodes chain => addChain sources chain.2 nodes none chain.1) OrderedMap.empty).values =
        result)
    (hdepths : result.mapM (fun node => depthFrom result steps node.parent) = some depths)
    (hperm : sorted.Perm (depths.zip result)) (hsorted : sorted.Pairwise fun x y => byDepth x y) :
    readTopology steps sources = some (sorted.map Prod.snd) := by
  have hrooted := rooted_chains sources
  unfold readTopology
  dsimp only
  generalize (readChains sources).foldl
    (fun nodes chain => addChain sources chain.2 nodes none chain.1) OrderedMap.empty = map
    at hrooted hresult
  obtain rfl := hresult
  obtain ⟨hsnd, -⟩ := zip_of_mapM hdepths
  rw [hdepths]
  refine congrArg some (congrArg (List.map Prod.snd) ?_)
  refine ((List.mergeSort_perm _ byDepth).trans hperm.symm).eq_of_pairwise ?_
    (List.pairwise_mergeSort byDepth_trans byDepth_total _) hsorted
  -- Nodes with one address are one node.
  intro x y hx hy hxy hyx
  rw [byDepth_iff] at hxy hyx
  have hmem {z : ℕ × PciNode} (hz : z ∈ depths.zip map.values) : z.2 ∈ map.values :=
    hsnd ▸ List.mem_map_of_mem hz
  have hsame : x.1 = y.1 ∧ x.2.address = y.2.address := by
    rcases hxy with hlt | ⟨heq, hle⟩
    · omega
    · rcases hyx with hlt | ⟨-, hle'⟩
      · omega
      · exact ⟨heq, le_antisymm hle hle'⟩
  exact Prod.ext hsame.1 (List.inj_on_of_nodup_map hrooted.nodup_address
    (hmem ((List.mergeSort_perm _ _).mem_iff.mp hx)) (hmem (hperm.mem_iff.mp hy)) hsame.2)

/-- The directories of a host bridge, a root port, and the ports of a switch and of the one below
it. -/
def cascadeDir : Dir :=
  ["pci0000:00", "0000:00:01.0", "0000:01:00.0", "0000:02:00.0", "0000:03:00.0"]

/-- Two GPUs, each below a downstream port of its own. -/
def cascadeSources : HardwareSources where
  names := ["0000:06:00.0", "0000:07:00.0"]
  link name :=
    if name = "0000:06:00.0" then some (cascadeDir ++ ["0000:04:00.0", "0000:06:00.0"])
    else if name = "0000:07:00.0" then some (cascadeDir ++ ["0000:04:01.0", "0000:07:00.0"])
    else none
  hasInfiniband _ := false
  deviceClass _ := some 0x030200
  vendor _ := some 0x10de
  numaNode _ := none
  runtimeStatus _ := none
  currentLink _ := none
  maxLink _ := none

/-- A node below a host bridge. -/
def cascadeNode (address parent : String) (role : HardwareRole) (kind : Option HardwareKind)
    (path : Dir) : PciNode :=
  ⟨address, some parent, role, kind, path, none, some ⟨none, none⟩⟩

def cascadeHost : PciNode := ⟨"pci0000:00", none, .hostBridge, none, ["pci0000:00"], none, none⟩

def cascadeRoot : PciNode :=
  cascadeNode "0000:00:01.0" "pci0000:00" .rootPort none (cascadeDir.take 2)

def cascadeUp : PciNode :=
  cascadeNode "0000:01:00.0" "0000:00:01.0" .switchPort none (cascadeDir.take 3)

def cascadeDown : PciNode :=
  cascadeNode "0000:02:00.0" "0000:01:00.0" .switchPort none (cascadeDir.take 4)

def cascadeNestedUp : PciNode :=
  cascadeNode "0000:03:00.0" "0000:02:00.0" .switchPort none cascadeDir

def cascadeLeft : PciNode :=
  cascadeNode "0000:04:00.0" "0000:03:00.0" .switchPort none (cascadeDir ++ ["0000:04:00.0"])

def cascadeRight : PciNode :=
  cascadeNode "0000:04:01.0" "0000:03:00.0" .switchPort none (cascadeDir ++ ["0000:04:01.0"])

def cascadeLeftGpu : PciNode :=
  cascadeNode "0000:06:00.0" "0000:04:00.0" .endpoint (some .gpu)
    (cascadeDir ++ ["0000:04:00.0", "0000:06:00.0"])

def cascadeRightGpu : PciNode :=
  cascadeNode "0000:07:00.0" "0000:04:01.0" .endpoint (some .gpu)
    (cascadeDir ++ ["0000:04:01.0", "0000:07:00.0"])

def cascadeNodes : List PciNode :=
  [cascadeHost, cascadeRoot, cascadeUp, cascadeDown, cascadeNestedUp, cascadeLeft, cascadeRight,
    cascadeLeftGpu, cascadeRightGpu]

/-- The nodes of the cascade in the order in which they are added. -/
def cascadeValues : List PciNode :=
  [cascadeHost, cascadeRoot, cascadeUp, cascadeDown, cascadeNestedUp, cascadeLeft, cascadeLeftGpu,
    cascadeRight, cascadeRightGpu]

theorem readTopology_cascade : readTopology 9 cascadeSources = some cascadeNodes := by
  have hvalues : ((readChains cascadeSources).foldl
      (fun nodes chain => addChain cascadeSources chain.2 nodes none chain.1)
        OrderedMap.empty).values = cascadeValues := by decide +kernel
  have hdepths : cascadeValues.mapM (fun node => depthFrom cascadeValues 9 node.parent) =
      some [0, 1, 2, 3, 4, 5, 6, 5, 6] := by decide +kernel
  have hperm : ([0, 1, 2, 3, 4, 5, 5, 6, 6].zip cascadeNodes).Perm
      ([0, 1, 2, 3, 4, 5, 6, 5, 6].zip cascadeValues) := by decide +kernel
  exact readTopology_of_pairwise hvalues hdepths hperm (by decide +kernel)

end Procinsh.Hardware
