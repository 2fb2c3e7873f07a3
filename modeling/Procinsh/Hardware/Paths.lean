import Procinsh.Foundation.Deduplication
import Procinsh.Foundation.Lineage
import Procinsh.Hardware.Forest

/-!
# Paths between devices

`build_hardware_paths` (`src/http_server/analysis/hardware/paths.rs`) finds the path between every pair
of endpoints from the chains of their ancestors.  A result is missing where the source would slice
out of range, or follow parents without end.
-/

namespace Procinsh.Hardware

open Ipc

/-! ## The paths -/

/-- `items[start..stop]` -/
def slice {α : Type} (items : List α) (start stop : ℕ) : Option (List α) :=
  if start ≤ stop ∧ stop ≤ items.length then some ((items.drop start).take (stop - start)) else none

/-- The place of a floating point number in the order of `total_cmp`. -/
def totalKey (x : F64) : ℤ :=
  if x.bits.toNat < 2 ^ 63 then x.bits.toNat else -((x.bits.toNat - 2 ^ 63 : ℕ) : ℤ) - 1

/-- The first of the items with the smallest key. -/
def minBy {α : Type} (key : α → ℤ) : List α → Option α
  | [] => none
  | x :: l => some (l.foldl (fun m y => if key y < key m then y else m) x)

/-- The node with an address; the last one, if there are several. -/
def byAddress (nodes : List PciNode) (address : String) : Option PciNode :=
  nodes.reverse.find? fun n => n.address = address

/-- The parent of a node among the nodes. -/
def parentOf (nodes : List PciNode) (n : PciNode) : Option PciNode :=
  n.parent.bind (byAddress nodes)

/-- A node and its ancestors, unless there are more than are followed. -/
def climb (nodes : List PciNode) : ℕ → PciNode → Option (List PciNode)
  | steps, n =>
    match parentOf nodes n, steps with
    | none, _ => some [n]
    | some _, 0 => none
    | some p, steps + 1 => (climb nodes steps p).map (n :: ·)

/-- The ancestors of a node from the root down to itself. -/
def chain (nodes : List PciNode) (n : PciNode) : Option (List PciNode) :=
  (climb nodes nodes.length n).map List.reverse

/-- The number of ancestors that two chains begin with. -/
def commonCount (ca cb : List PciNode) : ℕ :=
  ((ca.zip cb).takeWhile fun e => e.1.address = e.2.address).length

/-- With one online NUMA node, devices without a NUMA node share it. -/
def numaOf (numaNodes : ℕ) (n : PciNode) : Option UInt32 :=
  n.numaNode.or (if numaNodes ≤ 1 then some 0 else none)

/-- The address by which the switch of a port is known. -/
def switchOf (nodes : List PciNode) (n : PciNode) : String :=
  match parentOf nodes n with
  | some p => if p.role = .switchPort then p.address else n.address
  | none => n.address

/-- Adds the switch of a node that is a port. -/
def addSwitch (nodes : List PciNode) (switches : List String) (n : PciNode) : List String :=
  if n.role ≠ .switchPort then switches
  else if switchOf nodes n ∈ switches then switches
  else switches ++ [switchOf nodes n]

/-- How a path crosses the topology. -/
def pathClass (nodes : List PciNode) (numaNodes : ℕ) (a b : PciNode) (ca cb : List PciNode)
    (common : ℕ) : Option PathClass :=
  if common = 0 then
    some (if (numaOf numaNodes a).isSome ∧ numaOf numaNodes a = numaOf numaNodes b then .node
      else .sys)
  else do
    let top ← ca[common - 1]?
    if top.role = .hostBridge then
      return .phb
    else
      let climbed ← slice ca (common - 1) (ca.length - 1)
      let descended ← slice cb common (cb.length - 1)
      let switches := (climbed ++ descended).foldl (addSwitch nodes) []
      return if switches.length ≤ 1 then .pix else .pxb

/-- The path between two endpoints. -/
def pathBetween (bandwidth : PcieLink → F64) (nodes : List PciNode) (numaNodes : ℕ)
    (a b : PciNode) : Option HardwarePath := do
  let ca ← chain nodes a
  let cb ← chain nodes b
  let common := commonCount ca cb
  let up ← slice ca (max common 1) ca.length
  let down ← slice cb (max common 1) cb.length
  let climbed ← slice ca (common - 1) (ca.length - 1)
  let below := if common = 0 then 0 else common
  let descended ← slice cb below (cb.length - 1)
  let pathClass ← pathClass nodes numaNodes a b ca cb common
  return {
    id := a.address ++ "/" ++ b.address
    a := a.address
    b := b.address
    pathClass := pathClass
    via := climbed.reverse.map PciNode.address ++ descended.map PciNode.address
    bottleneck := minBy (fun link => totalKey (bandwidth link))
      ((up ++ down).filterMap fun n => n.link.bind PcieLinkInfo.current) }

/-- Each item with each one behind it. -/
def pairs {α : Type} : List α → List (α × α)
  | [] => []
  | a :: rest => rest.map (a, ·) ++ pairs rest

/-- The nodes that paths are between. -/
def endpoints (nodes : List PciNode) : List PciNode := nodes.filter fun n => n.role = .endpoint

/-- Paths between every pair of endpoints. -/
def buildHardwarePaths (bandwidth : PcieLink → F64) (nodes : List PciNode) (numaNodes : ℕ) :
    Option (List HardwarePath) :=
  (pairs (endpoints nodes)).mapM fun pair => pathBetween bandwidth nodes numaNodes pair.1 pair.2

/-! ## The smallest key -/

theorem minBy_eq_none_iff {α : Type} {key : α → ℤ} {l : List α} : minBy key l = none ↔ l = [] := by
  cases l with
  | nil => exact iff_of_true rfl rfl
  | cons x l => exact iff_of_false (Option.some_ne_none _) (List.cons_ne_nil x l)

/-- The first of the items with the smallest key is an item, and no key is smaller. -/
theorem minBy_eq_some {α : Type} {key : α → ℤ} {l : List α} {m : α} (h : minBy key l = some m) :
    m ∈ l ∧ ∀ y ∈ l, key m ≤ key y := by
  have hstep (l : List α) (x : α) :
      (l.foldl (fun m y => if key y < key m then y else m) x ∈ x :: l) ∧
        ∀ y ∈ x :: l, key (l.foldl (fun m y => if key y < key m then y else m) x) ≤ key y := by
    induction l generalizing x with
    | nil => exact ⟨List.mem_cons_self, fun y hy => by rw [List.mem_singleton.mp hy]; exact le_rfl⟩
    | cons z l ih =>
      obtain ⟨hmem, hle⟩ := ih (if key z < key x then z else x)
      obtain ⟨hhead, hrest⟩ := List.forall_mem_cons.mp hle
      rw [List.foldl_cons]
      generalize l.foldl (fun m y => if key y < key m then y else m)
        (if key z < key x then z else x) = m at hmem hhead hrest ⊢
      split at hmem
      · next hlt =>
        rw [if_pos hlt] at hhead
        refine ⟨List.mem_cons_of_mem _ hmem, List.forall_mem_cons.mpr ⟨hhead.trans hlt.le, ?_⟩⟩
        exact List.forall_mem_cons.mpr ⟨hhead, hrest⟩
      · next hle =>
        rw [if_neg hle] at hhead
        refine ⟨List.cons_subset_cons _ (List.subset_cons_self z l) hmem,
          List.forall_mem_cons.mpr ⟨hhead, List.forall_mem_cons.mpr ⟨?_, hrest⟩⟩⟩
        exact hhead.trans (not_lt.mp hle)
  cases l with
  | nil => cases h
  | cons x l =>
    obtain rfl := Option.some.inj h
    exact hstep l x

/-! ## Chains of ancestors -/

section Chains

variable {nodes : List PciNode}

theorem slice_append {α : Type} (x y : List α) :
    slice (x ++ y) x.length (x ++ y).length = some y := by
  have hin : x.length ≤ (x ++ y).length := by
    rw [List.length_append]
    omega
  rw [slice, if_pos ⟨hin, le_rfl⟩, List.drop_left, List.take_of_length_le]
  rw [List.length_append]
  omega

theorem slice_append_dropLast {α : Type} (x : List α) {y : List α} (hy : y ≠ []) :
    slice (x ++ y) x.length ((x ++ y).length - 1) = some y.dropLast := by
  have hpos := List.length_pos_iff.mpr hy
  have hlength : (x ++ y).length - 1 - x.length = y.length - 1 := by
    rw [List.length_append]
    omega
  have hin : x.length ≤ (x ++ y).length - 1 ∧ (x ++ y).length - 1 ≤ (x ++ y).length := by
    rw [List.length_append]
    omega
  rw [slice, if_pos hin, List.drop_left, hlength, List.dropLast_eq_take]

theorem Topology.byAddress (h : Topology nodes) {m : PciNode} (hm : m ∈ nodes) :
    byAddress nodes m.address = some m := by
  rw [Hardware.byAddress]
  cases hfound : nodes.reverse.find? fun n => n.address = m.address with
  | none =>
    exact absurd (decide_eq_true rfl) (List.find?_eq_none.mp hfound m (List.mem_reverse.mpr hm))
  | some k =>
    have hk := List.mem_reverse.mp (List.mem_of_find?_eq_some hfound)
    exact congrArg some (List.inj_on_of_nodup_map h.distinct hk hm
      (of_decide_eq_true (List.find?_some hfound :)))

/-- The parent of a node is the node that it names. -/
theorem Topology.parentOf_eq_some_iff (h : Topology nodes) {n m : PciNode} (hn : n ∈ nodes) :
    parentOf nodes n = some m ↔ m ∈ nodes ∧ n.parent = some m.address := by
  rw [parentOf, Option.bind_eq_some_iff]
  constructor
  · rintro ⟨p, hp, hm⟩
    obtain ⟨before, after, hsplit⟩ := List.append_of_mem hn
    obtain ⟨k, hk, rfl⟩ := h.ordered before n after hsplit p hp
    have hmem : k ∈ nodes := hsplit ▸ List.mem_append_left _ hk
    rw [h.byAddress hmem] at hm
    obtain rfl := Option.some.inj hm
    exact ⟨hmem, hp⟩
  · rintro ⟨hm, hp⟩
    exact ⟨m.address, hp, h.byAddress hm⟩

theorem Topology.parentOf_eq_none_iff (h : Topology nodes) {n : PciNode} (hn : n ∈ nodes) :
    parentOf nodes n = none ↔ n.parent = none := by
  constructor
  · intro hnone
    cases hp : n.parent with
    | none => rfl
    | some p =>
      obtain ⟨before, after, hsplit⟩ := List.append_of_mem hn
      obtain ⟨m, hm, rfl⟩ := h.ordered before n after hsplit p hp
      have hsome := (h.parentOf_eq_some_iff hn).mpr ⟨hsplit ▸ List.mem_append_left _ hm, hp⟩
      rw [hnone] at hsome
      cases hsome
  · intro hnone
    rw [parentOf, hnone]
    rfl

/-- Following the parents of a node ends within the nodes before it. -/
theorem Topology.climb (h : Topology nodes) {before after : List PciNode} {n : PciNode}
    (hsplit : nodes = before ++ n :: after) {steps : ℕ} (hsteps : before.length ≤ steps) :
    ∃ l, climb nodes steps n = some l ∧ IsLineage (parentOf nodes) l.reverse ∧
      l.head? = some n ∧ ∀ x ∈ l, x ∈ before ++ [n] := by
  induction hlength : before.length using Nat.strong_induction_on
    generalizing before n after steps with
  | h length ih =>
    have hn : n ∈ nodes := hsplit ▸ List.mem_append_right _ List.mem_cons_self
    cases hparent : parentOf nodes n with
    | none =>
      refine ⟨[n], ?_, .singleton hparent, rfl, fun x hx => List.mem_append_right _ hx⟩
      unfold Hardware.climb
      rw [hparent]
    | some m =>
      obtain ⟨-, hp⟩ := (h.parentOf_eq_some_iff hn).mp hparent
      obtain ⟨k, hk, haddress⟩ := h.ordered before n after hsplit m.address hp
      have hkm : parentOf nodes n = some k := (h.parentOf_eq_some_iff hn).mpr
        ⟨hsplit ▸ List.mem_append_left _ hk, hp.trans (congrArg some haddress.symm)⟩
      obtain rfl : k = m := Option.some.inj (hkm.symm.trans hparent)
      obtain ⟨first, last, rfl⟩ := List.append_of_mem hk
      have hsplit' : nodes = first ++ k :: (last ++ n :: after) := by
        rw [hsplit, List.append_assoc]
        rfl
      rw [List.length_append, List.length_cons] at hlength hsteps
      obtain ⟨steps, rfl⟩ := Nat.exists_eq_succ_of_ne_zero (show steps ≠ 0 by omega)
      obtain ⟨l, hl, hlineage, hhead, hmem⟩ := ih first.length (by omega) hsplit'
        (show first.length ≤ steps by omega) rfl
      refine ⟨n :: l, ?_, ?_, rfl, ?_⟩
      · unfold Hardware.climb
        rw [hparent]
        dsimp only
        rw [hl]
        rfl
      · rw [List.reverse_cons]
        exact IsLineage.concat_iff.mpr ⟨hlineage, by rw [List.getLast?_reverse, hhead, hparent]⟩
      · intro x hx
        rcases List.mem_cons.mp hx with rfl | hx
        · exact List.mem_append_right _ (List.mem_singleton_self x)
        · have hx := hmem x hx
          rw [List.mem_append] at hx ⊢
          refine .inl (List.mem_append.mpr (hx.imp_right fun hx => ?_))
          obtain rfl := List.mem_singleton.mp hx
          exact List.mem_cons_self

/-- The chain of a node is its lineage, and does not go behind it in the list. -/
theorem Topology.chain (h : Topology nodes) {before after : List PciNode} {n : PciNode}
    (hsplit : nodes = before ++ n :: after) :
    ∃ c, chain nodes n = some c ∧ IsLineage (parentOf nodes) c ∧ c.getLast? = some n ∧
      ∀ x ∈ c, x ∈ before ++ [n] := by
  have hlength : before.length ≤ nodes.length := by
    rw [hsplit, List.length_append]
    omega
  obtain ⟨l, hl, hlineage, hhead, hmem⟩ := h.climb hsplit hlength
  refine ⟨l.reverse, ?_, hlineage, ?_, fun x hx => hmem x (List.mem_reverse.mp hx)⟩
  · rw [Hardware.chain, hl]
    rfl
  · rw [List.getLast?_reverse, hhead]

end Chains

end Procinsh.Hardware
