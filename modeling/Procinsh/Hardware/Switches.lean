import Mathlib.Data.Finset.Card
import Procinsh.Hardware.TreePaths

/-!
# Counting the switches of a path

A switch is an upstream port with the downstream ports below it.  `build_hardware_paths` knows a switch
by its upstream port, and takes for that the parent of a port wherever the parent is a switch port,
too.  For the upstream port of a switch below another switch that is the downstream port above, so
that the ports of such a switch count as two switches when a path crosses both kinds of them.
-/

namespace Procinsh.Hardware

open Ipc

/-! ## Switches -/

/-- An upstream port: a switch port below a root port, or below the downstream port of another
switch. -/
inductive IsUpstream (nodes : List PciNode) : PciNode → Prop
  | root {n p : PciNode} (hport : n.role = .switchPort) (hparent : parentOf nodes n = some p)
      (hroot : p.role = .rootPort) : IsUpstream nodes n
  | nested {n d u : PciNode} (hport : n.role = .switchPort) (hparent : parentOf nodes n = some d)
      (hdown : d.role = .switchPort) (hswitch : parentOf nodes d = some u)
      (hup : IsUpstream nodes u) : IsUpstream nodes n

/-- A downstream port: a switch port below the upstream port of its switch. -/
def IsDownstreamOf (nodes : List PciNode) (n u : PciNode) : Prop :=
  n.role = .switchPort ∧ parentOf nodes n = some u ∧ IsUpstream nodes u

/-- A port belongs to the switch with an upstream port. -/
def BelongsTo (nodes : List PciNode) (n u : PciNode) : Prop :=
  IsUpstream nodes u ∧ (n = u ∨ IsDownstreamOf nodes n u)

/-- The ports among the nodes belong to at most one switch. -/
def AtMostOneSwitch (nodes ns : List PciNode) : Prop :=
  ∀ n ∈ ns, ∀ m ∈ ns, ∀ u v, BelongsTo nodes n u → BelongsTo nodes m v → u = v

/-- Endpoints have nothing below them. -/
def EndpointsAreLeaves (nodes : List PciNode) : Prop :=
  ∀ n ∈ nodes, ∀ m ∈ nodes, n.parent = some m.address → m.role ≠ .endpoint

section Ports

variable {nodes : List PciNode} {n m p u : PciNode}

theorem IsUpstream.role_eq (h : IsUpstream nodes n) : n.role = .switchPort := by
  cases h with
  | root hport => exact hport
  | nested hport => exact hport

/-- An upstream port is no downstream port. -/
theorem IsUpstream.not_isDownstreamOf (h : IsUpstream nodes n) : ¬ IsDownstreamOf nodes n u := by
  induction h generalizing u with
  | root hport hparent hroot =>
    rintro ⟨-, hparent', hup⟩
    obtain rfl := Option.some.inj (hparent.symm.trans hparent')
    rw [hup.role_eq] at hroot
    cases hroot
  | nested hport hparent hdown hswitch hup ih =>
    rintro ⟨-, hparent', hd⟩
    obtain rfl := Option.some.inj (hparent.symm.trans hparent')
    cases hd with
    | root _ hp hroot =>
      obtain rfl := Option.some.inj (hswitch.symm.trans hp)
      rw [hup.role_eq] at hroot
      cases hroot
    | nested _ hp hdown' hp' hup' =>
      obtain rfl := Option.some.inj (hswitch.symm.trans hp)
      exact ih ⟨hdown', hp', hup'⟩

theorem BelongsTo.role_eq (h : BelongsTo nodes n u) : n.role = .switchPort := by
  obtain ⟨hup, rfl | hdown⟩ := h
  · exact hup.role_eq
  · exact hdown.1

/-- A port belongs to one switch. -/
theorem BelongsTo.unique {v : PciNode} (h : BelongsTo nodes n u) (h' : BelongsTo nodes n v) :
    u = v := by
  obtain ⟨hu, rfl | hdown⟩ := h
  · obtain ⟨-, rfl | hdown'⟩ := h'
    · rfl
    · exact absurd hdown' hu.not_isDownstreamOf
  · obtain ⟨hv, rfl | hdown'⟩ := h'
    · exact absurd hdown hv.not_isDownstreamOf
    · exact Option.some.inj (hdown.2.1.symm.trans hdown'.2.1)

/-- A parent comes first. -/
theorem Topology.idxOf_lt (h : Topology nodes) (hn : n ∈ nodes)
    (hparent : parentOf nodes n = some p) : nodes.idxOf p < nodes.idxOf n := by
  obtain ⟨before, after, hsplit⟩ := List.append_of_mem hn
  obtain ⟨hp, haddress⟩ := (h.parentOf_eq_some_iff hn).mp hparent
  obtain ⟨m, hm, hmp⟩ := h.ordered before n after hsplit p.address haddress
  obtain rfl : m = p := List.inj_on_of_nodup_map h.distinct
    (hsplit ▸ List.mem_append_left _ hm) hp hmp
  have hnodup : (before ++ n :: after).Nodup := hsplit ▸ List.Nodup.of_map _ h.distinct
  have hnot : n ∉ before := fun hmem =>
    List.disjoint_of_nodup_append hnodup hmem List.mem_cons_self
  rw [hsplit, List.idxOf_append_of_mem hm, List.idxOf_append_of_notMem hnot, List.idxOf_cons_self]
  exact Nat.lt_of_lt_of_le (List.idxOf_lt_length_iff.mpr hm) (Nat.le_add_right _ _)

/-- What is above a port: a root port or a switch port. -/
theorem Topology.exists_parent (h : Topology nodes) (hleaves : EndpointsAreLeaves nodes)
    (hn : n ∈ nodes) (hport : n.role = .switchPort) :
    ∃ p ∈ nodes, parentOf nodes n = some p ∧ (p.role = .rootPort ∨ p.role = .switchPort) := by
  cases hparent : parentOf nodes n with
  | none =>
    have hhost := (h.hostBridge_iff n hn).mpr ((h.parentOf_eq_none_iff hn).mp hparent)
    rw [hport] at hhost
    cases hhost
  | some p =>
    obtain ⟨hp, haddress⟩ := (h.parentOf_eq_some_iff hn).mp hparent
    refine ⟨p, hp, rfl, ?_⟩
    cases hrole : p.role with
    | hostBridge => exact absurd hrole (h.switchPort n hn hport p hp haddress)
    | rootPort => exact .inl rfl
    | switchPort => exact .inr rfl
    | endpoint => exact absurd hrole (hleaves n hn p hp haddress)

/-- A port is an upstream port or a downstream port. -/
theorem Topology.isUpstream_or (h : Topology nodes) (hleaves : EndpointsAreLeaves nodes)
    (hn : n ∈ nodes) (hport : n.role = .switchPort) :
    IsUpstream nodes n ∨ ∃ u, IsDownstreamOf nodes n u := by
  induction hidx : nodes.idxOf n using Nat.strong_induction_on generalizing n with
  | h idx ih =>
    obtain ⟨p, hp, hparent, hroot | hswitch⟩ := h.exists_parent hleaves hn hport
    · exact .inl (.root hport hparent hroot)
    · have hlt := h.idxOf_lt hn hparent
      rcases ih (nodes.idxOf p) (hidx ▸ hlt) hp hswitch rfl with hup | ⟨u, -, hu, hup⟩
      · exact .inr ⟨p, hport, hparent, hup⟩
      · exact .inl (.nested hport hparent hswitch hu hup)

/-- Below a switch port the kinds of ports alternate. -/
theorem Topology.isUpstream_iff (h : Topology nodes) (hleaves : EndpointsAreLeaves nodes)
    (hport : n.role = .switchPort) (hp : p ∈ nodes) (hparent : parentOf nodes n = some p)
    (hswitch : p.role = .switchPort) : IsUpstream nodes n ↔ ¬ IsUpstream nodes p := by
  constructor
  · exact fun hup hpup => hup.not_isDownstreamOf ⟨hport, hparent, hpup⟩
  · intro hnot
    obtain ⟨u, -, hu, hup⟩ := (h.isUpstream_or hleaves hp hswitch).resolve_left hnot
    exact .nested hport hparent hswitch hu hup

/-- The switch of a port: the port itself if it is upstream, otherwise its parent. -/
theorem Topology.belongsTo_iff (h : Topology nodes) (hleaves : EndpointsAreLeaves nodes)
    (hn : n ∈ nodes) (hport : n.role = .switchPort) :
    BelongsTo nodes n u ↔ (IsUpstream nodes n ∧ n = u) ∨
      ¬ IsUpstream nodes n ∧ parentOf nodes n = some u := by
  constructor
  · rintro ⟨hup, rfl | hdown⟩
    · exact .inl ⟨hup, rfl⟩
    · exact .inr ⟨fun hn => hn.not_isDownstreamOf hdown, hdown.2.1⟩
  · rintro (⟨hup, rfl⟩ | ⟨hnot, hparent⟩)
    · exact ⟨hup, .inl rfl⟩
    · obtain ⟨v, hdown⟩ := (h.isUpstream_or hleaves hn hport).resolve_left hnot
      obtain rfl := Option.some.inj (hparent.symm.trans hdown.2.1)
      exact ⟨hdown.2.2, .inr hdown⟩

end Ports

/-! ## Switches as they are counted -/

/-- The port by which the switch of a port is known. -/
def portOf (nodes : List PciNode) (n : PciNode) : PciNode :=
  match parentOf nodes n with
  | some p => if p.role = .switchPort then p else n
  | none => n

/-- An upstream port below another switch. -/
def IsNested (nodes : List PciNode) (n : PciNode) : Prop :=
  IsUpstream nodes n ∧ ∃ p, parentOf nodes n = some p ∧ p.role = .switchPort

section Counting

variable {nodes : List PciNode} {n p u : PciNode}

theorem switchOf_eq (nodes : List PciNode) (n : PciNode) :
    switchOf nodes n = (portOf nodes n).address := by
  unfold switchOf portOf
  cases parentOf nodes n with
  | none => rfl
  | some p => exact (apply_ite PciNode.address _ _ _).symm

theorem portOf_of_switchPort (hparent : parentOf nodes n = some p) (hrole : p.role = .switchPort) :
    portOf nodes n = p := by
  unfold portOf
  rw [hparent]
  exact if_pos hrole

theorem portOf_of_ne (hparent : parentOf nodes n = some p) (hrole : p.role ≠ .switchPort) :
    portOf nodes n = n := by
  unfold portOf
  rw [hparent]
  exact if_neg hrole

/-- Except for upstream ports below other switches, ports are counted for the switches that they
belong to. -/
theorem Topology.belongsTo_iff_portOf (h : Topology nodes) (hleaves : EndpointsAreLeaves nodes)
    (hn : n ∈ nodes) (hport : n.role = .switchPort) (hnested : ¬ IsNested nodes n) :
    BelongsTo nodes n u ↔ portOf nodes n = u := by
  rw [h.belongsTo_iff hleaves hn hport]
  obtain ⟨p, hp, hparent, hrole⟩ := h.exists_parent hleaves hn hport
  rcases hrole with hroot | hswitch
  · have hup : IsUpstream nodes n := .root hport hparent hroot
    have hne : p.role ≠ .switchPort := by
      rw [hroot]
      exact HardwareRole.noConfusion
    rw [portOf_of_ne hparent hne]
    exact ⟨fun hor => hor.elim And.right fun hnot => absurd hup hnot.1, fun heq => .inl ⟨hup, heq⟩⟩
  · have hnot : ¬ IsUpstream nodes n := fun hup => hnested ⟨hup, p, hparent, hswitch⟩
    rw [portOf_of_switchPort hparent hswitch, hparent, Option.some_inj]
    exact ⟨fun hor => hor.elim (fun hup => absurd hup.1 hnot) And.right, fun heq => .inr ⟨hnot, heq⟩⟩

/-- All ports among the nodes are counted for one switch. -/
def CountedOnce (nodes ns : List PciNode) : Prop :=
  ∀ n ∈ ns, n.role = .switchPort → ∀ m ∈ ns, m.role = .switchPort → portOf nodes n = portOf nodes m

/-- The switches that are counted are those of the ports, each once. -/
theorem foldl_addSwitch (nodes ns : List PciNode) :
    (ns.foldl (addSwitch nodes) []).Nodup ∧ ∀ s, s ∈ ns.foldl (addSwitch nodes) [] ↔
      ∃ n ∈ ns, n.role = .switchPort ∧ switchOf nodes n = s := by
  induction ns using List.reverseRecOn with
  | nil =>
    refine ⟨List.nodup_nil, fun s => iff_of_false List.not_mem_nil ?_⟩
    rintro ⟨n, hn, -⟩
    cases hn
  | append_singleton ns n ih =>
    obtain ⟨hnodup, hmem⟩ := ih
    rw [List.foldl_append, List.foldl_cons, List.foldl_nil]
    generalize ns.foldl (addSwitch nodes) [] = switches at hnodup hmem ⊢
    have hor (s : String) : (∃ m ∈ ns ++ [n], m.role = .switchPort ∧ switchOf nodes m = s) ↔
        s ∈ switches ∨ n.role = .switchPort ∧ switchOf nodes n = s := by
      rw [hmem]
      simp only [List.mem_append, List.mem_singleton, or_and_right, exists_or, exists_eq_left]
    simp only [hor]
    unfold addSwitch
    split
    · next hrole => exact ⟨hnodup, fun s => ⟨.inl, fun hs => hs.resolve_right fun hn => hrole hn.1⟩⟩
    · next hrole =>
      have hrole := not_not.mp hrole
      split
      · next hin =>
        refine ⟨hnodup, fun s => ⟨.inl, fun hs => hs.elim id ?_⟩⟩
        rintro ⟨-, rfl⟩
        exact hin
      · next hnew =>
        refine ⟨List.nodup_append.mpr ⟨hnodup, List.nodup_singleton _, ?_⟩, fun s => ?_⟩
        · rintro s hs _ ht rfl
          exact hnew (List.mem_singleton.mp ht ▸ hs)
        · rw [List.mem_append, List.mem_singleton]
          exact or_congr_right ⟨fun hs => ⟨hrole, hs.symm⟩, fun hs => hs.2.symm⟩

theorem Topology.portOf_mem (h : Topology nodes) (hn : n ∈ nodes) : portOf nodes n ∈ nodes := by
  unfold portOf
  cases hparent : parentOf nodes n with
  | none => exact hn
  | some p =>
    dsimp only
    split
    · exact ((h.parentOf_eq_some_iff hn).mp hparent).1
    · exact hn

/-- At most one switch is counted if all ports have the same. -/
theorem Topology.length_foldl_addSwitch_le_one_iff (h : Topology nodes) {ns : List PciNode}
    (hmem : ∀ n ∈ ns, n ∈ nodes) :
    (ns.foldl (addSwitch nodes) []).length ≤ 1 ↔ CountedOnce nodes ns := by
  obtain ⟨hnodup, hswitches⟩ := foldl_addSwitch nodes ns
  rw [← List.toFinset_card_of_nodup hnodup, Finset.card_le_one]
  simp only [List.mem_toFinset, hswitches, switchOf_eq]
  constructor
  · intro hone n hn hrole m hm hrole'
    exact List.inj_on_of_nodup_map h.distinct (h.portOf_mem (hmem n hn)) (h.portOf_mem (hmem m hm))
      (hone _ ⟨n, hn, hrole, rfl⟩ _ ⟨m, hm, hrole', rfl⟩)
  · rintro hone _ ⟨n, hn, hrole, rfl⟩ _ ⟨m, hm, hrole', rfl⟩
    exact congrArg _ (hone n hn hrole m hm hrole')

end Counting

/-! ## The ports of a path -/

/-- Nodes below a node, with all that is between. -/
structure IsBelow (nodes : List PciNode) (top : PciNode) (below : List PciNode) : Prop where
  top_mem : top ∈ nodes
  mem : ∀ n ∈ below, n ∈ nodes
  parent : ∀ n ∈ below, ∃ p ∈ top :: below, parentOf nodes n = some p

/-- The upstream port of a switch below another switch, with ports of its own switch only below it,
and some of them. -/
structure IsNestedTop (nodes : List PciNode) (top : PciNode) (below : List PciNode) : Prop where
  nested : IsNested nodes top
  crossed : ∃ n ∈ below, n.role = .switchPort
  children : ∀ n ∈ below, n.role = .switchPort → parentOf nodes n = some top

section Crossing

variable {nodes : List PciNode} {top n : PciNode} {below : List PciNode}

theorem IsBelow.mem_all (hbelow : IsBelow nodes top below) :
    ∀ n ∈ top :: below, n ∈ nodes := List.forall_mem_cons.mpr ⟨hbelow.top_mem, hbelow.mem⟩

/-- What is below a node comes behind it. -/
theorem Topology.idxOf_lt_of_isBelow (h : Topology nodes) (hbelow : IsBelow nodes top below)
    (hn : n ∈ below) : nodes.idxOf top < nodes.idxOf n := by
  induction hidx : nodes.idxOf n using Nat.strong_induction_on generalizing n with
  | h idx ih =>
    obtain ⟨p, hp, hparent⟩ := hbelow.parent n hn
    have hlt := h.idxOf_lt (hbelow.mem n hn) hparent
    rw [hidx] at hlt
    rcases List.mem_cons.mp hp with rfl | hp
    · exact hlt
    · exact (ih _ hlt hp rfl).trans hlt

/-- An upstream port below a switch of the path is counted for a switch of its own, and belongs to
one of its own. -/
theorem Topology.not_one_of_nested (h : Topology nodes) (hleaves : EndpointsAreLeaves nodes)
    (hbelow : IsBelow nodes top below) (hn : n ∈ below) (hnested : IsNested nodes n) :
    ¬ CountedOnce nodes (top :: below) ∧ ¬ AtMostOneSwitch nodes (top :: below) := by
  obtain ⟨hup, p, hparent, hrole⟩ := hnested
  obtain ⟨p', hp, hparent'⟩ := hbelow.parent n hn
  obtain rfl := Option.some.inj (hparent.symm.trans hparent')
  have hpnodes := hbelow.mem_all p hp
  have hnotup := (h.isUpstream_iff hleaves hup.role_eq hpnodes hparent hrole).mp hup
  obtain ⟨u, hdown⟩ := (h.isUpstream_or hleaves hpnodes hrole).resolve_left hnotup
  have hnmem : n ∈ top :: below := List.mem_cons_of_mem _ hn
  have hltp := h.idxOf_lt hpnodes hdown.2.1
  have hltn := h.idxOf_lt (hbelow.mem n hn) hparent
  constructor
  · intro hone
    have heq := hone n hnmem hup.role_eq p hp hrole
    rw [portOf_of_switchPort hparent hrole,
      portOf_of_switchPort hdown.2.1 hdown.2.2.role_eq] at heq
    rw [heq] at hltp
    exact lt_irrefl _ hltp
  · intro hone
    have heq := hone n hnmem p hp n u ⟨hup, .inl rfl⟩ ⟨hdown.2.2, .inr hdown⟩
    rw [heq] at hltn
    exact lt_asymm hltp hltn

/-- Where no port is an upstream port below another switch, switches are counted as they are. -/
theorem Topology.countedOnce_iff (h : Topology nodes) (hleaves : EndpointsAreLeaves nodes)
    {ns : List PciNode} (hmem : ∀ n ∈ ns, n ∈ nodes) (hnone : ∀ n ∈ ns, ¬ IsNested nodes n) :
    CountedOnce nodes ns ↔ AtMostOneSwitch nodes ns := by
  constructor
  · intro hone n hn m hm u v hu hv
    have hn' := (h.belongsTo_iff_portOf hleaves (hmem n hn) hu.role_eq (hnone n hn)).mp hu
    have hm' := (h.belongsTo_iff_portOf hleaves (hmem m hm) hv.role_eq (hnone m hm)).mp hv
    rw [← hn', ← hm']
    exact hone n hn hu.role_eq m hm hv.role_eq
  · intro hone n hn hrole m hm hrole'
    exact hone n hn m hm _ _
      ((h.belongsTo_iff_portOf hleaves (hmem n hn) hrole (hnone n hn)).mpr rfl)
      ((h.belongsTo_iff_portOf hleaves (hmem m hm) hrole' (hnone m hm)).mpr rfl)

/-- Below an upstream port that is below another switch, no port is counted as it is. -/
theorem Topology.not_countedOnce (h : Topology nodes) (hbelow : IsBelow nodes top below)
    (hnested : IsNested nodes top) (hn : n ∈ below) (hrole : n.role = .switchPort) :
    ¬ CountedOnce nodes (top :: below) := by
  intro hone
  obtain ⟨hup, d, hd, hdrole⟩ := hnested
  have heq := hone n (List.mem_cons_of_mem _ hn) hrole top List.mem_cons_self hup.role_eq
  rw [portOf_of_switchPort hd hdrole] at heq
  have hlt := h.idxOf_lt hbelow.top_mem hd
  obtain ⟨p, hp, hparent⟩ := hbelow.parent n hn
  have hall (m : PciNode) (hm : m ∈ top :: below) : d ≠ m := by
    rintro rfl
    rcases List.mem_cons.mp hm with rfl | hm
    · exact lt_irrefl _ hlt
    · exact lt_asymm hlt (h.idxOf_lt_of_isBelow hbelow hm)
  by_cases hswitch : p.role = .switchPort
  · rw [portOf_of_switchPort hparent hswitch] at heq
    exact hall p hp heq.symm
  · rw [portOf_of_ne hparent hswitch] at heq
    exact hall n (List.mem_cons_of_mem _ hn) heq.symm

/-- Below an upstream port there is one switch if all ports are its own. -/
theorem Topology.atMostOneSwitch_iff (h : Topology nodes) (hleaves : EndpointsAreLeaves nodes)
    (hbelow : IsBelow nodes top below) (hup : IsUpstream nodes top) :
    AtMostOneSwitch nodes (top :: below) ↔
      ∀ n ∈ below, n.role = .switchPort → parentOf nodes n = some top := by
  constructor
  · intro hone n hn hrole
    have hof {u : PciNode} (hu : BelongsTo nodes n u) : u = top :=
      hone n (List.mem_cons_of_mem _ hn) top List.mem_cons_self u top hu ⟨hup, .inl rfl⟩
    rcases h.isUpstream_or hleaves (hbelow.mem n hn) hrole with hnup | ⟨u, hdown⟩
    · have hlt := h.idxOf_lt_of_isBelow hbelow hn
      rw [hof ⟨hnup, .inl rfl⟩] at hlt
      exact absurd hlt (lt_irrefl _)
    · rw [hdown.2.1, hof ⟨hdown.2.2, .inr hdown⟩]
  · intro hall n hn m hm u v hu hv
    have hof {m w : PciNode} (hm : m ∈ top :: below) (hw : BelongsTo nodes m w) : w = top := by
      rcases List.mem_cons.mp hm with rfl | hm
      · exact hw.unique ⟨hup, .inl rfl⟩
      · exact hw.unique ⟨hup, .inr ⟨hw.role_eq, hall m hm hw.role_eq, hup⟩⟩
    rw [hof hn hu, hof hm hv]

/-- Switches are counted right unless the highest port is nested and only its own ports are below. -/
theorem Topology.countedOnce_iff_iff (h : Topology nodes) (hleaves : EndpointsAreLeaves nodes)
    (hbelow : IsBelow nodes top below) :
    (CountedOnce nodes (top :: below) ↔ AtMostOneSwitch nodes (top :: below)) ↔
      ¬ IsNestedTop nodes top below := by
  by_cases hany : ∃ n ∈ below, IsNested nodes n
  · obtain ⟨n, hn, hnested⟩ := hany
    obtain ⟨hcounted, hone⟩ := h.not_one_of_nested hleaves hbelow hn hnested
    refine iff_of_true (iff_of_false hcounted hone) fun htop => ?_
    have hchild := htop.children n hn hnested.1.role_eq
    exact hnested.1.not_isDownstreamOf ⟨hnested.1.role_eq, hchild, htop.nested.1⟩
  · have hnone : ∀ n ∈ below, ¬ IsNested nodes n := fun n hn hnested => hany ⟨n, hn, hnested⟩
    by_cases htop : IsNested nodes top
    · by_cases hport : ∃ n ∈ below, n.role = .switchPort
      · obtain ⟨n, hn, hrole⟩ := hport
        have hcounted := h.not_countedOnce hbelow htop hn hrole
        rw [iff_false_left hcounted, h.atMostOneSwitch_iff hleaves hbelow htop.1]
        exact not_congr ⟨fun hall => ⟨htop, ⟨n, hn, hrole⟩, hall⟩, IsNestedTop.children⟩
      · have honly {n : PciNode} (hn : n ∈ top :: below) (hrole : n.role = .switchPort) : n = top :=
          (List.mem_cons.mp hn).resolve_right fun hn => hport ⟨n, hn, hrole⟩
        refine iff_of_true (iff_of_true ?_ ?_) fun hnested => hport hnested.crossed
        · intro n hn hrole m hm hrole'
          rw [honly hn hrole, honly hm hrole']
        · rw [h.atMostOneSwitch_iff hleaves hbelow htop.1]
          exact fun n hn hrole => absurd ⟨n, hn, hrole⟩ hport
    · exact iff_of_true (h.countedOnce_iff hleaves hbelow.mem_all
        (List.forall_mem_cons.mpr ⟨htop, hnone⟩)) fun hnested => htop hnested.nested

end Crossing

end Procinsh.Hardware
