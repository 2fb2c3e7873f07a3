import Mathlib.Data.List.Nodup
import Procinsh.Foundation.Ancestry
import Procinsh.Space.PackedTrees
import Procinsh.Space.ProcessCycles

/-!
# Blocks of trees

What `pack` and `build` keep of a block: it holds whole subtrees, depths count from its roots, every
process lies below its parent and apart from the others, with room around it within the block, and
subtrees below one process with descendants are side by side.
-/

namespace Procinsh.Space.ProcessLayout

variable {K : Type} [Field K] [LinearOrder K] {forest : Forest K}

/-- The place as a point. -/
def TreePosition.point (place : TreePosition K) : K × K := (place.x, place.y)

/-- A process that other processes of the block hang below, but that hangs below none. -/
def PackedTree.IsRoot (block : PackedTree K) (id : String) : Prop :=
  ∃ e ∈ block.positions.entries, e.1 = id ∧ e.2.depth = 0

/-- The subtree below `c` is on the left of that below `d`. -/
def LeftOf (parent : String → Option String) (entries : List (String × TreePosition K))
    (c d : String) : Prop :=
  ∀ e ∈ entries, ∀ f ∈ entries, Reaches parent e.1 c → Reaches parent f.1 d → e.2.x < f.2.x

/-- The subtrees below `c` and `d` occupy disjoint horizontal ranges. -/
def SideBySide (parent : String → Option String) (entries : List (String × TreePosition K))
    (c d : String) : Prop :=
  LeftOf parent entries c d ∨ LeftOf parent entries d c

/-- The subtrees of those children of a process that have descendants are side by side. -/
def BranchesBeside (parent : String → Option String) (entries : List (String × TreePosition K))
    (a : String) : Prop :=
  ∀ c d, c ≠ d → parent c = some a → parent d = some a → (∃ x, parent x = some c) →
    (∃ x, parent x = some d) → SideBySide parent entries c d

/-- A well-formed block. -/
structure IsBlock (forest : Forest K) (block : PackedTree K) : Prop where
  width_nonneg : 0 ≤ block.width
  height_nonneg : 0 ≤ block.height
  /-- The block holds whole subtrees. -/
  mem_keys : ∀ id, id ∈ block.keys ↔
    ∃ r, block.IsRoot r ∧ Reaches (parentOf forest.parents) id r
  parent : ∀ e ∈ block.positions.entries, e.2.parent = parentOf forest.parents e.1
  linked : ∀ e ∈ block.positions.entries, e.2.depth ≠ 0 →
    ∃ above ∈ block.positions.entries, parentOf forest.parents e.1 = some above.1 ∧
      e.2.depth = above.2.depth + 1 ∧ above.2.y + forest.yGap ≤ e.2.y
  inside : ∀ e ∈ block.positions.entries,
    Box.Holds forest.xGap forest.yGap ⟨0, 0, block.width, block.height⟩ e.2.point
  apart : block.positions.entries.Pairwise fun e f =>
    ApartBy forest.xGap forest.yGap e.2.point f.2.point
  beside : ∀ a ∈ block.keys,
    BranchesBeside (parentOf forest.parents) block.positions.entries a

/-- With a process, a block holds all that is below it. -/
theorem IsBlock.mem_of_reaches {block : PackedTree K} (h : IsBlock forest block) {a b : String}
    (hb : b ∈ block.keys) (hab : Reaches (parentOf forest.parents) a b) : a ∈ block.keys := by
  obtain ⟨r, hr, hbr⟩ := (h.mem_keys b).mp hb
  exact (h.mem_keys a).mpr ⟨r, hr, hab.trans hbr⟩

/-- Subtrees that are side by side are so wherever their processes are moved alike. -/
theorem SideBySide.of_entries [IsStrictOrderedRing K] {parent : String → Option String}
    {entries entries' : List (String × TreePosition K)} {c d : String}
    (h : SideBySide parent entries c d) (dx : K)
    (hmoved : ∀ e' ∈ entries', Reaches parent e'.1 c ∨ Reaches parent e'.1 d →
      ∃ e ∈ entries, e.1 = e'.1 ∧ e'.2.x = e.2.x + dx) : SideBySide parent entries' c d := by
  have hleft {c d : String} (h : LeftOf parent entries c d)
      (hmoved : ∀ e' ∈ entries', Reaches parent e'.1 c ∨ Reaches parent e'.1 d →
        ∃ e ∈ entries, e.1 = e'.1 ∧ e'.2.x = e.2.x + dx) : LeftOf parent entries' c d := by
    intro e' he' f' hf' hec hfd
    obtain ⟨e, he, heq, hex⟩ := hmoved e' he' (.inl hec)
    obtain ⟨f, hf, hfeq, hfx⟩ := hmoved f' hf' (.inr hfd)
    have hlt := h e he f hf (heq ▸ hec) (hfeq ▸ hfd)
    rw [hex, hfx]
    exact add_lt_add_left hlt dx
  exact h.imp (fun h => hleft h hmoved) fun h => hleft h fun e he he' => hmoved e he he'.symm

/-! ## Packing blocks -/

section Packing

variable {gap : K} {wrapRows : Bool} {block : PackedTree K} {placed : List (Placed K)}

/-- The entries of a packed block are those of its blocks, moved. -/
theorem IsPacking.mem_entries (hpacking : IsPacking gap wrapRows block placed)
    {x : String × TreePosition K} :
    x ∈ block.positions.entries ↔ ∃ e ∈ placed, ∃ y ∈ e.1.positions.entries,
      x = (y.1, { y.2 with x := y.2.x + e.box.x, y := y.2.y + e.box.y }) := by
  rw [hpacking.entries, List.mem_flatMap]
  constructor
  · rintro ⟨e, he, hx⟩
    obtain ⟨y, hy, rfl⟩ := List.mem_map.mp hx
    exact ⟨e, he, y, hy, rfl⟩
  · rintro ⟨e, he, y, hy, rfl⟩
    exact ⟨e, he, List.mem_map.mpr ⟨y, hy, rfl⟩⟩

theorem IsPacking.mem_keys (hpacking : IsPacking gap wrapRows block placed) {id : String} :
    id ∈ block.keys ↔ ∃ e ∈ placed, id ∈ e.1.keys := by
  rw [PackedTree.keys, hpacking.entries, map_fst_flatMap_entries, List.flatMap_map,
    List.mem_flatMap]

theorem IsPacking.isRoot_iff (hpacking : IsPacking gap wrapRows block placed) {id : String} :
    block.IsRoot id ↔ ∃ e ∈ placed, e.1.IsRoot id := by
  constructor
  · rintro ⟨x, hx, rfl, hdepth⟩
    obtain ⟨e, he, y, hy, rfl⟩ := hpacking.mem_entries.mp hx
    exact ⟨e, he, y, hy, rfl, hdepth⟩
  · rintro ⟨e, he, y, hy, rfl, hdepth⟩
    exact ⟨_, hpacking.mem_entries.mpr ⟨e, he, y, hy, rfl⟩, rfl, hdepth⟩

/-- The block that a process is in has its entry. -/
theorem IsPacking.exists_of_mem_keys (hpacking : IsPacking gap wrapRows block placed)
    {x : String × TreePosition K} (hx : x ∈ block.positions.entries) {e : Placed K}
    (he : e ∈ placed) (hkey : x.1 ∈ e.1.keys) : ∃ y ∈ e.1.positions.entries,
      x = (y.1, { y.2 with x := y.2.x + e.box.x, y := y.2.y + e.box.y }) := by
  obtain ⟨y, hy, hyx⟩ := List.mem_map.mp hkey
  have hmem := hpacking.mem_entries.mpr ⟨e, he, y, hy, rfl⟩
  exact ⟨y, hy, List.inj_on_of_nodup_map block.positions.nodup hx hmem hyx.symm⟩

variable [IsStrictOrderedRing K]

/-- In a packing each box holds the places of its block. -/
theorem IsBlock.holds_moved {e : Placed K} (h : IsBlock forest e.1)
    {y : String × TreePosition K} (hy : y ∈ e.1.positions.entries) :
    e.box.Holds forest.xGap forest.yGap (y.2.x + e.box.x, y.2.y + e.box.y) :=
  (h.inside y hy).move rfl

/-- Blocks that are packed make a block. -/
theorem IsPacking.isBlock (hpacking : IsPacking gap wrapRows block placed) (hgap : 0 ≤ gap)
    (hblocks : ∀ e ∈ placed, IsBlock forest e.1) : IsBlock forest block where
  width_nonneg := hpacking.width_nonneg
  height_nonneg := hpacking.height_nonneg
  mem_keys id := by
    rw [hpacking.mem_keys]
    constructor
    · rintro ⟨e, he, hid⟩
      obtain ⟨r, hr, hreach⟩ := ((hblocks e he).mem_keys id).mp hid
      exact ⟨r, hpacking.isRoot_iff.mpr ⟨e, he, hr⟩, hreach⟩
    · rintro ⟨r, hr, hreach⟩
      obtain ⟨e, he, hr⟩ := hpacking.isRoot_iff.mp hr
      exact ⟨e, he, ((hblocks e he).mem_keys id).mpr ⟨r, hr, hreach⟩⟩
  parent x hx := by
    obtain ⟨e, he, y, hy, rfl⟩ := hpacking.mem_entries.mp hx
    exact (hblocks e he).parent y hy
  linked x hx hdepth := by
    obtain ⟨e, he, y, hy, rfl⟩ := hpacking.mem_entries.mp hx
    obtain ⟨above, habove, hparent, hlevel, hbelow⟩ := (hblocks e he).linked y hy hdepth
    refine ⟨_, hpacking.mem_entries.mpr ⟨e, he, above, habove, rfl⟩, hparent, hlevel, ?_⟩
    dsimp only
    linarith
  inside x hx := by
    obtain ⟨e, he, y, hy, rfl⟩ := hpacking.mem_entries.mp hx
    refine ((hblocks e he).holds_moved hy).within (hpacking.left e he) ?_ (hpacking.top e he) ?_
    · rw [zero_add]
      exact hpacking.right e he
    · rw [zero_add]
      exact hpacking.bottom e he
  apart := by
    rw [hpacking.entries, List.pairwise_flatMap]
    constructor
    · intro e he
      refine List.pairwise_map.mpr ((hblocks e he).apart.imp fun hxy => ?_)
      exact (apartBy_add_right e.2).mpr hxy
    · refine List.Pairwise.imp_of_mem (fun {e f} he hf hef x hx y hy => ?_) hpacking.apart
      obtain ⟨x₀, hx₀, rfl⟩ := List.mem_map.mp hx
      obtain ⟨y₀, hy₀, rfl⟩ := List.mem_map.mp hy
      refine ((hblocks e he).holds_moved hx₀).apartBy ((hblocks f hf).holds_moved hy₀) ?_
      rcases hef with hef | ⟨-, hef⟩
      · exact .inl (by linarith)
      · exact .inr (by linarith)
  beside a ha c d hcd hc hd hbelow hbelow' := by
    obtain ⟨e, he, hae⟩ := hpacking.mem_keys.mp ha
    have hblock := hblocks e he
    have hside := hblock.beside a hae c d hcd hc hd hbelow hbelow'
    refine hside.of_entries e.box.x fun x hx hreach => ?_
    -- What is below a child is in the block of its parent.
    have hkey : x.1 ∈ e.1.keys := by
      rcases hreach with h | h
      · exact hblock.mem_of_reaches hae (h.tail hc)
      · exact hblock.mem_of_reaches hae (h.tail hd)
    obtain ⟨y, hy, rfl⟩ := hpacking.exists_of_mem_keys hx he hkey
    exact ⟨y, hy, rfl, rfl⟩

/-- What packing blocks with different roots of one parent gives. -/
structure Packs (forest : Forest K) (gap : K) (wrapRows : Bool) (layouts : List (PackedTree K))
    (block : PackedTree K) : Prop where
  isBlock : IsBlock forest block
  isRoot_iff : ∀ r, block.IsRoot r ↔ ∃ b ∈ layouts, b.IsRoot r
  packing : ∃ placed, (placed.map Prod.fst).Perm layouts ∧ IsPacking gap wrapRows block placed

omit [IsStrictOrderedRing K] in
/-- Blocks with different roots of one parent have no process in common. -/
theorem nodup_flatMap_keys (hacyclic : ∀ a, ¬ OnCycle (parentOf forest.parents) a)
    {layouts : List (PackedTree K)} (hblocks : ∀ b ∈ layouts, IsBlock forest b)
    (hroots : layouts.Pairwise fun b c => ∀ r, b.IsRoot r → ¬ c.IsRoot r) {q : Option String}
    (hparent : ∀ b ∈ layouts, ∀ r, b.IsRoot r → parentOf forest.parents r = q) :
    (layouts.flatMap PackedTree.keys).Nodup := by
  refine List.nodup_flatMap.mpr ⟨fun b _ => b.positions.nodup, ?_⟩
  refine List.Pairwise.imp_of_mem (fun {b c} hb hc hbc x hxb hxc => ?_) hroots
  obtain ⟨r, hr, hxr⟩ := ((hblocks b hb).mem_keys x).mp hxb
  obtain ⟨s, hs, hxs⟩ := ((hblocks c hc).mem_keys x).mp hxc
  have hrs := eq_of_reaches_of_parent_eq hacyclic
    ((hparent b hb r hr).trans (hparent c hc s hs).symm) hxr hxs
  exact hbc r hr (hrs ▸ hs)

theorem packs_pack (hacyclic : ∀ a, ¬ OnCycle (parentOf forest.parents) a) (hgap : 0 ≤ gap)
    (wrapRows : Bool) {layouts : List (PackedTree K)} (hblocks : ∀ b ∈ layouts, IsBlock forest b)
    (hroots : layouts.Pairwise fun b c => ∀ r, b.IsRoot r → ¬ c.IsRoot r) {q : Option String}
    (hparent : ∀ b ∈ layouts, ∀ r, b.IsRoot r → parentOf forest.parents r = q) :
    Packs forest gap wrapRows layouts (pack forest layouts gap wrapRows) := by
  obtain ⟨placed, hperm, hpacking⟩ := exists_isPacking forest hgap wrapRows
    (fun b hb => (hblocks b hb).width_nonneg) (nodup_flatMap_keys hacyclic hblocks hroots hparent)
  have hmem {b : PackedTree K} : b ∈ layouts ↔ ∃ e ∈ placed, e.1 = b := by
    rw [← hperm.mem_iff, List.mem_map]
  refine ⟨hpacking.isBlock hgap fun e he => hblocks e.1 (hmem.mpr ⟨e, he, rfl⟩), fun r => ?_,
    placed, hperm, hpacking⟩
  rw [hpacking.isRoot_iff]
  constructor
  · rintro ⟨e, he, hr⟩
    exact ⟨e.1, hmem.mpr ⟨e, he, rfl⟩, hr⟩
  · rintro ⟨b, hb, hr⟩
    obtain ⟨e, he, rfl⟩ := hmem.mp hb
    exact ⟨e, he, hr⟩

/-- Without wrapping the blocks are side by side. -/
theorem Packs.sideBySide {layouts : List (PackedTree K)} (hgap : 0 ≤ gap) (hxGap : 0 < forest.xGap)
    (h : Packs forest gap false layouts block) (hblocks : ∀ b ∈ layouts, IsBlock forest b)
    {b b' : PackedTree K} (hb : b ∈ layouts) (hb' : b' ∈ layouts) {c d : String}
    (hc : b.IsRoot c) (hd : b'.IsRoot d) (hbb' : b ≠ b') :
    SideBySide (parentOf forest.parents) block.positions.entries c d := by
  obtain ⟨placed, hperm, hpacking⟩ := h.packing
  obtain ⟨e, he, rfl⟩ := List.mem_map.mp (hperm.mem_iff.mpr hb)
  obtain ⟨f, hf, rfl⟩ := List.mem_map.mp (hperm.mem_iff.mpr hb')
  have hleft {e f : Placed K} (he : e ∈ placed) (hf : f ∈ placed) {c d : String}
      (hbe : IsBlock forest e.1) (hbf : IsBlock forest f.1) (hc : e.1.IsRoot c)
      (hd : f.1.IsRoot d) (hef : e.box.x + e.box.width + gap ≤ f.box.x) :
      LeftOf (parentOf forest.parents) block.positions.entries c d := by
    intro x hx y hy hxc hyd
    obtain ⟨x₀, hx₀, rfl⟩ := hpacking.exists_of_mem_keys hx he
      ((hbe.mem_keys x.1).mpr ⟨c, hc, hxc⟩)
    obtain ⟨y₀, hy₀, rfl⟩ := hpacking.exists_of_mem_keys hy hf
      ((hbf.mem_keys y.1).mpr ⟨d, hd, hyd⟩)
    exact (hbe.holds_moved hx₀).lt_of_beside (hbf.holds_moved hy₀) hxGap (by linarith)
  have hpair := hpacking.apart.imp fun {e f} h => h.resolve_right fun h => Bool.false_ne_true h.1
  rcases rel_or_rel_of_pairwise hpair he hf fun hef => hbb' (hef ▸ rfl) with hef | hfe
  · exact .inl (hleft he hf (hblocks _ hb) (hblocks _ hb') hc hd hef)
  · exact .inr (hleft hf he (hblocks _ hb') (hblocks _ hb) hd hc hfe)

end Packing

end Procinsh.Space.ProcessLayout
