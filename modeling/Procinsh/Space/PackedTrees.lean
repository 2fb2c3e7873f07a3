import Procinsh.Foundation.Plane
import Procinsh.Space.ProcessLayout

/-!
# Packed blocks lie apart

`pack` moves whole blocks: within a row each is put beside the one before, and a new row is put below
all that has been packed.  The shift of a wrapped row moves its blocks, but neither the blocks of a
row against each other nor one row over another.
-/

namespace Procinsh.Space.ProcessLayout

variable {K : Type} [Field K] [LinearOrder K]

/-- The processes of a block. -/
def PackedTree.keys (block : PackedTree K) : List String := block.positions.entries.map Prod.fst

/-- A block and how far it is moved. -/
abbrev Placed (K : Type) := PackedTree K × K × K

/-- The box of a block that is moved. -/
def Placed.box (e : Placed K) : Box K := ⟨e.2.1, e.2.2, e.1.width, e.1.height⟩

/-- The entries of a block that is moved. -/
def Placed.entries (e : Placed K) : List (String × TreePosition K) := shifted e.1 e.2.1 e.2.2

omit [LinearOrder K] in
@[simp] theorem map_fst_shifted (block : PackedTree K) (dx dy : K) :
    (shifted block dx dy).map Prod.fst = block.keys := by
  rw [shifted, List.map_map]
  rfl

omit [LinearOrder K] in
theorem map_fst_flatMap_entries (placed : List (Placed K)) :
    (placed.flatMap Placed.entries).map Prod.fst =
      (placed.map Prod.fst).flatMap PackedTree.keys := by
  rw [List.map_flatMap, List.flatMap_map]
  exact congrArg (fun f => placed.flatMap f) (funext fun e => map_fst_shifted e.1 e.2.1 e.2.2)

/-! ## Balancing -/

/-- What is on both sides. -/
def Sides.all (sides : Sides K) : List (PackedTree K) := sides.left ++ sides.right

theorem Sides.all_push (gap : K) (sides : Sides K) (layout : PackedTree K) :
    (sides.push gap layout).all.Perm (layout :: sides.all) := by
  rw [Sides.push]
  split
  · rw [Sides.all, Sides.all, List.append_assoc]
    exact List.perm_middle
  · rw [Sides.all, Sides.all, ← List.append_assoc]
    exact List.perm_append_singleton layout _

theorem Sides.all_foldl_push (gap : K) (layouts : List (PackedTree K)) (sides : Sides K) :
    (layouts.foldl (Sides.push gap) sides).all.Perm (layouts ++ sides.all) := by
  induction layouts generalizing sides with
  | nil => exact List.Perm.refl _
  | cons layout layouts ih =>
    refine (ih (sides.push gap layout)).trans ?_
    exact ((sides.all_push gap layout).append_left layouts).trans List.perm_middle

omit [Field K] [LinearOrder K] in
theorem prioritized_perm (layouts : List (PackedTree K)) : (prioritized layouts).Perm layouts := by
  refine ((List.mergeSort_perm layouts.zipIdx _).map Prod.fst).trans ?_
  rw [List.zipIdx_map_fst]

/-- Balancing changes the order of the blocks only. -/
theorem balance_perm (layouts : List (PackedTree K)) (gap : K) :
    (balance layouts gap).Perm layouts := by
  refine List.Perm.trans ?_ (prioritized_perm layouts)
  rw [balance]
  cases prioritized layouts with
  | nil => exact List.Perm.refl _
  | cons busiest others =>
    have hsides := Sides.all_foldl_push gap others ⟨[], [], 0, 0⟩
    rw [Sides.all, Sides.all, List.append_nil, List.append_nil] at hsides
    dsimp only
    rw [List.append_assoc]
    refine ((List.reverse_perm _).append_right _).trans ?_
    exact List.perm_middle.trans (hsides.cons busiest)

/-! ## The cursor -/

variable [IsStrictOrderedRing K] {gap : K} {target : Option K} {cursor : Cursor K}
  {placed : List (Placed K)} {layout : PackedTree K}

/-- One block comes before another: beside it, or above it where rows are wrapped. -/
def Before (gap : K) (target : Option K) (a b : Placed K) : Prop :=
  a.box.x + a.box.width + gap ≤ b.box.x ∨
    target.isSome ∧ a.box.y + a.box.height + gap ≤ b.box.y

/-- The blocks that have been packed: they lie apart, within what the cursor has measured, and leave
the place at the cursor free. -/
structure Cursor.Holds (gap : K) (target : Option K) (cursor : Cursor K)
    (placed : List (Placed K)) : Prop where
  entries : cursor.positions.entries = placed.flatMap Placed.entries
  rowOffset_nonneg : 0 ≤ cursor.rowOffset
  rowOffset_le : cursor.rowOffset ≤ cursor.cursorX
  cursorY_nonneg : 0 ≤ cursor.cursorY
  rowHeight_nonneg : 0 ≤ cursor.rowHeight
  width_nonneg : 0 ≤ cursor.width
  left : ∀ e ∈ placed, 0 ≤ e.box.x
  right : ∀ e ∈ placed, e.box.x + e.box.width ≤ cursor.width
  top : ∀ e ∈ placed, 0 ≤ e.box.y
  bottom : ∀ e ∈ placed, e.box.y + e.box.height ≤ cursor.cursorY + cursor.rowHeight
  free : ∀ e ∈ placed, e.box.x + e.box.width + gap ≤ cursor.cursorX ∨
    target.isSome ∧ e.box.y + e.box.height + gap ≤ cursor.cursorY
  apart : placed.Pairwise (Before gap target)

omit [IsStrictOrderedRing K] in
theorem Cursor.Holds.empty (gap : K) (target : Option K) :
    Cursor.Holds gap target ⟨.empty, 0, 0, 0, 0, 0⟩ [] where
  entries := rfl
  rowOffset_nonneg := le_refl 0
  rowOffset_le := le_refl 0
  cursorY_nonneg := le_refl 0
  rowHeight_nonneg := le_refl 0
  width_nonneg := le_refl 0
  left _ h := absurd h List.not_mem_nil
  right _ h := absurd h List.not_mem_nil
  top _ h := absurd h List.not_mem_nil
  bottom _ h := absurd h List.not_mem_nil
  free _ h := absurd h List.not_mem_nil
  apart := List.Pairwise.nil

theorem wrappedRowOffset_pos : (0 : K) < wrappedRowOffset := by
  rw [wrappedRowOffset, processSide]
  positivity

/-- A new row is below all that has been packed. -/
theorem Cursor.Holds.wrap (h : cursor.Holds gap target placed) (hgap : 0 ≤ gap)
    (htarget : target.isSome) : (cursor.wrap gap).Holds gap target placed where
  entries := h.entries
  rowOffset_nonneg := add_nonneg h.rowOffset_nonneg wrappedRowOffset_pos.le
  rowOffset_le := le_refl _
  cursorY_nonneg := add_nonneg h.cursorY_nonneg (add_nonneg h.rowHeight_nonneg hgap)
  rowHeight_nonneg := le_refl 0
  width_nonneg := h.width_nonneg
  left := h.left
  right := h.right
  top := h.top
  bottom e he := by
    have hbottom := h.bottom e he
    rw [Cursor.wrap]
    linarith
  free e he := by
    refine .inr ⟨htarget, ?_⟩
    have hbottom := h.bottom e he
    rw [Cursor.wrap]
    linarith
  apart := h.apart

/-- The place of a block that is put at the cursor. -/
def Cursor.place (cursor : Cursor K) (layout : PackedTree K) : Placed K :=
  (layout, cursor.cursorX, cursor.cursorY)

/-- A block that is put at the cursor lies apart from those before. -/
theorem Cursor.Holds.put (h : cursor.Holds gap target placed) (hgap : 0 ≤ gap)
    (hwidth : 0 ≤ layout.width)
    (hkeys : ((placed.map Prod.fst ++ [layout]).flatMap PackedTree.keys).Nodup) :
    (cursor.put gap layout).Holds gap target (placed ++ [cursor.place layout]) := by
  have hx : 0 ≤ cursor.cursorX := h.rowOffset_nonneg.trans h.rowOffset_le
  have hheld {P : Placed K → Prop} (hold : ∀ e ∈ placed, P e) (hnew : P (cursor.place layout)) :
      ∀ e ∈ placed ++ [cursor.place layout], P e := by
    intro e he
    rcases List.mem_append.mp he with he | he
    · exact hold e he
    · rw [List.mem_singleton.mp he]
      exact hnew
  have hentries : placed.flatMap Placed.entries ++ shifted layout cursor.cursorX cursor.cursorY =
      (placed ++ [cursor.place layout]).flatMap Placed.entries := by
    rw [List.flatMap_append, List.flatMap_singleton]
    rfl
  constructor
  · rw [Cursor.put, OrderedMap.entries_setAll, h.entries, hentries]
    rw [h.entries, hentries, map_fst_flatMap_entries, List.map_append]
    exact hkeys
  · exact h.rowOffset_nonneg
  · have hoffset := h.rowOffset_le
    rw [Cursor.put]
    linarith
  · exact h.cursorY_nonneg
  · exact h.rowHeight_nonneg.trans (le_max_left _ _)
  · exact h.width_nonneg.trans (le_max_left _ _)
  · exact hheld h.left hx
  · refine hheld (fun e he => (h.right e he).trans (le_max_left _ _)) (le_max_of_le_right ?_)
    rw [← add_assoc, add_sub_cancel_right]
    exact le_refl _
  · exact hheld h.top h.cursorY_nonneg
  · refine hheld (fun e he => (h.bottom e he).trans ?_) ?_
    · exact add_le_add_right (le_max_left _ _) _
    · exact add_le_add_right (le_max_right _ _) _
  · refine hheld (fun e he => ?_) (.inl (add_assoc _ _ _).le)
    refine (h.free e he).imp_left fun hfree => hfree.trans ?_
    rw [Cursor.put]
    linarith
  · refine List.pairwise_append.mpr ⟨h.apart, List.pairwise_singleton _ _, fun a ha b hb => ?_⟩
    rw [List.mem_singleton.mp hb]
    exact h.free a ha

theorem Cursor.Holds.next (h : cursor.Holds gap target placed) (hgap : 0 ≤ gap)
    (hwidth : 0 ≤ layout.width)
    (hkeys : ((placed.map Prod.fst ++ [layout]).flatMap PackedTree.keys).Nodup) :
    ∃ e, e.1 = layout ∧ (cursor.next gap target layout).Holds gap target (placed ++ [e]) := by
  rw [Cursor.next]
  split
  · next hfull =>
    have htarget : target.isSome := by
      cases target with
      | none => cases hfull
      | some _ => rfl
    exact ⟨_, rfl, (h.wrap hgap htarget).put hgap hwidth hkeys⟩
  · exact ⟨_, rfl, h.put hgap hwidth hkeys⟩

/-- Packing puts all blocks somewhere. -/
theorem Cursor.Holds.run (h : cursor.Holds gap target placed) (hgap : 0 ≤ gap)
    (layouts : List (PackedTree K)) (hwidths : ∀ b ∈ layouts, 0 ≤ b.width)
    (hkeys : ((placed.map Prod.fst ++ layouts).flatMap PackedTree.keys).Nodup) :
    ∃ placed', placed'.map Prod.fst = placed.map Prod.fst ++ layouts ∧
      (layouts.foldl (Cursor.next gap target) cursor).Holds gap target placed' := by
  induction layouts generalizing cursor placed with
  | nil => exact ⟨placed, (List.append_nil _).symm, h⟩
  | cons layout layouts ih =>
    obtain ⟨hwidth, hrest⟩ := List.forall_mem_cons.mp hwidths
    rw [List.append_cons] at hkeys
    have hkeys₁ : ((placed.map Prod.fst ++ [layout]).flatMap PackedTree.keys).Nodup := by
      rw [List.flatMap_append] at hkeys
      exact hkeys.of_append_left
    obtain ⟨e, rfl, h₁⟩ := h.next hgap hwidth hkeys₁
    have hmap : (placed ++ [e]).map Prod.fst = placed.map Prod.fst ++ [e.1] := List.map_append
    obtain ⟨placed', hplaced, h₂⟩ := ih h₁ hrest (by rw [hmap]; exact hkeys)
    refine ⟨placed', ?_, h₂⟩
    rw [hplaced, hmap, List.append_assoc]
    rfl

/-! ## Packing -/

/-- The blocks of a packed block: they lie apart, within its extent. -/
structure IsPacking (gap : K) (wrapRows : Bool) (block : PackedTree K) (placed : List (Placed K)) :
    Prop where
  entries : block.positions.entries = placed.flatMap Placed.entries
  width_nonneg : 0 ≤ block.width
  height_nonneg : 0 ≤ block.height
  left : ∀ e ∈ placed, 0 ≤ e.box.x
  right : ∀ e ∈ placed, e.box.x + e.box.width ≤ block.width
  top : ∀ e ∈ placed, 0 ≤ e.box.y
  bottom : ∀ e ∈ placed, e.box.y + e.box.height ≤ block.height
  apart : placed.Pairwise fun a b => a.box.x + a.box.width + gap ≤ b.box.x ∨
    wrapRows ∧ a.box.y + a.box.height + gap ≤ b.box.y

/-- `pack` moves every block somewhere, whatever the width of the rows. -/
theorem exists_isPacking (forest : Forest K) {layouts : List (PackedTree K)} (hgap : 0 ≤ gap)
    (wrapRows : Bool) (hwidths : ∀ b ∈ layouts, 0 ≤ b.width)
    (hkeys : (layouts.flatMap PackedTree.keys).Nodup) :
    ∃ placed : List (Placed K), (placed.map Prod.fst).Perm layouts ∧
      IsPacking gap wrapRows (pack forest layouts gap wrapRows) placed := by
  rw [pack]
  generalize hordered : (if (!wrapRows && layouts.any fun layout => 1 < layout.socketPeers) = true
    then balance layouts gap else layouts) = ordered
  have hperm : ordered.Perm layouts := by
    rw [← hordered]
    split
    · exact balance_perm layouts gap
    · exact List.Perm.refl layouts
  generalize htarget : (if wrapRows = true then some (forest.target ordered gap) else none) = target
  have hwraps : target.isSome → wrapRows = true := by
    intro h
    cases wrapRows with
    | true => rfl
    | false =>
      rw [← htarget] at h
      cases h
  obtain ⟨placed, hplaced, h⟩ := (Cursor.Holds.empty gap target).run hgap ordered
    (fun b hb => hwidths b (hperm.mem_iff.mp hb)) ((hperm.flatMap_right _).nodup_iff.mpr hkeys)
  refine ⟨placed, hplaced ▸ hperm, h.entries, h.width_nonneg,
    add_nonneg h.cursorY_nonneg h.rowHeight_nonneg, h.left, h.right, h.top, h.bottom, ?_⟩
  exact h.apart.imp fun hab => hab.imp_right fun ⟨hsome, hbelow⟩ => ⟨hwraps hsome, hbelow⟩

end Procinsh.Space.ProcessLayout
