import Mathlib.Algebra.Order.Floor.Defs
import Procinsh.Space.ProcessLayout

/-!
# Stable placement

`stableLayout` (`web/src/space/process-layout.ts`) keeps the places of processes that are still there
and puts newcomers into vacant space near their parents: the places around the parent are searched
ring by ring, and a grid of cells tells whether one is vacant.

The tolerance of `1e-9` is left out, as coordinates are exact.  The search takes a number of rings,
without which the result is `none`.
-/

namespace Procinsh.Space.ProcessLayout

/-! ## The order of newcomers -/

/-- `Number` of decimal digits with or without a minus sign, and `none` in the place of NaN. -/
def numberOf : List Char → Option ℤ
  | '-' :: digits =>
    if digits ≠ [] ∧ digits.all Char.isDigit then some (-(Nat.ofDigitChars 10 digits 0 : ℕ)) else none
  | digits =>
    if digits ≠ [] ∧ digits.all Char.isDigit then some (Nat.ofDigitChars 10 digits 0 : ℕ) else none

/-- `Number(id.split(":")[0])` -/
def pidOf (id : String) : Option ℤ := numberOf (id.toList.takeWhile (· ≠ ':'))

variable {K : Type} [Field K] [LinearOrder K]

/-- The order of newcomers: by depth, then by PID, then by key.  A difference with NaN does not count;
digits and separators compare by locale as they do by character. -/
def byNewcomer (a b : String × TreePosition K) : Bool :=
  let byPid : Bool :=
    match pidOf a.1, pidOf b.1 with
    | some p, some q => p < q || (p = q && a.1 ≤ b.1)
    | _, _ => a.1 ≤ b.1
  a.2.depth < b.2.depth || (a.2.depth = b.2.depth && byPid)

/-! ## Cells -/

variable [FloorRing K]

/-- The places by their cells. -/
abbrev Buckets (K : Type) := OrderedMap (ℤ × ℤ) (List (TreePosition K))

/-- The gaps and how rows wrap. -/
structure Spacing (K : Type) where
  target : List (PackedTree K) → K → K
  xGap : K
  yGap : K

variable (spacing : Spacing K)

def cell (x y : K) : ℤ × ℤ := (⌊x / spacing.xGap⌋, ⌊y / spacing.yGap⌋)

/-- Puts a place into its cell. -/
def occupy (buckets : Buckets K) (place : TreePosition K) : Buckets K :=
  let id := cell spacing place.x place.y
  buckets.set id ((buckets.get? id).getD [] ++ [place])

/-- Whether no place in the cells around is too near. -/
def vacant (buckets : Buckets K) (p : K × K) : Bool :=
  let c := cell spacing p.1 p.2
  ([-1, 0, 1] : List ℤ).all fun dx => ([-1, 0, 1] : List ℤ).all fun dy =>
    ((buckets.get? (c.1 + dx, c.2 + dy)).getD []).all fun place =>
      !(|place.x - p.1| < spacing.xGap && |place.y - p.2| < spacing.yGap)

/-! ## Rings -/

/-- The offsets of a square ring that are not above its centre. -/
def ring (radius : ℕ) : List (ℤ × ℕ) :=
  (List.range (radius + 1)).flatMap fun dy =>
    (((List.range (2 * radius + 1)).map fun i : ℕ => (i : ℤ) - radius).filter fun dx =>
      max dx.natAbs dy = radius).map fun dx => (dx, dy)

/-- The place at an offset; rows are shifted as wrapped rows are. -/
def candidate (origin : K × K) (d : ℤ × ℕ) : K × K :=
  (origin.1 + d.1 * spacing.xGap + d.2 * wrappedRowOffset, origin.2 + d.2 * spacing.yGap)

/-- The first vacant place, ring by ring. -/
def search (buckets : Buckets K) (origin : K × K) : ℕ → ℕ → Option (K × K)
  | 0, _ => none
  | steps + 1, radius =>
    match ((ring radius).map (candidate spacing origin)).find? (vacant spacing buckets) with
    | some p => some p
    | none => search buckets origin steps (radius + 1)

/-! ## The layout -/

/-- Where the search for a newcomer begins: below its parent, or outside if it has none. -/
def searchOrigin (outside : K × K) (result : OrderedMap String (TreePosition K))
    (place : TreePosition K) : K × K :=
  match place.parent.bind result.get? with
  | some parent => (parent.x, parent.y + spacing.yGap)
  | none => outside

/-- Puts a newcomer into a vacant place. -/
def placeNewcomer (steps : ℕ) (outside : K × K)
    (state : OrderedMap String (TreePosition K) × Buckets K) (e : String × TreePosition K) :
    Option (OrderedMap String (TreePosition K) × Buckets K) := do
  let p ← search spacing state.2 (searchOrigin spacing outside state.1 e.2) steps 0
  let found := { e.2 with x := p.1, y := p.2 }
  pure (state.1.set e.1 found, occupy spacing state.2 found)

/-- The processes that keep their places. -/
def survivors (initial previous : OrderedMap String (TreePosition K)) :
    OrderedMap String (TreePosition K) :=
  .ofList (initial.entries.filterMap fun e =>
    (previous.get? e.1).map fun old => (e.1, { e.2 with x := old.x, y := old.y }))

/-- The processes that have no place yet, in the order in which they get one. -/
def newcomers (initial result : OrderedMap String (TreePosition K)) :
    List (String × TreePosition K) :=
  (initial.entries.filter fun e => (result.get? e.1).isNone).mergeSort byNewcomer

/-- Adds the newcomers of a fresh layout to the processes that keep their places. -/
def addNewcomers (steps : ℕ) (initial result : OrderedMap String (TreePosition K)) :
    Option (OrderedMap String (TreePosition K)) := do
  let buckets := result.values.foldl (occupy spacing) .empty
  let outside := (greatest (result.values.map TreePosition.x) + spacing.xGap,
    least (result.values.map TreePosition.y))
  let state ← (newcomers initial result).foldlM (placeNewcomer spacing steps outside)
    (result, buckets)
  pure state.1

/-- `stableLayout` -/
def stableLayout (steps : ℕ) (processes : List ProcessLayoutNode)
    (previous : OrderedMap String (TreePosition K)) (relations : List Scene.FdRelation) :
    Option (OrderedMap String (TreePosition K)) := do
  let initial ← treeLayout spacing.target steps processes spacing.xGap spacing.yGap relations
  let result := survivors initial previous
  if result.size = 0 then pure initial else addNewcomers spacing steps initial result

end Procinsh.Space.ProcessLayout
