import Mathlib.Algebra.Order.Field.Basic
import Mathlib.Data.List.Dedup
import Procinsh.Foundation.OrderedMap
import Procinsh.Space.Scene

/-!
# Placing processes

`treeLayout` (`web/src/space/process-layout.ts`) places the processes as a forest: the leaves below a
process share a block of rows, subtrees with descendants stand side by side, and whole trees are
packed in rows again.  Cycles of parents are broken first.

Coordinates are the elements of an ordered field, and the width at which rows wrap is a parameter, as
the source takes a square root for it (`rowTarget`).  Walks up the parents and the recursion down the
children take a number of steps, without which the result is `none`.
-/

namespace Procinsh.Space.ProcessLayout

variable {K : Type} [Field K] [LinearOrder K]

/-- The identity, parent relationship, and optional name used to place a process. -/
structure ProcessLayoutNode where
  identity : ProcessId
  parentId : Option ProcessId
  name : Option String
  deriving DecidableEq

structure TreePosition (K : Type) where
  x : K
  y : K
  depth : ℕ
  parent : Option String
  deriving DecidableEq

structure PackedTree (K : Type) where
  positions : OrderedMap String (TreePosition K)
  width : K
  height : K
  /-- Largest number of distinct socket peers of any process in this block. -/
  socketPeers : ℕ

/-- `PROCESS_SIDE` -/
def processSide : K := 11 / 5

/-- `WRAPPED_ROW_OFFSET` -/
def wrappedRowOffset : K := processSide

/-! ## Parents -/

/-- The order by PID, then start time. -/
def byIdentity (a b : ProcessLayoutNode) : Bool :=
  a.identity.pid < b.identity.pid ||
    (a.identity.pid = b.identity.pid && a.identity.startTimeTicks ≤ b.identity.startTimeTicks)

/-- `rank`: the place of a key. -/
def rank (keys : List String) (id : String) : ℕ := keys.idxOf id

/-- The parent of a node that is known and not the node itself. -/
def knownParent (known : OrderedMap String ProcessLayoutNode) (node : ProcessLayoutNode) :
    Option String :=
  (node.parentId.map key).filter fun parent =>
    parent ≠ key node.identity && (known.get? parent).isSome

/-- The cycle into which the way up from `id` runs, and `none` in its place where it ends; `path` is
the way so far. -/
def cycleAbove (parents : OrderedMap String (Option String)) :
    ℕ → List String → Option String → Option (Option (List String))
  | 0, _, _ => none
  | _ + 1, _, none => some none
  | steps + 1, path, some id =>
    match parents.get? id with
    | none => some none
    | some parent =>
      if id ∈ path then some (some (path.drop (path.idxOf id)))
      else cycleAbove parents steps (path ++ [id]) parent

/-- The member of a cycle that becomes a root: `cycle.reduce`. -/
def lowest (keys : List String) : List String → Option String
  | [] => none
  | id :: ids => some (ids.foldl (fun a b => if rank keys a < rank keys b then a else b) id)

/-- Breaks the cycle above a node, if there is one. -/
def breakCycle (keys : List String) (steps : ℕ) (parents : OrderedMap String (Option String))
    (id : String) : Option (OrderedMap String (Option String)) := do
  match ← cycleAbove parents steps [] (some id) with
  | none => pure parents
  | some cycle =>
    match lowest keys cycle with
    | none => pure parents
    | some root => pure (parents.set root none)

/-! ## Socket peers -/

/-- The two processes that a relation makes peers. -/
def socketPair? (known : OrderedMap String ProcessLayoutNode) (relation : Scene.FdRelation) :
    Option (String × String) :=
  relation.peer.bind fun peer =>
    if relation.shared || relation.candidate || relation.endpoint.resource.kind ≠ .socket ||
        peer.resource.kind ≠ .socket then
      none
    else
      let a := key relation.endpoint.processId
      let b := key peer.processId
      if a = b || (known.get? a).isNone || (known.get? b).isNone then none else some (a, b)

/-- The distinct peers of a process. -/
def peersOf (known : OrderedMap String ProcessLayoutNode) (relations : List Scene.FdRelation)
    (id : String) : List String :=
  let pairs := (relations.filterMap (socketPair? known)).flatMap fun (a, b) => [(a, b), (b, a)]
  ((pairs.filter fun e => e.1 = id).map Prod.snd).dedup

/-! ## Packing blocks -/

/-- What packing and building look at. -/
structure Forest (K : Type) where
  /-- The keys of the processes, in the order of their ranks. -/
  keys : List String
  parents : OrderedMap String (Option String)
  /-- The number of distinct socket peers. -/
  peers : String → ℕ
  /-- The width of the rows of some blocks with a gap. -/
  target : List (PackedTree K) → K → K
  xGap : K
  yGap : K

/-- The width of rows that the source chooses, with its square root. -/
def rowTarget (sqrt : K → K) (layouts : List (PackedTree K)) (gap : K) : K :=
  let area := layouts.foldl (fun sum layout => sum + (layout.width + gap) * (layout.height + gap)) 0
  layouts.foldl (fun widest layout => max widest layout.width) (max 40 (sqrt area * (7 / 5)))

/-- The blocks on the left, nearest first, and those on the right of the busiest one. -/
structure Sides (K : Type) where
  left : List (PackedTree K)
  right : List (PackedTree K)
  leftWidth : K
  rightWidth : K

/-- Puts a block on the side that is less wide. -/
def Sides.push (gap : K) (sides : Sides K) (layout : PackedTree K) : Sides K :=
  if sides.leftWidth ≤ sides.rightWidth then
    { sides with
      left := sides.left ++ [layout]
      leftWidth := sides.leftWidth + (layout.width + gap) }
  else
    { sides with
      right := sides.right ++ [layout]
      rightWidth := sides.rightWidth + (layout.width + gap) }

/-- The blocks by the number of their peers, the busiest first; the order of siblings breaks
ties. -/
def prioritized (layouts : List (PackedTree K)) : List (PackedTree K) :=
  (layouts.zipIdx.mergeSort fun a b =>
    b.1.socketPeers < a.1.socketPeers ||
      (a.1.socketPeers = b.1.socketPeers && a.2 ≤ b.2)).map Prod.fst

/-- Balances widths around the busiest block. -/
def balance (layouts : List (PackedTree K)) (gap : K) : List (PackedTree K) :=
  match prioritized layouts with
  | [] => []
  | busiest :: others =>
    let sides := others.foldl (Sides.push gap) ⟨[], [], 0, 0⟩
    sides.left.reverse ++ [busiest] ++ sides.right

/-- The blocks that have been packed, and where the next one goes. -/
structure Cursor (K : Type) where
  positions : OrderedMap String (TreePosition K)
  cursorX : K
  cursorY : K
  rowHeight : K
  rowOffset : K
  width : K

/-- The positions of a block that is moved. -/
def shifted (layout : PackedTree K) (dx dy : K) : List (String × TreePosition K) :=
  layout.positions.entries.map fun e => (e.1, { e.2 with x := e.2.x + dx, y := e.2.y + dy })

/-- Begins a new row, shifted against the one before. -/
def Cursor.wrap (gap : K) (cursor : Cursor K) : Cursor K :=
  { cursor with
    rowOffset := cursor.rowOffset + wrappedRowOffset
    cursorX := cursor.rowOffset + wrappedRowOffset
    cursorY := cursor.cursorY + (cursor.rowHeight + gap)
    rowHeight := 0 }

/-- Whether a block does not fit into the row; without a target everything fits. -/
def Cursor.isFull (target : Option K) (cursor : Cursor K) (layout : PackedTree K) : Bool :=
  target.any fun target => cursor.rowOffset < cursor.cursorX &&
    target < cursor.cursorX - cursor.rowOffset + layout.width

/-- Puts a block where the cursor is. -/
def Cursor.put (gap : K) (cursor : Cursor K) (layout : PackedTree K) : Cursor K :=
  { cursor with
    positions := cursor.positions.setAll (shifted layout cursor.cursorX cursor.cursorY)
    cursorX := cursor.cursorX + (layout.width + gap)
    width := max cursor.width (cursor.cursorX + (layout.width + gap) - gap)
    rowHeight := max cursor.rowHeight layout.height }

/-- Packs the next block. -/
def Cursor.next (gap : K) (target : Option K) (cursor : Cursor K) (layout : PackedTree K) :
    Cursor K :=
  if cursor.isFull target layout then (cursor.wrap gap).put gap layout else cursor.put gap layout

variable (forest : Forest K)

/-- `pack` -/
def pack (layouts : List (PackedTree K)) (gap : K) (wrapRows : Bool) : PackedTree K :=
  let layouts :=
    if !wrapRows && layouts.any fun layout => 1 < layout.socketPeers then balance layouts gap
    else layouts
  let target := if wrapRows then some (forest.target layouts gap) else none
  let packed := layouts.foldl (Cursor.next gap target) ⟨.empty, 0, 0, 0, 0, 0⟩
  { positions := packed.positions
    width := packed.width
    height := packed.cursorY + packed.rowHeight
    socketPeers := layouts.foldl (fun most layout => max most layout.socketPeers) 0 }

/-! ## Building trees -/

/-- The children of a process. -/
def children (id : String) : List String :=
  ((forest.parents.entries.filter fun e => e.2 = some id).map Prod.fst).mergeSort fun a b =>
    rank forest.keys a ≤ rank forest.keys b

/-- The smallest of some numbers. -/
def least (values : List K) : K :=
  match values with
  | [] => 0
  | value :: values => values.foldl min value

/-- The largest of some numbers. -/
def greatest (values : List K) : K :=
  match values with
  | [] => 0
  | value :: values => values.foldl max value

/-- The middle between the smallest and the largest. -/
def middle (values : List K) : K := (least values + greatest values) / 2

/-- Moves a process to a slot. -/
def moveTo (block : PackedTree K) (id : String) (slot : TreePosition K) :
    Option (String × TreePosition K) :=
  (block.positions.get? id).map fun place => (id, { place with x := slot.x, y := slot.y })

/-- The slots by their distance from the centre. -/
def available (slots : List (TreePosition K)) : List (TreePosition K) :=
  let centerX := middle (slots.map TreePosition.x)
  let centerY := middle (slots.map TreePosition.y)
  let distance (p : TreePosition K) : K := (p.x - centerX) ^ 2 + (p.y - centerY) ^ 2
  slots.mergeSort fun a b =>
    distance a < distance b ||
      (distance a = distance b && (a.y < b.y || (a.y = b.y && a.x ≤ b.x)))

/-- The leaves with several peers, the busiest first. -/
def hubs (leaves : List String) : List String :=
  (leaves.filter fun leaf => 1 < forest.peers leaf).mergeSort fun a b =>
    forest.peers b < forest.peers a ||
      (forest.peers a = forest.peers b && rank forest.keys a ≤ rank forest.keys b)

/-- Gives the slots of a block of leaves that are nearest to its centre to the leaves with several
peers, and the remaining slots to the other leaves. -/
def centerHubs (leaves : List String) (block : PackedTree K) : PackedTree K :=
  let slots := block.positions.values
  let hubs := hubs forest leaves
  let used := (available slots).take hubs.length
  let remaining := slots.filter fun slot => slot ∉ used
  let others := leaves.filter fun leaf => leaf ∉ hubs
  { block with
    positions := .ofList ((hubs.zip used ++ others.zip remaining).filterMap fun e =>
      moveTo block e.1 e.2) }

/-- The block of the leaves below a process. -/
def leafBlock (leaves : List String) (blocks : List (PackedTree K)) : PackedTree K :=
  let block := pack forest blocks 3 true
  if 1 < block.socketPeers then centerHubs forest leaves block else block

/-- How far what is packed below a process is moved to the right. -/
def crownOffset (packed : PackedTree K) : K := (max forest.xGap packed.width - packed.width) / 2

/-- The place of a process above what is packed below it. -/
def crownPlace (id : String) (packed : PackedTree K) : TreePosition K :=
  { x := max forest.xGap packed.width / 2
    y := 0
    depth := 0
    parent := (forest.parents.get? id).join }

/-- Puts a process above what is packed below it. -/
def crown (id : String) (packed : PackedTree K) : PackedTree K :=
  { positions := .ofList ((id, crownPlace forest id packed) ::
      (shifted packed (crownOffset forest packed) forest.yGap).map fun e =>
        (e.1, { e.2 with depth := e.2.depth + 1 }))
    width := max forest.xGap packed.width
    height := if packed.height = 0 then forest.yGap else packed.height + forest.yGap
    socketPeers := max (forest.peers id) packed.socketPeers }

/-- `build` -/
def build : ℕ → String → Option (PackedTree K)
  | 0, _ => none
  | steps + 1, id => do
    let childIds := children forest id
    let isLeaf (child : String) : Bool := (children forest child).isEmpty
    let leaves := childIds.filter isLeaf
    -- The block of the leaves stands in the place of the first leaf.
    let layouts ← (childIds.filter fun child => !isLeaf child || leaves.head? = some child).mapM
      fun child =>
        if isLeaf child then (leaves.mapM (build steps)).map (leafBlock forest leaves)
        else build steps child
    pure (crown forest id (pack forest layouts 3 false))

/-! ## The layout -/

/-- The root that comes first: one named kthreadd, or else the one of lower rank. -/
def byRoot (known : OrderedMap String ProcessLayoutNode) (keys : List String) (a b : String) :
    Bool :=
  let isKthreadd (id : String) : Bool := (known.get? id).bind ProcessLayoutNode.name = some "kthreadd"
  (isKthreadd a && !isKthreadd b) || (isKthreadd a = isKthreadd b && rank keys a ≤ rank keys b)

/-- The processes without a parent. -/
def roots (known : OrderedMap String ProcessLayoutNode) (forest : Forest K) : List String :=
  (forest.keys.filter fun id => (forest.parents.get? id).join.isNone).mergeSort
    (byRoot known forest.keys)

/-- Moves all positions so that they are centred. -/
def centered (positions : OrderedMap String (TreePosition K)) :
    OrderedMap String (TreePosition K) :=
  let center := middle (positions.values.map TreePosition.x)
  .ofList (positions.entries.map fun e => (e.1, { e.2 with x := e.2.x - center }))

/-- The processes and relations as a forest. -/
def forestOf (target : List (PackedTree K) → K → K) (steps : ℕ)
    (ordered : List ProcessLayoutNode) (xGap yGap : K) (relations : List Scene.FdRelation) :
    Option (Forest K) := do
  let keys := ordered.map fun node => key node.identity
  let known := OrderedMap.ofList (ordered.map fun node => (key node.identity, node))
  let parents ← keys.foldlM (breakCycle keys steps)
    (OrderedMap.ofList (ordered.map fun node => (key node.identity, knownParent known node)))
  pure
    { keys
      parents
      peers := fun id => (peersOf known relations id).length
      target
      xGap
      yGap }

/-- `treeLayout` -/
def treeLayout (target : List (PackedTree K) → K → K) (steps : ℕ)
    (processes : List ProcessLayoutNode) (xGap yGap : K) (relations : List Scene.FdRelation) :
    Option (OrderedMap String (TreePosition K)) := do
  let ordered := processes.mergeSort byIdentity
  let known := OrderedMap.ofList (ordered.map fun node => (key node.identity, node))
  let forest ← forestOf target steps ordered xGap yGap relations
  let trees ← (roots known forest).mapM (build forest steps)
  pure (centered (pack forest trees 9 true).positions)

end Procinsh.Space.ProcessLayout
