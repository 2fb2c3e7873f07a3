import Mathlib.Algebra.Order.Field.Basic
import Mathlib.Algebra.Order.Group.Abs
import Mathlib.Data.Finset.Card
import Mathlib.Data.Finset.Filter
import Mathlib.Data.List.Sort
import Procinsh.Foundation.OrderedMap
import Procinsh.Foundation.Utf16
import Procinsh.Space.ProcessLayout

/-!
# Ports of connections

`IpcPortAllocator.allocate` (`web/src/space/ipc-ports.ts`) gives every resource of a process that
takes part in a drawn connection one port on the hull of the process.  Relations ask for a side of
the hull, the one with the least `preferred` wins, and the ports of a side share a grid that is
refined as slots are needed; slots are kept from one call to the next.

Coordinates are the elements of an ordered field.  Strings compare by their code units.  The name of
a face is its process, height and normal instead of their text, and the grid that the slots are taken
from is refined anew for each, which gives the slots that a kept grid has.  A missing entry behind
`!` in the source makes the result `none`.
-/

namespace Procinsh.Space.IpcPorts

open ProcessLayout (processSide)

/-! ## Inputs -/

structure Vector3 (K : Type) where
  x : K
  y : K
  z : K
  deriving DecidableEq

structure PlacedProcess (K : Type) where
  identity : ProcessId
  pos : Vector3 K

structure NetworkGroup where
  id : String
  endpoint : Scene.FdEndpoint
  members : List Scene.FdRelation

structure SceneInput (K : Type) where
  nodes : OrderedMap String (PlacedProcess K)
  visible : Finset String
  network : OrderedMap String NetworkGroup
  /-- The groups that have a position. -/
  networkPositions : Finset String
  fdRelations : List Scene.FdRelation

/-! ## Keys -/

/-- The text of a kind. -/
def kindText : Scene.IpcKind → String
  | .pipe => "pipe"
  | .socket => "socket"

/-- `ipcKey` -/
def ipcKey (r : Scene.IpcIdentity) : String :=
  (Json.array [.string (kindText r.kind), .int r.major, .int r.minor, .string r.inode]).text

/-- `socketOwnerKey`, under the name `ipcOwnerKey` here. -/
def ipcOwnerKey (endpoint : Scene.FdEndpoint) : String :=
  (Json.array [.string (key endpoint.processId), .string (ipcKey endpoint.resource)]).text

/-- `USERSOCK` retains ordinary socket rendering. -/
def isKernelNetlink (socket : Option Scene.SocketEndpoint) : Bool :=
  match socket with
  | some ⟨.other family protocol⟩ => family = 16 && protocol ≠ 2
  | _ => false

/-! ## The grid of a face -/

section Slots

variable {K : Type} [Field K]

structure Slot (K : Type) where
  u : K
  v : K
  level : ℕ

/-- The numerators of a level, from `1 - denominator` to `denominator - 1`. -/
def numerators (denominator : ℕ) : List ℤ :=
  (List.range (2 * denominator - 1)).map fun i : ℕ => 1 - (denominator : ℤ) + i

/-- The numerators that a level adds, row by row: those that are not both even. -/
def levelCells (level : ℕ) : List (ℤ × ℤ) :=
  (numerators (2 ^ level)).flatMap fun v =>
    ((numerators (2 ^ level)).filter fun u => ¬(u % 2 = 0 ∧ v % 2 = 0)).map fun u => (u, v)

/-- The slots that a level adds. -/
def levelSlots (level : ℕ) : List (Slot K) :=
  let denominator := 2 ^ level
  (levelCells level).map fun c => ⟨c.1 / (denominator : ℕ), c.2 / (denominator : ℕ), level⟩

/-- The slots of the levels up to this one, in the order in which they are refined. -/
def slots : ℕ → List (Slot K)
  | 0 => [⟨0, 0, 0⟩]
  | level + 1 => slots level ++ levelSlots (level + 1)

theorem length_levelSlots_pos {level : ℕ} (h : 0 < level) :
    0 < (levelSlots (K := K) level).length := by
  have htwo : 2 ∣ 2 ^ level := dvd_pow_self 2 h.ne'
  have hpos : 0 < 2 ^ level := Nat.two_pow_pos level
  have hfirst : 1 - ((2 ^ level : ℕ) : ℤ) ∈ numerators (2 ^ level) :=
    List.mem_map.mpr ⟨0, List.mem_range.mpr (by omega), by simp⟩
  have hodd : ¬(1 - ((2 ^ level : ℕ) : ℤ)) % 2 = 0 := by omega
  have hcell : (1 - ((2 ^ level : ℕ) : ℤ), 1 - ((2 ^ level : ℕ) : ℤ)) ∈ levelCells level :=
    List.mem_flatMap.mpr ⟨_, hfirst,
      List.mem_map.mpr ⟨_, List.mem_filter.mpr ⟨hfirst, by simpa using hodd⟩, rfl⟩⟩
  rw [levelSlots, List.length_map]
  exact List.length_pos_of_mem hcell

/-- There are more slots than levels. -/
theorem lt_length_slots (level : ℕ) : level < (slots (K := K) level).length := by
  induction level with
  | zero => exact Nat.one_pos
  | succ level ih =>
    have hpos := length_levelSlots_pos (K := K) (Nat.add_one_pos level)
    rw [slots, List.length_append]
    omega

/-- Refines the grid until it has the slot. -/
def refine (index level : ℕ) : { level : ℕ // index < (slots (K := K) level).length } :=
  if h : index < (slots (K := K) level).length then ⟨level, h⟩ else refine index (level + 1)
termination_by index - level
decreasing_by
  have hlevel := lt_length_slots (K := K) level
  omega

/-- `slotPosition` -/
def slotPosition (index : ℕ) : Slot K :=
  let grid := refine (K := K) index 0
  (slots grid.val).get ⟨index, grid.property⟩

end Slots

variable {K : Type} [Field K] [LinearOrder K]

/-! ## Requests -/

/-- A decimal fraction: `decimal 16 2` is `0.16`. -/
def decimal (digits places : ℕ) : K := digits / (10 ^ places : ℕ)

/-- `IPC_STEM_LENGTH` -/
def ipcStemLength : K := decimal 16 2

/-- `IPC_PORT_RADIUS` -/
def ipcPortRadius : K := decimal 55 3

/-- The stretch of a face that the grid covers, to each side. -/
def span : K := processSide * decimal 4 1

structure PortRequest (K : Type) where
  id : String
  process : String
  preferred : String
  height : K
  normal : Vector3 K
  connections : Finset String
  networks : Finset String

/-- The arguments of a call of `request`. -/
structure Ask (K : Type) where
  endpoint : Scene.FdEndpoint
  normal : Vector3 K
  preferred : String
  connection : String
  network : Option String

/-- The height of the ports of a kind of resource. -/
def portHeight (kind : Scene.IpcKind) : K := if kind = .socket then 4 else decimal 14 1

/-- The port of an ask after it: a new one, or the one before with the side that is preferred. -/
def askedPort (before : Option (PortRequest K)) (ask : Ask K) : PortRequest K :=
  let port : PortRequest K :=
    match before with
    | none =>
      { id := ipcOwnerKey ask.endpoint
        process := key ask.endpoint.processId
        preferred := ask.preferred
        height := portHeight ask.endpoint.resource.kind
        normal := ask.normal
        connections := ∅
        networks := ∅ }
    | some port =>
      if utf16 ask.preferred < utf16 port.preferred then
        { port with preferred := ask.preferred, normal := ask.normal }
      else port
  { port with
    connections := insert ask.connection port.connections
    networks := (ask.network.filter (· ≠ "")).elim port.networks fun network =>
      insert network port.networks }

/-- `request` -/
def request (requests : OrderedMap String (PortRequest K)) (ask : Ask K) :
    OrderedMap String (PortRequest K) :=
  let id := ipcOwnerKey ask.endpoint
  requests.set id (askedPort (requests.get? id) ask)

/-- The relations in network groups. -/
def grouped (input : SceneInput K) : List String :=
  input.network.values.flatMap fun group => group.members.map Scene.FdRelation.id

/-- What a network group asks for: the roof of its process. -/
def groupAsks (input : SceneInput K) (group : NetworkGroup) : List (Ask K) :=
  if key group.endpoint.processId ∉ input.visible ∨ group.id ∉ input.networkPositions then []
  else
    group.members.map fun member =>
      ⟨member.endpoint, ⟨0, 0, 1⟩, "0:roof", member.id, some group.id⟩

/-- `Math.sign` -/
def sign (x : K) : K := if x < 0 then -1 else if 0 < x then 1 else 0

/-- The side that faces a peer in this direction; `after` breaks the tie. -/
def sideNormal (dx dy : K) (after : Bool) : Vector3 K :=
  if |dy| ≤ |dx| then ⟨if sign dx ≠ 0 then sign dx else if after then -1 else 1, 0, 0⟩
  else ⟨0, sign dy, 0⟩

def Vector3.negate (n : Vector3 K) : Vector3 K := ⟨-n.x, -n.y, -n.z⟩

/-- The process at the other end of a relation, if it is placed. -/
def peerNode (input : SceneInput K) (relation : Scene.FdRelation) : Option (PlacedProcess K) :=
  relation.peer.bind fun peer => input.nodes.get? (key peer.processId)

/-- What a relation asks for: the sides that face each other. -/
def relationAsks (input : SceneInput K) (relation : Scene.FdRelation) : List (Ask K) :=
  if relation.id ∈ grouped input ∨ isKernelNetlink relation.socket then []
  else
    match input.nodes.get? (key relation.endpoint.processId), peerNode input relation with
    | none, _ => []
    | some a, b =>
      if key a.identity ∉ input.visible ∨ b.any (fun b => key b.identity ∉ input.visible) then []
      else
        let aId := ipcOwnerKey relation.endpoint
        let bId := relation.peer.map ipcOwnerKey
        let dx := b.elim 1 fun b => b.pos.x - a.pos.x
        let dy := b.elim 0 fun b => b.pos.y - a.pos.y
        let normal := sideNormal dx dy (bId.any fun bId => utf16 bId < utf16 aId)
        let preferred := if b.isSome then "1:" ++ bId.getD "" else "2:unobserved"
        let asked : Ask K := ⟨relation.endpoint, normal, preferred, relation.id, none⟩
        match b, relation.peer with
        | some _, some peer =>
          [asked, ⟨peer, if some aId = bId then normal else normal.negate, "1:" ++ aId, relation.id,
            none⟩]
        | _, _ => [asked]

/-- The calls of `request`, in their order. -/
def asks (input : SceneInput K) : List (Ask K) :=
  input.network.values.flatMap (groupAsks input) ++ input.fdRelations.flatMap (relationAsks input)

/-- The ports that are asked for. -/
def requests (input : SceneInput K) : OrderedMap String (PortRequest K) :=
  (asks input).foldl request .empty

/-! ## Allocations -/

structure Face (K : Type) where
  process : String
  height : K
  normal : Vector3 K
  deriving DecidableEq

/-- `faceId` -/
def faceId (port : PortRequest K) : Face K := ⟨port.process, port.height, port.normal⟩

structure Allocation (K : Type) where
  face : Face K
  slot : ℕ

/-- The state of an `IpcPortAllocator`. -/
abbrev Allocations (K : Type) := OrderedMap String (Allocation K)

/-- Drops the allocations of ports that are gone or on another face. -/
def keepAllocations (allocations : Allocations K) (requests : OrderedMap String (PortRequest K)) :
    Allocations K :=
  allocations.retain fun id allocation =>
    (requests.get? id).any fun port => allocation.face = faceId port

/-- Notes that the slot of an allocation is used. -/
def occupySlot (occupied : OrderedMap (Face K) (Finset ℕ)) (allocation : Allocation K) :
    OrderedMap (Face K) (Finset ℕ) :=
  occupied.set allocation.face
    (insert allocation.slot ((occupied.get? allocation.face).getD ∅))

/-- `while (used.has(slot)) slot++` -/
def freeSlot (used : Finset ℕ) (slot : ℕ) : ℕ :=
  if slot ∈ used then freeSlot used (slot + 1) else slot
termination_by (used.filter (slot ≤ ·)).card
decreasing_by
  refine Finset.card_lt_card (Finset.ssubset_iff_of_subset ?_ |>.mpr ⟨slot, ?_, ?_⟩)
  · intro i hi
    rw [Finset.mem_filter] at hi ⊢
    exact ⟨hi.1, Nat.le_of_succ_le hi.2⟩
  · exact Finset.mem_filter.mpr ⟨by assumption, Nat.le_refl _⟩
  · simp

/-- The maps of the loop over the requests. -/
structure Allocating (K : Type) where
  allocations : Allocations K
  occupied : OrderedMap (Face K) (Finset ℕ)
  nextSlot : OrderedMap (Face K) ℕ

/-- Gives a port a slot if it has none. -/
def allocatePort (state : Allocating K) (port : PortRequest K) : Allocating K :=
  if (state.allocations.get? port.id).isSome then state
  else
    let face := faceId port
    let used := (state.occupied.get? face).getD ∅
    let slot := freeSlot used ((state.nextSlot.get? face).getD 0)
    { allocations := state.allocations.set port.id ⟨face, slot⟩
      occupied := state.occupied.set face (insert slot used)
      nextSlot := state.nextSlot.set face (slot + 1) }

/-- The requests in the order in which they get slots. -/
def sortedRequests (requests : OrderedMap String (PortRequest K)) : List (PortRequest K) :=
  requests.values.insertionSort fun a b => utf16 a.id ≤ utf16 b.id

/-- The allocations for the requests. -/
def updateAllocations (allocations : Allocations K)
    (requests : OrderedMap String (PortRequest K)) : Allocations K :=
  let kept := keepAllocations allocations requests
  let occupied := kept.values.foldl occupySlot .empty
  ((sortedRequests requests).foldl allocatePort ⟨kept, occupied, .empty⟩).allocations

/-! ## Ports -/

structure IpcPort (K : Type) where
  id : String
  position : Vector3 K
  normal : Vector3 K
  radiusScale : K
  connections : Finset String
  networks : Finset String

/-- Raises the level of a face to that of a slot on it. -/
def raiseLevel (levels : OrderedMap (Face K) ℕ) (allocation : Allocation K) :
    OrderedMap (Face K) ℕ :=
  levels.set allocation.face
    (max ((levels.get? allocation.face).getD 0) (slotPosition (K := K) allocation.slot).level)

/-- The levels to which the grids of the faces are refined. -/
def faceLevels (allocations : Allocations K) : OrderedMap (Face K) ℕ :=
  allocations.values.foldl raiseLevel .empty

/-- Where a slot is on a face of a process. -/
def portPosition (owner : Vector3 K) (height : K) (normal : Vector3 K) (u v : K) : Vector3 K :=
  if normal.z = 1 then
    ⟨owner.x + u * span, owner.y + v * span, owner.z + (8 + ipcStemLength)⟩
  else
    let out : K := processSide / (2 : ℕ) + ipcStemLength
    ⟨owner.x + normal.x * out + |normal.y| * u * span,
      owner.y + normal.y * out + |normal.x| * u * span,
      owner.z + height + normal.z * out + v * decimal 6 1⟩

/-- The distance of the cells of a face. -/
def portSpacing (normal : Vector3 K) (level : ℕ) : K :=
  (if normal.z = 1 then span else decimal 6 1) / (2 ^ level : ℕ)

def drawPort (input : SceneInput K) (allocations : Allocations K) (levels : OrderedMap (Face K) ℕ)
    (port : PortRequest K) : Option (IpcPort K) := do
  let allocation ← allocations.get? port.id
  let slot : Slot K := slotPosition allocation.slot
  let owner ← input.nodes.get? port.process
  let level ← levels.get? allocation.face
  pure
    { id := port.id
      position := portPosition owner.pos port.height port.normal slot.u slot.v
      normal := port.normal
      radiusScale := min 1 (portSpacing port.normal level * decimal 4 1 / ipcPortRadius)
      connections := port.connections
      networks := port.networks }

/-- `allocate`: the ports, and the allocations for the next call. -/
def allocate (allocations : Allocations K) (input : SceneInput K) :
    Option (OrderedMap String (IpcPort K) × Allocations K) := do
  let requests := requests input
  let allocations := updateAllocations allocations requests
  let ports ← requests.values.mapM (drawPort input allocations (faceLevels allocations))
  pure (.ofList (ports.map fun port => (port.id, port)), allocations)

/-- The allocations after a run of calls. -/
def runAllocator (inputs : List (SceneInput K)) : Option (Allocations K) :=
  inputs.foldlM (fun allocations input => (allocate allocations input).map Prod.snd) .empty

end Procinsh.Space.IpcPorts
