import Mathlib.Data.List.Basic
import Procinsh.Foundation.OrderedMap
import Procinsh.Ipc.Devices

/-!
# The PCI topology

`read_topology` (`src/http_server/analysis/hardware/pci.rs`) collects the devices of interest and the
bridges above them from the paths of the devices in sysfs: from each path the chain from the host
bridge down to the device, and from the chains the nodes, parents before children.

The attributes of sysfs are inputs, in any combination; nothing relates the paths of different
devices.  Of a node, what the paths between devices use is kept.  The depth of a node is found by
following its parents, which need not end; the number of steps that are followed is a parameter, so
that a list of nodes is returned for some number exactly if the source returns it.
-/

namespace Procinsh.Hardware

open Ipc

/-! ## Names -/

/-- A directory in sysfs, as the components of its path. -/
abbrev Dir := List String

def isHexDigit (c : Char) : Bool :=
  ('0' ≤ c && c ≤ '9') || ('a' ≤ c && c ≤ 'f') || ('A' ≤ c && c ≤ 'F')

/-- Whether a name is a function address such as `0000:85:00.0`. -/
def isFunctionAddress (name : String) : Bool :=
  let bytes := name.toList
  12 ≤ bytes.length && bytes[bytes.length - 2]? == some '.' &&
    bytes[bytes.length - 5]? == some ':' && bytes[bytes.length - 8]? == some ':' &&
    bytes.all fun b => isHexDigit b || b == ':' || b == '.'

/-- Whether a name is a host bridge such as `pci0000:80`. -/
def isHostBridge (name : String) : Bool :=
  match name.toList with
  | 'p' :: 'c' :: 'i' :: rest => rest.contains ':' && rest.all fun b => isHexDigit b || b == ':'
  | _ => false

/-! ## Nodes -/

/-- What sysfs says of the devices: the listed names, what they link to, and the attributes of a
directory that can be read. -/
structure HardwareSources where
  names : List String
  link : String → Option Dir
  hasInfiniband : Dir → Bool
  deviceClass : Dir → Option UInt32
  vendor : Dir → Option UInt32
  numaNode : Dir → Option UInt32
  runtimeStatus : Dir → Option String
  currentLink : Dir → Option PcieLink
  maxLink : Dir → Option PcieLink

/-- A host bridge, a bridge on the way to a device of interest, or the device. -/
structure PciNode where
  address : String
  parent : Option String
  role : HardwareRole
  kind : Option HardwareKind
  path : Dir
  numaNode : Option UInt32
  link : Option PcieLinkInfo
  deriving DecidableEq

/-- The kind of a device worth showing. -/
def classifyPciDevice (sources : HardwareSources) (dir : Dir) (deviceClass : UInt32)
    (vendor : Option UInt32) : Option HardwareKind :=
  let base := deviceClass >>> 8
  if sources.hasInfiniband dir || base = 0x0c06 then some .rdma
  else if (base = 0x0300 || base = 0x0302) && vendor ≠ some 0x1a03 && vendor ≠ some 0x102b then
    some .gpu
  else if 0x1200 ≤ base ∧ base ≤ 0x12ff then some .accelerator
  else if base = 0x0680 ∧ vendor = some 0x10de then some .nvSwitch
  else none

/-- The role of a node. -/
def roleOf (address : String) (kind : Option HardwareKind) (parent : Option String) :
    HardwareRole :=
  if isHostBridge address then .hostBridge
  else if kind.isSome then .endpoint
  else if parent.any isHostBridge then .rootPort
  else .switchPort

def buildPciNode (sources : HardwareSources) (address : String) (parent : Option String)
    (dir : Dir) (kind : Option HardwareKind) : PciNode where
  address := address
  parent := parent
  role := roleOf address kind parent
  kind := kind
  path := dir
  numaNode := sources.numaNode dir
  link :=
    if !isHostBridge address && sources.runtimeStatus dir != some "suspended" then
      some ⟨sources.currentLink dir, sources.maxLink dir⟩
    else none

/-! ## Chains -/

/-- Adds a component of a path to the chain below the last host bridge. -/
def chainStep (state : Dir × List (String × Dir)) (part : String) : Dir × List (String × Dir) :=
  let base := state.1 ++ [part]
  if isHostBridge part then (base, [(part, base)])
  else if !state.2.isEmpty && isFunctionAddress part then (base, state.2 ++ [(part, base)])
  else (base, state.2)

/-- The chain from the host bridge, with the directories. -/
def chainOf (dir : Dir) : List (String × Dir) := (dir.foldl chainStep ([], [])).2

/-- The chains of the devices of interest. -/
def readChains (sources : HardwareSources) : List (List (String × Dir) × HardwareKind) :=
  sources.names.filterMap fun name => do
    let dir ← sources.link name
    let kind ← classifyPciDevice sources dir ((sources.deviceClass dir).getD 0) (sources.vendor dir)
    if (chainOf dir).getLast?.map Prod.fst = some name then some (chainOf dir, kind) else none

/-- Adds a node, which has a kind if it is the end of a chain, unless a node with its address is to
be kept. -/
def addNode (sources : HardwareSources) (nodes : OrderedMap String PciNode)
    (parent : Option String) (address : String) (dir : Dir) (kind : Option HardwareKind) :
    OrderedMap String PciNode :=
  if (nodes.get? address).any fun node => kind.isNone || node.kind.isSome then nodes
  else nodes.set address (buildPciNode sources address parent dir kind)

/-- Adds the nodes of a chain, of which the last is an endpoint. -/
def addChain (sources : HardwareSources) (kind : HardwareKind) :
    OrderedMap String PciNode → Option String → List (String × Dir) → OrderedMap String PciNode
  | nodes, _, [] => nodes
  | nodes, parent, (address, dir) :: rest =>
    addChain sources kind
      (addNode sources nodes parent address dir (if rest.isEmpty then some kind else none))
      (some address) rest

/-- The number of ancestors, unless there are more than are followed. -/
def depthFrom (all : List PciNode) : ℕ → Option String → Option ℕ
  | _, none => some 0
  | 0, some _ => none
  | steps + 1, some address =>
    (depthFrom all steps ((all.find? fun node => node.address = address).bind PciNode.parent)).map
      (· + 1)

/-- The order by depths, then by addresses. -/
def byDepth (x y : ℕ × PciNode) : Bool :=
  x.1 < y.1 || x.1 == y.1 && x.2.address ≤ y.2.address

/-- Devices of interest and every bridge above them, if no chain of parents has more steps than are
followed. -/
def readTopology (steps : ℕ) (sources : HardwareSources) : Option (List PciNode) := do
  let nodes := (readChains sources).foldl
    (fun nodes chain => addChain sources chain.2 nodes none chain.1) OrderedMap.empty
  let result := nodes.values
  let depths ← result.mapM fun node => depthFrom result steps node.parent
  return ((depths.zip result).mergeSort byDepth).map Prod.snd

end Procinsh.Hardware
