import Procinsh.Foundation.Paging
import Procinsh.Foundation.Saturating
import Procinsh.Ipc.Processes

/-!
# Runtime addresses and ELF addresses

How a runtime address is turned into an address of the ELF file that is mapped there, and how the
stack unwinder registers the executable mappings of a process with the load bias of their files
(`src/http_server/analysis/snapshot/symbol/resolve.rs`, `snapshot/symbol/cache.rs`,
`snapshot/unwind.rs`).  Of a parsed file only the loaded segments and the unwind sections are
modelled; the unwinder's library keeps the modules that are added to it.
-/

namespace Procinsh

open Ipc

/-- Whether a mapping has an address. -/
def Ipc.MemoryMap.contains (map : MemoryMap) (address : UInt64) : Bool :=
  map.start ≤ address && address < map.stop

/-- A loaded segment: its offset and size in the file, and its address. -/
abbrev ElfSegment := UInt64 × UInt64 × UInt64

/-- The sections that rules for unwinding are read from. -/
structure UnwindSections where
  ehFrame : Option (List UInt8)
  debugFrame : Option (List UInt8)
  deriving DecidableEq

/-- What is kept of a parsed ELF file. -/
structure ElfSymbols where
  unwind : UnwindSections
  segments : List ElfSegment
  deriving DecidableEq

/-- The address of the instruction that is executed or that a return address follows. -/
def instructionAddress (address : UInt64) (returnAddress : Bool) : UInt64 :=
  saturatingSub address (if returnAddress then 1 else 0)

/-- Whether an offset is in the pages of a segment's part of the file. -/
def inFilePages (page : UInt64) (segment : ElfSegment) (offset : ℕ) : Bool :=
  pageFloor page.toNat segment.1.toNat ≤ offset &&
    offset < pageCeil page.toNat (segment.1.toNat + segment.2.1.toNat)

/-- The ELF address of a runtime address: by the first segment whose pages have its file offset. -/
def elfAddress (address : UInt64) (map : MemoryMap) (elf : ElfSymbols) (page : UInt64) :
    Option UInt64 :=
  if page = 0 ∨ ¬ map.contains address then
    none
  else
    let offset := address.toNat - map.start.toNat + map.fileOffset.toNat
    if 2 ^ 64 ≤ offset then
      none
    else
      match elf.segments.find? fun segment => inFilePages page segment offset with
      | none => none
      | some (fileOffset, _, virtualAddress) =>
        let result : ℤ := offset + virtualAddress.toNat - fileOffset.toNat
        if 0 ≤ result ∧ result < 2 ^ 64 then some (.ofNat result.toNat) else none

/-! ## The stack unwinder -/

/-- A module of the unwinder: the range of addresses and the load bias. -/
structure UnwindModule where
  name : String
  start : UInt64
  stop : UInt64
  base : UInt64
  unwind : UnwindSections
  deriving DecidableEq

/-- What is compared of an executable mapping. -/
abbrev MappingKey := UInt64 × UInt64 × UInt64 × UInt64 × UInt32 × UInt32

/-- The unwinder with its modules, and the mappings that they were made from. -/
structure StackUnwinder where
  unwinder : List UnwindModule
  mappings : List MappingKey
  modules : List (UInt64 × UInt64 × Bool)

namespace StackUnwinder

/-- An unwinder without modules. -/
def default : StackUnwinder := ⟨[], [], []⟩

/-- The executable mappings, as they are compared. -/
def mappingKeys (maps : List MemoryMap) : List MappingKey :=
  (maps.filter (·.executable)).map fun m =>
    (m.start, m.stop, m.fileOffset, m.inode, m.device.major, m.device.minor)

/-- Registers an executable mapping whose file is known, with its load bias. -/
def addModule (page : UInt64) (symbols : MemoryMap → Option ElfSymbols) (u : StackUnwinder)
    (map : MemoryMap) : StackUnwinder :=
  match symbols map with
  | none => u
  | some elf =>
    match elfAddress map.start map elf page with
    | none => u
    | some svma =>
      if map.start < svma then
        u
      else
        let metadata := elf.unwind.ehFrame.isSome || elf.unwind.debugFrame.isSome
        { u with
          unwinder := u.unwinder ++
            [⟨map.pathname.getD "", map.start, map.stop, map.start - svma, elf.unwind⟩]
          modules := u.modules ++ [(map.start, map.stop, metadata)] }

/-- Registers the executable mappings anew when they have changed. -/
def refresh (page : UInt64) (u : StackUnwinder) (maps : List MemoryMap)
    (symbols : MemoryMap → Option ElfSymbols) : StackUnwinder :=
  if mappingKeys maps = u.mappings then
    u
  else
    (maps.filter (·.executable)).foldl (addModule page symbols)
      { unwinder := [], modules := [], mappings := mappingKeys maps }

/-- The module of an executable mapping, if its file is known and has its start. -/
def moduleOf (page : UInt64) (symbols : MemoryMap → Option ElfSymbols) (map : MemoryMap) :
    Option UnwindModule := do
  let elf ← symbols map
  let svma ← elfAddress map.start map elf page
  if map.start < svma then
    none
  else
    some ⟨map.pathname.getD "", map.start, map.stop, map.start - svma, elf.unwind⟩

theorem unwinder_addModule (page : UInt64) (symbols : MemoryMap → Option ElfSymbols)
    (u : StackUnwinder) (map : MemoryMap) :
    (addModule page symbols u map).unwinder =
      u.unwinder ++ (moduleOf page symbols map).toList := by
  unfold addModule moduleOf
  cases symbols map with
  | none => exact (List.append_nil _).symm
  | some elf =>
    rw [Option.bind_eq_bind, Option.bind_some]
    dsimp only
    cases elfAddress map.start map elf page with
    | none => exact (List.append_nil _).symm
    | some svma =>
      rw [Option.bind_eq_bind, Option.bind_some]
      dsimp only
      split
      · exact (List.append_nil _).symm
      · rfl

/-- After a change the modules are those of the executable mappings. -/
theorem unwinder_refresh {page : UInt64} {u : StackUnwinder} {maps : List MemoryMap}
    {symbols : MemoryMap → Option ElfSymbols} (h : mappingKeys maps ≠ u.mappings) :
    (u.refresh page maps symbols).unwinder =
      (maps.filter (·.executable)).filterMap (moduleOf page symbols) := by
  have hloop : ∀ (ms : List MemoryMap) (u : StackUnwinder),
      (ms.foldl (addModule page symbols) u).unwinder =
        u.unwinder ++ ms.filterMap (moduleOf page symbols) := by
    intro ms
    induction ms with
    | nil => exact fun u => (List.append_nil _).symm
    | cons map ms ih =>
      intro u
      rw [List.foldl_cons, ih, unwinder_addModule, List.append_assoc]
      cases hmodule : moduleOf page symbols map with
      | none => rw [List.filterMap_cons_none hmodule]; rfl
      | some module => rw [List.filterMap_cons_some hmodule]; rfl
  rw [refresh, if_neg h, hloop]
  exact List.nil_append _

end StackUnwinder

end Procinsh
