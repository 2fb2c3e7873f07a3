import Procinsh.Elf.Resolve
import Procinsh.Observation.Processor
import Procinsh.Sampling.SampleJson
import Procinsh.Sampling.Sampler

/-!
# Interpreting samples

The server interprets the samples of a reply with the mappings that came with it: it classifies the
registers, unwinds the stack and resolves the frames (`src/http_server/processing.rs`,
`src/http_server/analysis/snapshot/unwind.rs`, `snapshot/registers.rs`, `snapshot/symbol/resolve.rs`).
This is the end of `ObservationProcessor::process`; what comes before does not touch the samples and their
mappings.

The library that iterates over frames is a parameter, and so are the files behind the mappings with what is
found in them; when the samples are interpreted the files have been acquired.
-/

namespace Procinsh.Sampling

open Ipc

/-! ## Registers -/

/-- What a mapping is for. -/
def memoryKind (map : MemoryMap) : MemoryKind :=
  match map.pathname with
  | some path =>
    if "[stack".toList <+: path.toList then .stack
    else if path = "[heap]" then .heap
    else if ".so".toList <:+: path.toList then .sharedLibrary
    else if map.executable then .executable
    else if "/".toList <+: path.toList then .file
    else .anonymous
  | none => if map.executable then .executable else .anonymous

/-- The registers that are shown, with their places. -/
def shownRegisters [Target] : List (String × RegisterRole × ℕ) :=
  if Target.aarch64 then
    [("PC", .pc, 32), ("SP", .sp, 31), ("X29", .fp, 29), ("X30", .lr, 30), ("PSTATE", .flags, 33)] ++
      (List.range 29).map fun i => ("X" ++ toString i, .general, i)
  else
    [("RIP", .pc, 8), ("RSP", .sp, 7), ("RBP", .fp, 6), ("RAX", .general, 0), ("RBX", .general, 1),
      ("RCX", .general, 2), ("RDX", .general, 3), ("RSI", .general, 4), ("RDI", .general, 5),
      ("R8", .general, 16), ("R9", .general, 17), ("R10", .general, 18), ("R11", .general, 19),
      ("R12", .general, 20), ("R13", .general, 21), ("R14", .general, 22), ("R15", .general, 23),
      ("RFLAGS", .flags, 9)]

def classifyRegisterValue (name : String) (role : RegisterRole) (value : UInt64)
    (maps : List MemoryMap) : Register :=
  let map := maps.find? (·.contains value)
  { name := name
    role := role
    value := value
    decimal := toString value.toNat
    kind := (map.map memoryKind).getD .integer
    mapping := map.map fun m => ⟨m.pathname, m.readable, m.writable, m.executable, m.isPrivate⟩
    offset := map.map fun m => value - m.start }

def classifySampleRegisters [Target] (r : RegisterSet) (maps : List MemoryMap) : List Register :=
  (shownRegisters.filter fun (_, role, _) => role ≠ .flags ∨ r.flagsAvailable).map
    fun (name, role, index) => classifyRegisterValue name role (r.values.getD index 0) maps

/-! ## Unwinding -/

/-- What the frame iterator gives next. -/
inductive FrameStep
  | frame (address lookup : UInt64)
  | done
  | couldNotReadStack (address : UInt64)
  | failed (message : String)

/-- The registers that unwinding starts from. -/
structure UnwindRegs where
  ip : UInt64
  lr : UInt64
  sp : UInt64
  fp : UInt64
  codePacMask : Option UInt64

/-- The library that iterates over frames. -/
structure FrameLibrary (ι : Type) where
  iterFrames : List UnwindModule → UnwindRegs → ι
  next : (UInt64 → Option UInt64) → ι → FrameStep × ι

/-- A frame that is not resolved. -/
def rawFrame (address : UInt64) : StackFrame := ⟨address, none, none, none, none, []⟩

/-- Eight bytes of the stack that was captured. -/
def readStack (sp : UInt64) (stack : List UInt8) (address : UInt64) : Option UInt64 :=
  let offset := (address - sp).toNat
  if sp ≤ address ∧ offset + 8 ≤ stack.length then
    some (.ofNat (leValue ((stack.drop offset).take 8)))
  else none

/-- What is missing for an address. -/
def diagnosticAt (modules : List (UInt64 × UInt64 × Bool)) (lookup : UInt64) : Option String :=
  match modules.find? fun (start, stop, _) => start ≤ lookup ∧ lookup < stop with
  | none => some "module lookup failure; frame-pointer fallback"
  | some (_, _, false) => some "unwind metadata unavailable; frame-pointer fallback"
  | some (_, _, true) => none

/-- Why the stack cannot be read. -/
def unreadable (sp : UInt64) (stack : List UInt8) (address : UInt64) : String :=
  let stop := saturatingAdd sp (.ofNat stack.length)
  if sp ≤ address ∧ stop < saturatingAdd address 8 then
    "stack snapshot exhausted at 0x" ++ hexText address.toNat
  else "stack address outside snapshot at 0x" ++ hexText address.toNat

section Walk

variable [Target] {ι : Type} (library : FrameLibrary ι) (maps : List MemoryMap)

/-- The frames, of which there is room for some more, with the reason to stop and what was missing. -/
def walkFrames (modules : List (UInt64 × UInt64 × Bool)) (sp : UInt64) (stack : List UInt8) :
    (room : ℕ) → ι → List StackFrame → Option String → List StackFrame × String × Option String
  | 0, _, frames, diagnostic => (frames, "256-frame limit", diagnostic)
  | room + 1, iter, frames, diagnostic =>
    match library.next (readStack sp stack) iter with
    | (.done, _) => (frames, "end of stack", diagnostic)
    | (.couldNotReadStack address, _) => (frames, unreadable sp stack address, diagnostic)
    | (.failed message, _) => (frames, "unwind failed: " ++ message, diagnostic)
    | (.frame address lookup, iter) =>
      -- The first address is shown even if it is not one of code.
      let stopped := if frames = [] then [rawFrame address] else frames
      if Target.aarch64 ∧ address % 4 ≠ 0 then
        (stopped, "unaligned AArch64 instruction address", diagnostic)
      else if ¬ maps.any fun m => m.executable && m.contains lookup then
        (stopped, "address outside executable mappings", diagnostic)
      else
        walkFrames modules sp stack room iter (frames ++ [rawFrame address])
          ((diagnosticAt modules lookup).or diagnostic)

/-- At most so many frames. -/
def maxFrames : ℕ := 256

def unwindRegs (r : RegisterSet) : UnwindRegs where
  ip := pc r
  lr := lr r
  sp := sp r
  fp := fp r
  codePacMask := if Target.aarch64 then r.codePacMask else none

/-- The frames of a stack, and why there are no more. -/
def walk (u : StackUnwinder) (r : RegisterSet) (stack : List UInt8) : List StackFrame × String :=
  if ¬ maps.any fun m => m.readable && m.contains (sp r) then
    ([rawFrame (pc r)], "SP is outside readable mappings")
  else
    match walkFrames library maps u.modules (sp r) stack maxFrames
      (library.iterFrames u.unwinder (unwindRegs r)) [] none with
    | (frames, reason, some diagnostic) => (frames, reason ++ "; " ++ diagnostic)
    | (frames, reason, none) => (frames, reason)

end Walk

/-! ## Resolving -/

/-- What is found at an address of a file. -/
structure SymbolInfo where
  name : Option String
  offset : Option UInt64
  file : Option String
  line : Option UInt32
  inlineFrames : List SourceFrame

/-- A parsed file, with what is found at its addresses. -/
structure SymbolFile where
  elf : ElfSymbols
  resolveFrame : UInt64 → Option SymbolInfo

/-- Resolves a frame; behind the first one an address is that of the next instruction. -/
def resolveFrame (page : UInt64) (files : MemoryMap → Option SymbolFile) (maps : List MemoryMap)
    (index : ℕ) (frame : StackFrame) : StackFrame :=
  let address := instructionAddress frame.address (0 < index)
  let info := ((maps.find? fun map => map.contains address && map.inode ≠ 0).bind fun map =>
    (files map).bind fun file =>
      (elfAddress address map file.elf page).bind file.resolveFrame).getD ⟨none, none, none, none, []⟩
  { frame with
    symbol := info.name
    symbolOffset := info.offset.map fun offset => "0x" ++ hexText offset.toNat
    sourceFile := info.file
    line := info.line
    inlineFrames := info.inlineFrames }

/-! ## Samples -/

section Process

variable [Target] {ι : Type} (library : FrameLibrary ι) (page : UInt64)
  (files : MemoryMap → Option SymbolFile) (now : UInt64)

/-- The registers and the resolved frames of a sample under some mappings, and why there are no more. -/
def interpret (u : StackUnwinder) (maps : List MemoryMap) (r : RegisterSet) (stack : List UInt8) :
    List Register × List StackFrame × String :=
  let (frames, reason) := walk library maps u r stack
  (classifySampleRegisters r maps, frames.mapIdx fun i frame => resolveFrame page files maps i frame,
    reason)

/-- A sample without what only its interpretation needs, and with its age. -/
def withoutRaw (sample : Json) : Json :=
  let aged :=
    match (sample.field? "sample_time_ns").bind u64? with
    | some time => (sample.removeField "sample_time_ns").setField "sample_age_ms"
        (u64Json (saturatingSub now time / 1000000))
    | none => sample.removeField "sample_time_ns"
  ((aged.removeField "raw_registers").removeField "stack_bytes").removeField "map_epoch"

def unsupported : String := "Only native 64-bit process snapshots are supported"

/-- A sample of a process with another instruction set. -/
def withoutInterpretation (raw : Json) : Json :=
  let error := joinError ((raw.field? "error").bind Json.asString?) unsupported
  ((((raw.setField "error" (.string error)).setField "registers" (.array [])).setField "call_stack"
    (.array [])).setField "unwind_stop" (.string unsupported)).setField "disassembly" .null

/-- The mappings under a number, of which the last ones count. -/
def mapsOf (contexts : List MappingSnapshot) (epoch : UInt64) : Option (List MemoryMap) :=
  (contexts.reverse.find? fun c => c.epoch = epoch).map (·.maps)

/-- Interprets a sample with the mappings under its number. -/
def interpretSample (contexts : List MappingSnapshot) (u : StackUnwinder) (sample : Json) :
    Option (StackUnwinder × Json) :=
  let raw := withoutRaw now sample
  let registers := sample.index "raw_registers"
  let epoch := (sample.field? "map_epoch").bind u64?
  if registers = .null then some (u, raw)
  else if (raw.field? "architecture").bind Json.asString? ≠ some Architecture.native.name then
    some (u, withoutInterpretation raw)
  else do
    let r ← RegisterSet.ofJson? registers
    let stack ← Json.items? byte? (sample.index "stack_bytes")
    let maps := (epoch.bind (mapsOf contexts)).getD []
    let u := u.refresh page maps fun map => (files map).map (·.elf)
    let (registers, frames, reason) := interpret library page files u maps r stack
    return (u, ((raw.setField "registers" (.ofList Register.toJson registers)).setField "call_stack"
      (.ofList StackFrame.toJson frames)).setField "unwind_stop" (.string reason))

/-- Interprets samples one after the other. -/
def interpretAll (contexts : List MappingSnapshot) (u : StackUnwinder) :
    List Json → Option (StackUnwinder × List Json)
  | [] => some (u, [])
  | sample :: samples => do
    let (u, sample) ← interpretSample library page files now contexts u sample
    let (u, samples) ← interpretAll contexts u samples
    return (u, sample :: samples)

/-- The end of `ObservationProcessor::process`. -/
def processSamples (unwinders : OrderedMap ProcessId StackUnwinder) (value : Json) :
    Option (OrderedMap ProcessId StackUnwinder × Json) := do
  let contexts ←
    match value.field? "mapping_snapshots" with
    | some contexts => Json.items? MappingSnapshot.ofJson? contexts
    | none => some []
  let value := value.removeField "mapping_snapshots"
  match (value.field? "live_samples").bind Json.asArray? with
  | none => return (unwinders, value)
  | some samples =>
    let id ← ProcessId.ofJson? ((value.index "summary").index "identity")
    let unwinders := makeRoom unwinders id
    let (u, samples) ←
      interpretAll library page files now contexts ((unwinders.get? id).getD .default) samples
    return (unwinders.set id u, value.setField "live_samples" (.array samples))

end Process

end Procinsh.Sampling
