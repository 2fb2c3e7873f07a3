import Procinsh.Ipc.CodecInstances
import Procinsh.Ipc.Request

/-!
# Processes on the helper connection

Kernel objects, mappings, threads, process samples, stacks and registers
(`src/ipc/model/resource.rs`, `memory.rs`, `threads.rs`, `process.rs`, `src/ipc/history.rs`,
`stack.rs`, `registers.rs`) with their wire format.
-/

namespace Procinsh.Ipc

/-! ## Requests -/

instance : Wire ProcessId := wireStruct (fun v => (v.pid, v.startTimeTicks))
  fun (pid, startTimeTicks) => ⟨pid, startTimeTicks⟩

instance : LawfulWire ProcessId := ⟨wireLaws_wireStruct⟩

instance : Wire ProcessResource := wireEnum [.unit 0 .observation, .unit 1 .threads, .unit 2 .maps,
  .unit 3 .environment, .unit 4 .auxv, .unit 5 .fds]

instance : LawfulWire ProcessResource := ⟨wireLaws_wireEnum⟩

instance : Wire FileRange := wireStruct (fun v => (v.offset, v.length))
  fun (offset, length) => ⟨offset, length⟩

instance : LawfulWire FileRange := ⟨wireLaws_wireStruct⟩

instance : Wire MonitorRequest := wireEnum [
  .unit 0 .processes,
  .of 1 (fun (id, resource) => .process id resource) fun
    | .process id resource => some (id, resource)
    | _ => none,
  .of 2 (fun (id, mappingStart, ranges) => .mappedElf id mappingStart ranges) fun
    | .mappedElf id mappingStart ranges => some (id, mappingStart, ranges)
    | _ => none,
  .of 3 .observeProcess fun
    | .observeProcess id => some id
    | _ => none,
  .unit 4 .observeSystem,
  .of 5 .poll fun
    | .poll session => some session
    | _ => none,
  .of 6 .close fun
    | .close session => some session
    | _ => none]

instance : LawfulWire MonitorRequest := ⟨wireLaws_wireEnum⟩

/-- The identity of the helper. -/
structure HelperIdentity where
  pid : UInt32
  capabilities : UInt64

instance : Wire HelperIdentity := wireStruct (fun v => (v.pid, v.capabilities))
  fun (pid, capabilities) => ⟨pid, capabilities⟩

instance : LawfulWire HelperIdentity := ⟨wireLaws_wireStruct⟩

/-! ## Kernel objects -/

/-- A block device, by its numbers. -/
structure DeviceId where
  major : UInt32
  minor : UInt32
  deriving DecidableEq

instance : Wire DeviceId := wireStruct (fun v => (v.major, v.minor))
  fun (major, minor) => ⟨major, minor⟩

instance : LawfulWire DeviceId := ⟨wireLaws_wireStruct⟩

/-- A pipe or a socket. -/
inductive IpcKind
  | pipe
  | socket
  deriving DecidableEq

instance : Wire IpcKind := wireEnum [.unit 0 .pipe, .unit 1 .socket]

instance : LawfulWire IpcKind := ⟨wireLaws_wireEnum⟩

/-- The kernel object behind a pipe or a socket. -/
structure IpcIdentity where
  kind : IpcKind
  device : DeviceId
  inode : UInt64
  deriving DecidableEq

instance : Wire IpcIdentity := wireStruct (fun v => (v.kind, v.device, v.inode))
  fun (kind, device, inode) => ⟨kind, device, inode⟩

instance : LawfulWire IpcIdentity := ⟨wireLaws_wireStruct⟩

/-- An inode of a device. -/
structure FileIdentity where
  device : DeviceId
  inode : UInt64
  generation : UInt32
  deriving DecidableEq

instance : Wire FileIdentity := wireStruct (fun v => (v.device, v.inode, v.generation))
  fun (device, inode, generation) => ⟨device, inode, generation⟩

instance : LawfulWire FileIdentity := ⟨wireLaws_wireStruct⟩

/-! ## Memory -/

/-- What a mapping holds. -/
inductive MemoryKind
  | integer
  | stack
  | heap
  | sharedLibrary
  | executable
  | file
  | anonymous
  deriving DecidableEq

instance : Wire MemoryKind := wireEnum [.unit 0 .integer, .unit 1 .stack, .unit 2 .heap,
  .unit 3 .sharedLibrary, .unit 4 .executable, .unit 5 .file, .unit 6 .anonymous]

instance : LawfulWire MemoryKind := ⟨wireLaws_wireEnum⟩

/-- A mapping of a process. -/
structure MemoryMap where
  start : UInt64
  stop : UInt64
  readable : Bool
  writable : Bool
  executable : Bool
  isPrivate : Bool
  fileOffset : UInt64
  device : DeviceId
  inode : UInt64
  pathname : Option String
  deriving DecidableEq

instance : Wire MemoryMap := wireStruct (fun v => (v.start, v.stop, v.readable, v.writable,
  v.executable, v.isPrivate, v.fileOffset, v.device, v.inode, v.pathname))
  fun (start, stop, readable, writable, executable, isPrivate, fileOffset, device, inode,
    pathname) => ⟨start, stop, readable, writable, executable, isPrivate, fileOffset, device,
    inode, pathname⟩

instance : LawfulWire MemoryMap := ⟨wireLaws_wireStruct⟩

/-- A mapping with its measurements. -/
structure SmapsEntry where
  mapping : MemoryMap
  rssBytes : Option UInt64
  pssBytes : Option UInt64

instance : Wire SmapsEntry := wireStruct (fun v => (v.mapping, v.rssBytes, v.pssBytes))
  fun (mapping, rssBytes, pssBytes) => ⟨mapping, rssBytes, pssBytes⟩

instance : LawfulWire SmapsEntry := ⟨wireLaws_wireStruct⟩

/-- The mappings of one epoch. -/
structure MappingSnapshot where
  epoch : UInt64
  maps : List MemoryMap

instance : Wire MappingSnapshot := wireStruct (fun v => (v.epoch, v.maps))
  fun (epoch, maps) => ⟨epoch, maps⟩

instance : LawfulWire MappingSnapshot := ⟨wireLaws_wireStruct⟩

/-! ## Threads and processes -/

/-- A scheduling policy. -/
inductive SchedulerPolicy
  | other
  | fifo
  | rr
  | batch
  | idle
  | deadline
  | ext
  | unknown (value : UInt32)
  deriving DecidableEq

instance : Wire SchedulerPolicy := wireEnum [
  .unit 0 .other, .unit 1 .fifo, .unit 2 .rr, .unit 3 .batch, .unit 4 .idle, .unit 5 .deadline,
  .unit 6 .ext,
  .of 7 .unknown fun
    | .unknown value => some value
    | _ => none]

instance : LawfulWire SchedulerPolicy := ⟨wireLaws_wireEnum⟩

/-- A range of processors. -/
structure CpuRange where
  start : UInt32
  stop : UInt32
  deriving DecidableEq

instance : Wire CpuRange := wireStruct (fun v => (v.start, v.stop))
  fun (start, stop) => ⟨start, stop⟩

instance : LawfulWire CpuRange := ⟨wireLaws_wireStruct⟩

/-- A thread with its derived rates. -/
structure ThreadObservation where
  tid : Int32
  name : String
  state : String
  cpu : Int32
  cpuPercent : Option F64
  priority : Int64
  nice : Int64
  scheduler : SchedulerPolicy
  affinity : Option (List CpuRange)
  voluntaryContextSwitches : Option UInt64
  nonvoluntaryContextSwitches : Option UInt64

instance : Wire ThreadObservation := wireStruct (fun v => (v.tid, v.name, v.state, v.cpu,
  v.cpuPercent, v.priority, v.nice, v.scheduler, v.affinity, v.voluntaryContextSwitches,
  v.nonvoluntaryContextSwitches))
  fun (tid, name, state, cpu, cpuPercent, priority, nice, scheduler, affinity,
    voluntaryContextSwitches, nonvoluntaryContextSwitches) => ⟨tid, name, state, cpu, cpuPercent,
    priority, nice, scheduler, affinity, voluntaryContextSwitches, nonvoluntaryContextSwitches⟩

instance : LawfulWire ThreadObservation := ⟨wireLaws_wireStruct⟩

/-- A thread as it was sampled. -/
structure ThreadSample where
  tid : Int32
  name : String
  state : String
  cpu : Int32
  priority : Int64
  nice : Int64
  scheduler : SchedulerPolicy
  affinity : Option (List CpuRange)
  voluntaryContextSwitches : Option UInt64
  nonvoluntaryContextSwitches : Option UInt64
  ticks : UInt64
  startTime : UInt64

instance : Wire ThreadSample := wireStruct (fun v => (v.tid, v.name, v.state, v.cpu, v.priority,
  v.nice, v.scheduler, v.affinity, v.voluntaryContextSwitches, v.nonvoluntaryContextSwitches,
  v.ticks, v.startTime))
  fun (tid, name, state, cpu, priority, nice, scheduler, affinity, voluntaryContextSwitches,
    nonvoluntaryContextSwitches, ticks, startTime) => ⟨tid, name, state, cpu, priority, nice,
    scheduler, affinity, voluntaryContextSwitches, nonvoluntaryContextSwitches, ticks, startTime⟩

instance : LawfulWire ThreadSample := ⟨wireLaws_wireStruct⟩

/-- Bytes read and written. -/
structure IoStats where
  readBytes : UInt64
  writeBytes : UInt64

instance : Wire IoStats := wireStruct (fun v => (v.readBytes, v.writeBytes))
  fun (readBytes, writeBytes) => ⟨readBytes, writeBytes⟩

instance : LawfulWire IoStats := ⟨wireLaws_wireStruct⟩

/-- Rates derived from two samples. -/
structure Rates where
  minorFaults : Option F64
  majorFaults : Option F64
  voluntaryContextSwitches : Option F64
  nonvoluntaryContextSwitches : Option F64
  readBytes : Option F64
  writeBytes : Option F64

instance : Wire Rates := wireStruct (fun v => (v.minorFaults, v.majorFaults,
  v.voluntaryContextSwitches, v.nonvoluntaryContextSwitches, v.readBytes, v.writeBytes))
  fun (minorFaults, majorFaults, voluntaryContextSwitches, nonvoluntaryContextSwitches, readBytes,
    writeBytes) => ⟨minorFaults, majorFaults, voluntaryContextSwitches,
    nonvoluntaryContextSwitches, readBytes, writeBytes⟩

instance : LawfulWire Rates := ⟨wireLaws_wireStruct⟩

/-- A process with its derived rates. -/
structure ProcessObservation where
  timestamp : UInt64
  processId : ProcessId
  cpuPercent : Option F64
  rssBytes : UInt64
  vmsBytes : UInt64
  minorFaults : UInt64
  majorFaults : UInt64
  voluntaryContextSwitches : Option UInt64
  nonvoluntaryContextSwitches : Option UInt64
  io : Option IoStats
  rates : Rates
  threads : List ThreadObservation
  cpu : Int32
  nice : Int64
  priority : Int64

instance : Wire ProcessObservation := wireStruct (fun v => (v.timestamp, v.processId, v.cpuPercent,
  v.rssBytes, v.vmsBytes, v.minorFaults, v.majorFaults, v.voluntaryContextSwitches,
  v.nonvoluntaryContextSwitches, v.io, v.rates, v.threads, v.cpu, v.nice, v.priority))
  fun (timestamp, processId, cpuPercent, rssBytes, vmsBytes, minorFaults, majorFaults,
    voluntaryContextSwitches, nonvoluntaryContextSwitches, io, rates, threads, cpu, nice,
    priority) => ⟨timestamp, processId, cpuPercent, rssBytes, vmsBytes, minorFaults, majorFaults,
    voluntaryContextSwitches, nonvoluntaryContextSwitches, io, rates, threads, cpu, nice, priority⟩

instance : LawfulWire ProcessObservation := ⟨wireLaws_wireStruct⟩

/-- A process as it was sampled. -/
structure ProcessSample where
  timestamp : UInt64
  processId : ProcessId
  rssBytes : UInt64
  vmsBytes : UInt64
  minorFaults : UInt64
  majorFaults : UInt64
  voluntaryContextSwitches : Option UInt64
  nonvoluntaryContextSwitches : Option UInt64
  io : Option IoStats
  threads : List ThreadSample
  cpu : Int32
  nice : Int64
  priority : Int64
  ticks : UInt64
  measuredAt : UInt64

instance : Wire ProcessSample := wireStruct (fun v => (v.timestamp, v.processId, v.rssBytes,
  v.vmsBytes, v.minorFaults, v.majorFaults, v.voluntaryContextSwitches,
  v.nonvoluntaryContextSwitches, v.io, v.threads, v.cpu, v.nice, v.priority, v.ticks,
  v.measuredAt))
  fun (timestamp, processId, rssBytes, vmsBytes, minorFaults, majorFaults,
    voluntaryContextSwitches, nonvoluntaryContextSwitches, io, threads, cpu, nice, priority, ticks,
    measuredAt) => ⟨timestamp, processId, rssBytes, vmsBytes, minorFaults, majorFaults,
    voluntaryContextSwitches, nonvoluntaryContextSwitches, io, threads, cpu, nice, priority, ticks,
    measuredAt⟩

instance : LawfulWire ProcessSample := ⟨wireLaws_wireStruct⟩

/-- A point of the history of a process. -/
structure HistoryPoint where
  timestamp : UInt64
  cpuPercent : Option F64
  rssBytes : UInt64
  vmsBytes : UInt64

instance : Wire HistoryPoint := wireStruct (fun v => (v.timestamp, v.cpuPercent, v.rssBytes,
  v.vmsBytes))
  fun (timestamp, cpuPercent, rssBytes, vmsBytes) => ⟨timestamp, cpuPercent, rssBytes, vmsBytes⟩

instance : LawfulWire HistoryPoint := ⟨wireLaws_wireStruct⟩

/-! ## Stacks and registers -/

/-- A function inlined into a frame. -/
structure SourceFrame where
  function : Option String
  file : Option String
  line : Option UInt32
  deriving DecidableEq

instance : Wire SourceFrame := wireStruct (fun v => (v.function, v.file, v.line))
  fun (function, file, line) => ⟨function, file, line⟩

instance : LawfulWire SourceFrame := ⟨wireLaws_wireStruct⟩

/-- A frame of a call stack. -/
structure StackFrame where
  address : UInt64
  symbol : Option String
  symbolOffset : Option String
  sourceFile : Option String
  line : Option UInt32
  inlineFrames : List SourceFrame
  deriving DecidableEq

instance : Wire StackFrame := wireStruct (fun v => (v.address, v.symbol, v.symbolOffset,
  v.sourceFile, v.line, v.inlineFrames))
  fun (address, symbol, symbolOffset, sourceFile, line, inlineFrames) => ⟨address, symbol,
    symbolOffset, sourceFile, line, inlineFrames⟩

instance : LawfulWire StackFrame := ⟨wireLaws_wireStruct⟩

/-- What a register is for. -/
inductive RegisterRole
  | pc
  | sp
  | fp
  | lr
  | flags
  | general
  deriving DecidableEq

instance : Wire RegisterRole := wireEnum [.unit 0 .pc, .unit 1 .sp, .unit 2 .fp, .unit 3 .lr,
  .unit 4 .flags, .unit 5 .general]

instance : LawfulWire RegisterRole := ⟨wireLaws_wireEnum⟩

/-- The mapping that a register points into. -/
structure RegisterMapping where
  pathname : Option String
  readable : Bool
  writable : Bool
  executable : Bool
  isPrivate : Bool

instance : Wire RegisterMapping := wireStruct (fun v => (v.pathname, v.readable, v.writable,
  v.executable, v.isPrivate))
  fun (pathname, readable, writable, executable, isPrivate) => ⟨pathname, readable, writable,
    executable, isPrivate⟩

instance : LawfulWire RegisterMapping := ⟨wireLaws_wireStruct⟩

/-- A register of a sample. -/
structure Register where
  name : String
  role : RegisterRole
  value : UInt64
  decimal : String
  kind : MemoryKind
  mapping : Option RegisterMapping
  offset : Option UInt64

instance : Wire Register := wireStruct (fun v => (v.name, v.role, v.value, v.decimal, v.kind,
  v.mapping, v.offset))
  fun (name, role, value, decimal, kind, mapping, offset) => ⟨name, role, value, decimal, kind,
    mapping, offset⟩

instance : LawfulWire Register := ⟨wireLaws_wireStruct⟩

/-- The architecture that the program is built for. -/
class Target where
  aarch64 : Bool

/-- The registers of a sample. -/
structure RegisterSet where
  values : List UInt64
  flagsAvailable : Bool
  codePacMask : Option UInt64
  deriving DecidableEq

/-- `RegisterSet::COUNT` -/
def RegisterSet.count [Target] : ℕ := if Target.aarch64 then 34 else 24

/-- `RegisterSet::validate` -/
def RegisterSet.validate [Target] (v : RegisterSet) : Except String Unit :=
  if v.values.length = count then .ok () else .error "Invalid native register count"

instance [Target] : Wire RegisterSet where
  write v := do
    (v.validate : Except String Unit)
    write v.values
    write v.flagsAvailable
    write v.codePacMask
  read := do
    let values ← read
    let flagsAvailable ← read
    let codePacMask ← read
    let result : RegisterSet := ⟨values, flagsAvailable, codePacMask⟩
    (result.validate : Except String Unit)
    return result

end Procinsh.Ipc
