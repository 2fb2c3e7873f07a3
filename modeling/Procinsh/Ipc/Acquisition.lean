import Procinsh.Ipc.System

/-!
# Acquisitions on the helper connection

Sensor events, process data and the replies of the helper (`src/ipc/activity.rs`,
`acquisition.rs`, `elf.rs`, `schema.rs`) with their wire format.
-/

namespace Procinsh.Ipc

/-! ## Activity -/

/-- A process as the sensors identify it. -/
structure ProcessKey where
  start : UInt64
  pid : UInt32
  deriving DecidableEq

instance : Wire ProcessKey := wireStruct (fun v => (v.start, v.pid))
  fun (start, pid) => ⟨start, pid⟩

instance : LawfulWire ProcessKey := ⟨wireLaws_wireStruct⟩

/-- A signal, by the keys of its processes. -/
structure SignalSample where
  timestampNs : UInt64
  srcStart : UInt64
  dstStart : UInt64
  srcPid : UInt32
  dstPid : UInt32
  signal : Int32

instance : Wire SignalSample := wireStruct (fun v => (v.timestampNs, v.srcStart, v.dstStart,
  v.srcPid, v.dstPid, v.signal))
  fun (timestampNs, srcStart, dstStart, srcPid, dstPid, signal) => ⟨timestampNs, srcStart,
    dstStart, srcPid, dstPid, signal⟩

instance : LawfulWire SignalSample := ⟨wireLaws_wireStruct⟩

/-- A transfer through a pipe or a socket. -/
structure IpcEvent where
  start : UInt64
  inode : UInt64
  device : UInt64
  bytes : UInt64
  pid : UInt32
  kind : UInt32
  write : Bool
  worker : Bool

instance : Wire IpcEvent := wireStruct (fun v => (v.start, v.inode, v.device, v.bytes, v.pid,
  v.kind, v.write, v.worker))
  fun (start, inode, device, bytes, pid, kind, write, worker) => ⟨start, inode, device, bytes, pid,
    kind, write, worker⟩

instance : LawfulWire IpcEvent := ⟨wireLaws_wireStruct⟩

/-- Transfers to or from a file. -/
structure FileActivity where
  processId : ProcessId
  file : FileIdentity
  path : Option String
  write : Bool
  bytes : UInt64
  count : UInt64

instance : Wire FileActivity := wireStruct (fun v => (v.processId, v.file, v.path, v.write,
  v.bytes, v.count))
  fun (processId, file, path, write, bytes, count) => ⟨processId, file, path, write, bytes, count⟩

instance : LawfulWire FileActivity := ⟨wireLaws_wireStruct⟩

/-- Counters of the scheduler. -/
structure CpuCounters where
  now : UInt64
  current : List (List UInt8)
  totals : List (List UInt8 × List (List.Vector UInt64 2))

instance : Wire CpuCounters := wireStruct (fun v => (v.now, v.current, v.totals))
  fun (now, current, totals) => ⟨now, current, totals⟩

instance : LawfulWire CpuCounters := ⟨wireLaws_wireStruct⟩

/-- Activity as the sensors report it. -/
structure RawActivity where
  files : List FileActivity
  ipc : List IpcEvent
  signals : List SignalSample
  cpu : CpuCounters

instance : Wire RawActivity := wireStruct (fun v => (v.files, v.ipc, v.signals, v.cpu))
  fun (files, ipc, signals, cpu) => ⟨files, ipc, signals, cpu⟩

instance : LawfulWire RawActivity := ⟨wireLaws_wireStruct⟩

/-- Time that a process ran. -/
structure CpuActivity where
  processId : ProcessId
  runtimeNs : UInt64
  switches : UInt64
  runningThreads : Size
  cpus : List Size

instance : Wire CpuActivity := wireStruct (fun v => (v.processId, v.runtimeNs, v.switches,
  v.runningThreads, v.cpus))
  fun (processId, runtimeNs, switches, runningThreads, cpus) => ⟨processId, runtimeNs, switches,
    runningThreads, cpus⟩

instance : LawfulWire CpuActivity := ⟨wireLaws_wireStruct⟩

/-- Transfers of a process through a pipe or a socket. -/
structure IpcActivity where
  processId : ProcessId
  resource : IpcIdentity
  write : Bool
  bytes : UInt64
  count : UInt64

instance : Wire IpcActivity := wireStruct (fun v => (v.processId, v.resource, v.write, v.bytes,
  v.count))
  fun (processId, resource, write, bytes, count) => ⟨processId, resource, write, bytes, count⟩

instance : LawfulWire IpcActivity := ⟨wireLaws_wireStruct⟩

/-- A signal, by its processes. -/
structure SignalEvent where
  timestampNs : UInt64
  srcPid : UInt32
  dstPid : UInt32
  signal : Int32
  sourceId : ProcessId
  destinationId : ProcessId

instance : Wire SignalEvent := wireStruct (fun v => (v.timestampNs, v.srcPid, v.dstPid, v.signal,
  v.sourceId, v.destinationId))
  fun (timestampNs, srcPid, dstPid, signal, sourceId, destinationId) => ⟨timestampNs, srcPid,
    dstPid, signal, sourceId, destinationId⟩

instance : LawfulWire SignalEvent := ⟨wireLaws_wireStruct⟩

/-! ## Process data -/

/-- A process in a listing. -/
structure ProcessSummary where
  identity : ProcessId
  parentPid : Int32
  name : String
  executable : Option String
  commandLine : Option (List String)
  uid : Option UInt32
  username : Option String
  euid : Option UInt32
  effectiveUsername : Option String
  state : String
  startedAt : Option UInt64
  cpuPercent : Option F64
  rssBytes : UInt64
  threadCount : UInt32
  rawTicks : UInt64
  rawMeasuredNs : UInt64

instance : Wire ProcessSummary := wireStruct (fun v => (v.identity, v.parentPid, v.name,
  v.executable, v.commandLine, v.uid, v.username, v.euid, v.effectiveUsername, v.state,
  v.startedAt, v.cpuPercent, v.rssBytes, v.threadCount, v.rawTicks, v.rawMeasuredNs))
  fun (identity, parentPid, name, executable, commandLine, uid, username, euid, effectiveUsername,
    state, startedAt, cpuPercent, rssBytes, threadCount, rawTicks, rawMeasuredNs) => ⟨identity,
    parentPid, name, executable, commandLine, uid, username, euid, effectiveUsername, state,
    startedAt, cpuPercent, rssBytes, threadCount, rawTicks, rawMeasuredNs⟩

instance : LawfulWire ProcessSummary := ⟨wireLaws_wireStruct⟩

/-- Memory of a process in sum. -/
structure MemoryRollup where
  rssBytes : Option UInt64
  pssBytes : Option UInt64
  privateBytes : Option UInt64

instance : Wire MemoryRollup := wireStruct (fun v => (v.rssBytes, v.pssBytes, v.privateBytes))
  fun (rssBytes, pssBytes, privateBytes) => ⟨rssBytes, pssBytes, privateBytes⟩

instance : LawfulWire MemoryRollup := ⟨wireLaws_wireStruct⟩

/-- The mappings of a process. -/
structure MemoryMaps where
  processId : ProcessId
  maps : List SmapsEntry
  error : Option String
  capturedAt : Option UInt64
  rollup : Option MemoryRollup

instance : Wire MemoryMaps := wireStruct (fun v => (v.processId, v.maps, v.error, v.capturedAt,
  v.rollup))
  fun (processId, maps, error, capturedAt, rollup) => ⟨processId, maps, error, capturedAt, rollup⟩

instance : LawfulWire MemoryMaps := ⟨wireLaws_wireStruct⟩

/-- The instructions at an address. -/
structure InstructionBytes where
  address : UInt64
  bytes : List UInt8
  error : Option String

instance : Wire InstructionBytes := wireStruct (fun v => (v.address, v.bytes, v.error))
  fun (address, bytes, error) => ⟨address, bytes, error⟩

instance : LawfulWire InstructionBytes := ⟨wireLaws_wireStruct⟩

/-- What took a sample. -/
inductive SampleSource
  | cpuClock
  | ptrace
  | contextSwitch (preempted : Bool)
  deriving DecidableEq

instance : Wire SampleSource := wireEnum [
  .unit 0 .cpuClock, .unit 1 .ptrace,
  .of 2 .contextSwitch fun
    | .contextSwitch preempted => some preempted
    | _ => none]

instance : LawfulWire SampleSource := ⟨wireLaws_wireEnum⟩

/-- The health of a sensor. -/
inductive SensorState
  | idle
  | observing
  | unavailable (value : String)
  | error (value : String)
  deriving DecidableEq

instance : Wire SensorState := wireEnum [
  .unit 0 .idle, .unit 1 .observing,
  .of 2 .unavailable fun
    | .unavailable value => some value
    | _ => none,
  .of 3 .error fun
    | .error value => some value
    | _ => none]

instance : LawfulWire SensorState := ⟨wireLaws_wireEnum⟩

/-- State and collection health of the system sensors. -/
structure SystemMonitorStatus where
  active : Bool
  ipc : SensorState
  cpu : SensorState
  files : SensorState
  signals : SensorState
  signalsLost : Option UInt64
  coverage : Option String
  filesCoverage : Option String
  lost : Option UInt64
  unresolved : Option UInt64
  filesLost : Option UInt64

instance : Wire SystemMonitorStatus := wireStruct (fun v => (v.active, v.ipc, v.cpu, v.files,
  v.signals, v.signalsLost, v.coverage, v.filesCoverage, v.lost, v.unresolved, v.filesLost))
  fun (active, ipc, cpu, files, signals, signalsLost, coverage, filesCoverage, lost, unresolved,
    filesLost) => ⟨active, ipc, cpu, files, signals, signalsLost, coverage, filesCoverage, lost,
    unresolved, filesLost⟩

instance : LawfulWire SystemMonitorStatus := ⟨wireLaws_wireStruct⟩

/-- The activity of a window of time. -/
structure SystemActivity where
  capturedAt : UInt64
  windowMs : UInt64
  files : List FileActivity
  ipc : List IpcActivity
  cpu : List CpuActivity
  signals : List SignalEvent
  status : SystemMonitorStatus
  rawActivity : Option RawActivity

instance : Wire SystemActivity := wireStruct (fun v => (v.capturedAt, v.windowMs, v.files, v.ipc,
  v.cpu, v.signals, v.status, v.rawActivity))
  fun (capturedAt, windowMs, files, ipc, cpu, signals, status, rawActivity) => ⟨capturedAt,
    windowMs, files, ipc, cpu, signals, status, rawActivity⟩

instance : LawfulWire SystemActivity := ⟨wireLaws_wireStruct⟩

/-- A sample of a process. -/
structure ObservationData where
  processSample : ProcessSample
  threadsOnly : Bool

instance : Wire ObservationData := wireStruct (fun v => (v.processSample, v.threadsOnly))
  fun (processSample, threadsOnly) => ⟨processSample, threadsOnly⟩

instance : LawfulWire ObservationData := ⟨wireLaws_wireStruct⟩

/-- The environment of a process. -/
structure EnvironmentData where
  processId : ProcessId
  capturedAt : UInt64
  rawEnvironment : List UInt8

instance : Wire EnvironmentData := wireStruct (fun v => (v.processId, v.capturedAt,
  v.rawEnvironment))
  fun (processId, capturedAt, rawEnvironment) => ⟨processId, capturedAt, rawEnvironment⟩

instance : LawfulWire EnvironmentData := ⟨wireLaws_wireStruct⟩

/-- The auxiliary vector of a process. -/
structure AuxData where
  processId : ProcessId
  capturedAt : UInt64
  wordBits : Size
  rawAuxv : List UInt8
  rawAuxStrings : List (UInt64 × Option String × Option String)

instance : Wire AuxData := wireStruct (fun v => (v.processId, v.capturedAt, v.wordBits, v.rawAuxv,
  v.rawAuxStrings))
  fun (processId, capturedAt, wordBits, rawAuxv, rawAuxStrings) => ⟨processId, capturedAt,
    wordBits, rawAuxv, rawAuxStrings⟩

instance : LawfulWire AuxData := ⟨wireLaws_wireStruct⟩

/-- What the helper acquires about processes. -/
inductive AcquiredData
  | processes (value : List ProcessSummary)
  | observation (value : ObservationData)
  | maps (value : MemoryMaps)
  | environment (value : EnvironmentData)
  | auxv (value : AuxData)
  | fds (value : FileDescriptors)

instance : Wire AcquiredData := wireEnum [
  .of 0 .processes fun
    | .processes value => some value
    | _ => none,
  .of 1 .observation fun
    | .observation value => some value
    | _ => none,
  .of 2 .maps fun
    | .maps value => some value
    | _ => none,
  .of 3 .environment fun
    | .environment value => some value
    | _ => none,
  .of 4 .auxv fun
    | .auxv value => some value
    | _ => none,
  .of 5 .fds fun
    | .fds value => some value
    | _ => none]

instance : LawfulWire AcquiredData := ⟨wireLaws_wireEnum⟩

/-! ## Files and live samples -/

/-- `MAX_READ_SIZE` -/
def maxReadSize : ℕ := 64 * 1024 * 1024

/-- The content of a range of a file. -/
structure FileChunk where
  offset : UInt64
  bytes : List UInt8

instance : Wire FileChunk where
  write v := do
    write v.offset
    writeBlob v.bytes
  read := do
    let offset ← read
    let bytes ← readBlob
    if bytes.length ≤ maxReadSize then return ⟨offset, bytes⟩
    else throw "mapped file read exceeds limit"

/-- `ElfFileId` -/
abbrev ElfFileId := UInt64 × UInt64 × UInt64 × Int64 × Int64

/-- Ranges of a mapped file. -/
structure MappedFileData where
  identity : ElfFileId
  chunks : List FileChunk

instance : Wire MappedFileData := wireStruct (fun v => (v.identity, v.chunks))
  fun (identity, chunks) => ⟨identity, chunks⟩

/-- A thread sample with loss and error diagnostics. -/
structure LiveSample where
  tid : Int32
  executableHeader : Option (List.Vector UInt8 20)
  sampledAt : Option UInt64
  sampleTimeNs : Option UInt64
  sampleAgeMs : Option UInt64
  cpu : Option UInt32
  lostSamples : UInt64
  registers : List Register
  rawRegisters : Option RegisterSet
  stackBytes : List UInt8
  mapEpoch : Option UInt64
  context : Option MappingSnapshot
  callStack : List StackFrame
  disassembly : Option InstructionBytes
  unwindStop : String
  error : Option String

section Target

variable [Target]

/-- The context is not transferred. -/
instance : Wire LiveSample := wireStruct
  (fun v => (v.tid, v.executableHeader, v.sampledAt, v.sampleTimeNs, v.sampleAgeMs, v.cpu,
    v.lostSamples, v.registers, v.rawRegisters, v.stackBytes, v.mapEpoch, v.callStack,
    v.disassembly, v.unwindStop, v.error))
  fun (tid, executableHeader, sampledAt, sampleTimeNs, sampleAgeMs, cpu, lostSamples, registers,
    rawRegisters, stackBytes, mapEpoch, callStack, disassembly, unwindStop, error) =>
    ⟨tid, executableHeader, sampledAt, sampleTimeNs, sampleAgeMs, cpu, lostSamples, registers,
      rawRegisters, stackBytes, mapEpoch, none, callStack, disassembly, unwindStop, error⟩

/-- A process under observation. -/
structure ProcessDetailSnapshot where
  summary : ProcessSummary
  exited : Bool
  error : Option String
  processSample : ProcessSample
  maps : List SmapsEntry
  mapsError : Option String
  mapsCapturedAt : Option UInt64
  rollup : Option MemoryRollup
  liveSamples : List LiveSample
  mappingSnapshots : List MappingSnapshot
  samplingError : Option String

instance : Wire ProcessDetailSnapshot := wireStruct
  (fun v => (v.summary, v.exited, v.error, v.processSample, v.maps, v.mapsError, v.mapsCapturedAt,
    v.rollup, v.liveSamples, v.mappingSnapshots, v.samplingError))
  fun (summary, exited, error, processSample, maps, mapsError, mapsCapturedAt, rollup, liveSamples,
    mappingSnapshots, samplingError) =>
    ⟨summary, exited, error, processSample, maps, mapsError, mapsCapturedAt, rollup, liveSamples,
      mappingSnapshots, samplingError⟩

/-! ## Replies -/

/-- An event of an observation session. -/
inductive MonitorEvent
  | observation (value : ProcessDetailSnapshot)
  | acquiredSnapshot (value : SystemSnapshot)
  | acquisitionGap (dropped : UInt64) (snapshot : SystemSnapshot)
  | activity (value : SystemActivity)

instance : Wire MonitorEvent := wireEnum [
  .of 0 .observation fun
    | .observation value => some value
    | _ => none,
  .of 1 .acquiredSnapshot fun
    | .acquiredSnapshot value => some value
    | _ => none,
  .of 2 (fun (dropped, snapshot) => .acquisitionGap dropped snapshot) fun
    | .acquisitionGap dropped snapshot => some (dropped, snapshot)
    | _ => none,
  .of 3 .activity fun
    | .activity value => some value
    | _ => none]

/-- A reply of the helper. -/
inductive MonitorResponse
  | data (value : AcquiredData)
  | elf (value : Option MappedFileData)
  | started (session : UInt64) (initial : MonitorEvent)
  | event (event : Option MonitorEvent) (closed : Bool)
  | closed

instance : Wire MonitorResponse := wireEnum [
  .of 0 .data fun
    | .data value => some value
    | _ => none,
  .of 1 .elf fun
    | .elf value => some value
    | _ => none,
  .of 3 (fun (session, initial) => .started session initial) fun
    | .started session initial => some (session, initial)
    | _ => none,
  .of 4 (fun (event, closed) => .event event closed) fun
    | .event event closed => some (event, closed)
    | _ => none,
  .of 5 (fun _ : Unit => .closed) fun
    | .closed => some ()
    | _ => none]

/-- `WireResponse`; errors are data. -/
abbrev WireResponse := Except String MonitorResponse

end Target

end Procinsh.Ipc
