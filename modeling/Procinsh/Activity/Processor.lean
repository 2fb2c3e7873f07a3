import Procinsh.Foundation.LittleEndian
import Procinsh.Foundation.OrderedMap
import Procinsh.Foundation.Saturating
import Procinsh.Ipc.Acquisition

/-!
# System activity from kernel observations

How the server turns what the kernel probes captured into a batch of activity
(`src/http_server/analysis/activity.rs`, `src/ipc/activity.rs`): file and IPC events are added up by
process, object and direction, CPU counters are turned into differences from the batch before.  The
order of the entries of a hash map is not modelled; here it is the order in which their keys first
occurred.  Counters that count items held in memory are natural numbers.  The clock ticks of a
second are a parameter.
-/

namespace Procinsh

open Ipc

/-! ## Values and keys -/

/-- The major and minor numbers of a device number of the kernel. -/
def Ipc.DeviceId.fromKernel (device : UInt64) : DeviceId :=
  ⟨(device >>> 20).toUInt32, (device &&& ((1 : UInt64) <<< 20 - 1)).toUInt32⟩

/-- The bytes of a range, if they are all there. -/
def bytesAt (bytes : List UInt8) (offset length : ℕ) : Option (List UInt8) :=
  if offset + length ≤ bytes.length then some ((bytes.drop offset).take length) else none

def u32At (bytes : List UInt8) (offset : ℕ) : Option UInt32 :=
  (bytesAt bytes offset 4).map fun b => .ofNat (leValue b)

def u64At (bytes : List UInt8) (offset : ℕ) : Option UInt64 :=
  (bytesAt bytes offset 8).map fun b => .ofNat (leValue b)

/-- The process that a kernel key names. -/
def Ipc.processKey (bytes : List UInt8) : Option ProcessKey := do
  let start ← u64At bytes 0
  let pid ← u32At bytes 8
  return ⟨start, pid⟩

/-- The processes of the last snapshot by their PIDs. -/
abbrev KnownProcesses := OrderedMap Int32 ProcessId

/-- The start time in clock ticks of a start time in nanoseconds. -/
def startTicks (ticksPerSecond : ℕ) (start : UInt64) : UInt64 :=
  .ofNat (start.toNat * ticksPerSecond / 1000000000)

/-! ## File events -/

/-- How many keys a batch adds up. -/
def maxAggregates : ℕ := 8192

/-- What file events are added up by. -/
abbrev FileKey := ProcessId × FileIdentity × Bool

def Ipc.FileActivity.key (event : FileActivity) : FileKey :=
  (event.processId, event.file, event.write)

/-- A later event of the same key added to an event; the last known path stays. -/
def Ipc.FileActivity.merge (prior event : FileActivity) : FileActivity :=
  { prior with
    bytes := saturatingAdd prior.bytes event.bytes
    count := saturatingAdd prior.count event.count
    path := event.path.or prior.path }

/-- File events by key, and how many did not fit. -/
structure FileBatch where
  events : OrderedMap FileKey FileActivity
  dropped : ℕ

namespace FileBatch

def empty : FileBatch := ⟨.empty, 0⟩

def add (batch : FileBatch) (event : FileActivity) : FileBatch :=
  match batch.events.get? event.key with
  | some prior => { batch with events := batch.events.set event.key (prior.merge event) }
  | none =>
    if batch.events.entries.length < maxAggregates then
      { batch with events := batch.events.set event.key event }
    else
      { batch with dropped := batch.dropped + 1 }

end FileBatch

/-! ## Signals -/

/-- A signal between two known processes. -/
def resolveSignal (ticksPerSecond : ℕ) (sample : SignalSample) (processes : KnownProcesses) :
    Option SignalEvent := do
  let sourceId ← processes.get? sample.srcPid.toInt32
  let destinationId ← processes.get? sample.dstPid.toInt32
  if sample.signal ≤ 0 ∨ 64 < sample.signal ∨
      startTicks ticksPerSecond sample.srcStart ≠ sourceId.startTimeTicks ∨
      startTicks ticksPerSecond sample.dstStart ≠ destinationId.startTimeTicks then
    none
  else
    some ⟨sample.timestampNs, sample.srcPid, sample.dstPid, sample.signal, sourceId, destinationId⟩

/-! ## The processor -/

/-- What a batch reports. -/
structure ActivityBatch where
  files : List FileActivity
  ipc : List IpcActivity
  signals : List SignalEvent
  cpu : List CpuActivity
  unresolved : ℕ
  filesDropped : ℕ

/-- What is kept between batches. -/
structure ActivityProcessor where
  previousCpu : OrderedMap ProcessKey (UInt64 × UInt64)
  previousRunning : List ProcessKey
  unresolved : ℕ

/-- A processor before its first batch. -/
def ActivityProcessor.default : ActivityProcessor := ⟨.empty, [], 0⟩

/-! ### IPC events -/

/-- What IPC events are added up by. -/
abbrev IpcKey := ProcessId × IpcIdentity × Bool

def Ipc.IpcActivity.key (activity : IpcActivity) : IpcKey :=
  (activity.processId, activity.resource, activity.write)

/-- The process and the object of an event, if the process is known and the event its own. -/
def resolveIpc (ticksPerSecond : ℕ) (known : KnownProcesses) (e : IpcEvent) : Option IpcKey :=
  ((known.get? e.pid.toInt32).filter fun id =>
    !e.worker && startTicks ticksPerSecond e.start == id.startTimeTicks).map fun id =>
      (id, ⟨if e.kind = 1 then .pipe else .socket, .fromKernel e.device, e.inode⟩, e.write)

/-- Bytes and counts by key, and how many events are in none. -/
structure PendingIpc where
  pending : OrderedMap IpcKey (UInt64 × ℕ)
  unresolved : ℕ

/-- Adds an event to the totals of its key, unless there are totals of too many keys. -/
def PendingIpc.add (ticksPerSecond : ℕ) (known : KnownProcesses) (s : PendingIpc) (e : IpcEvent) :
    PendingIpc :=
  match resolveIpc ticksPerSecond known e with
  | none => { s with unresolved := s.unresolved + 1 }
  | some key =>
    if 8192 ≤ s.pending.entries.length then
      { s with unresolved := s.unresolved + 1 }
    else
      let entry := (s.pending.get? key).getD (0, 0)
      { s with pending := s.pending.set key (saturatingAdd entry.1 e.bytes, entry.2 + 1) }

/-- What is reported of the totals of a key. -/
def ipcActivity (e : IpcKey × (UInt64 × ℕ)) : IpcActivity :=
  ⟨e.1.1, e.1.2.1, e.1.2.2, e.2.1, .ofNat e.2.2⟩

/-! ### CPU counters -/

/-- The threads on CPUs: the CPUs of each process, and how long its threads have been on them. -/
structure CurrentSlots where
  running : OrderedMap ProcessKey (List ℕ)
  ongoing : OrderedMap ProcessKey UInt64

/-- The process of a CPU's slot and since when it runs, unless the slot is idle or newer than the
time of the batch. -/
def currentSlot (now : UInt64) (value : List UInt8) : Option (ProcessKey × UInt64) :=
  match Ipc.processKey value with
  | none => none
  | some key =>
    let since := (u64At value 16).getD now
    if key.pid = 0 ∨ now < since then none else some (key, since)

/-- Adds the slot of a CPU. -/
def CurrentSlots.add (now : UInt64) (s : CurrentSlots) (slot : List UInt8 × ℕ) : CurrentSlots :=
  match currentSlot now slot.1 with
  | none => s
  | some (key, since) =>
    ⟨s.running.set key ((s.running.get? key).getD [] ++ [slot.2]),
      s.ongoing.set key ((s.ongoing.get? key).getD 0 + (now - since))⟩

/-- A counter of runtime and switches. -/
abbrev CpuTotal := UInt64 × UInt64

/-- The runtime and the switches that one CPU counted. -/
def perCpuRuntime (perCpu : List.Vector UInt64 2) : UInt64 := perCpu.get 0

def perCpuSwitches (perCpu : List.Vector UInt64 2) : UInt64 := perCpu.get 1

/-- Adds what one CPU counted. -/
def addPerCpu (value : CpuTotal) (perCpu : List.Vector UInt64 2) : CpuTotal :=
  (saturatingAdd value.1 (perCpuRuntime perCpu), saturatingAdd value.2 (perCpuSwitches perCpu))

/-- Adds the counters of a kernel key. -/
def addTotals (cumulative : OrderedMap ProcessKey CpuTotal)
    (totals : List UInt8 × List (List.Vector UInt64 2)) : OrderedMap ProcessKey CpuTotal :=
  match Ipc.processKey totals.1 with
  | none => cumulative
  | some key =>
    cumulative.set key (totals.2.foldl addPerCpu ((cumulative.get? key).getD (0, 0)))

/-- Adds the time that a process is already on its CPUs. -/
def addOngoing (cumulative : OrderedMap ProcessKey CpuTotal) (e : ProcessKey × UInt64) :
    OrderedMap ProcessKey CpuTotal :=
  let value := (cumulative.get? e.1).getD (0, 0)
  cumulative.set e.1 (saturatingAdd value.1 e.2, value.2)

/-- The slots of the CPUs, added up. -/
def currentSlots (raw : CpuCounters) : CurrentSlots :=
  raw.current.zipIdx.foldl (CurrentSlots.add raw.now) ⟨.empty, .empty⟩

/-- The counters of all processes, with the time that they are already on their CPUs. -/
def cumulativeTotals (raw : CpuCounters) : OrderedMap ProcessKey CpuTotal :=
  (currentSlots raw).ongoing.entries.foldl addOngoing (raw.totals.foldl addTotals .empty)

/-- The process that a kernel key is of. -/
def Ipc.ProcessKey.identity (ticksPerSecond : ℕ) (key : ProcessKey) : ProcessId :=
  ⟨key.pid.toInt32, startTicks ticksPerSecond key.start⟩

/-- What is known of the CPU use so far, and what is reported. -/
structure CpuReport where
  result : List CpuActivity
  nextPrevious : OrderedMap ProcessKey CpuTotal
  nextRunning : List ProcessKey
  running : OrderedMap ProcessKey (List ℕ)

/-- Reports a process: what it used since the batch before, if it used anything, runs, or ran. -/
def CpuReport.add (ticksPerSecond : ℕ) (p : ActivityProcessor) (known : List ProcessId)
    (s : CpuReport) (e : ProcessKey × CpuTotal) : CpuReport :=
  let identity := e.1.identity ticksPerSecond
  if identity ∉ known then
    s
  else
    let previous := (p.previousCpu.get? e.1).getD e.2
    let runtimeNs := saturatingSub e.2.1 previous.1
    let switches := saturatingSub e.2.2 previous.2
    let cpus := (s.running.get? e.1).getD []
    { running := s.running.erase e.1
      nextRunning := if cpus ≠ [] then s.nextRunning ++ [e.1] else s.nextRunning
      result :=
        if 0 < runtimeNs ∨ 0 < switches ∨ cpus ≠ [] ∨ e.1 ∈ p.previousRunning then
          s.result ++ [⟨identity, runtimeNs, switches, .ofNat cpus.length, cpus.map .ofNat⟩]
        else
          s.result
      nextPrevious := s.nextPrevious.set e.1 e.2 }

namespace ActivityProcessor

variable (ticksPerSecond : ℕ)

/-- The CPU use since the batch before. -/
def cpu (p : ActivityProcessor) (raw : CpuCounters) (known : KnownProcesses) :
    List CpuActivity × ActivityProcessor :=
  let report := (cumulativeTotals raw).entries.foldl (CpuReport.add ticksPerSecond p known.values)
    ⟨[], .empty, [], (currentSlots raw).running⟩
  (report.result,
    { p with previousCpu := report.nextPrevious, previousRunning := report.nextRunning })

/-- The batch of what was captured. -/
def process (p : ActivityProcessor) (raw : RawActivity) (known : KnownProcesses) :
    ActivityBatch × ActivityProcessor :=
  let files := raw.files.foldl FileBatch.add .empty
  let ipc := raw.ipc.foldl (PendingIpc.add ticksPerSecond known) ⟨.empty, p.unresolved⟩
  let signals := raw.signals.filterMap (resolveSignal ticksPerSecond · known)
  let (cpu, p) := ({ p with unresolved := ipc.unresolved } : ActivityProcessor).cpu
    ticksPerSecond raw.cpu known
  (⟨files.events.values, ipc.pending.entries.map ipcActivity, signals, cpu, p.unresolved,
    files.dropped⟩, p)

end ActivityProcessor

end Procinsh
