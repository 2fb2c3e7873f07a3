import Procinsh.Elf.Resolve
import Procinsh.Foundation.SortedMap
import Procinsh.Sampling.Perf

/-!
# The sampler of a process

A `Sampler` (`src/privileged_helper/process/snapshot/capture.rs`) keeps the latest sample of each thread of
a process.  Samples come from the perf events of the thread, which are drained in each poll, and every ten
seconds from ptrace.  A sample keeps the mappings that were current when it was accepted; they are
numbered, and a new number is given when the list of mappings changes.

What the kernel answers is the input of each call: whether the process is still the same, its threads, what
their events hold, and what ptrace captures.  Clocks are readings that come with it.  The number of a
list of mappings is a 64-bit number; an overflow ends the run.
-/

namespace Procinsh.Sampling

open Ipc

/-- `sampled_at` and the like are absent before the first sample. -/
def waiting (tid : Int32) (executableHeader : Option (List.Vector UInt8 20)) : LiveSample where
  tid := tid
  executableHeader := executableHeader
  sampledAt := none
  sampleTimeNs := none
  sampleAgeMs := none
  cpu := none
  lostSamples := 0
  registers := []
  rawRegisters := none
  stackBytes := []
  mapEpoch := none
  context := none
  callStack := []
  disassembly := none
  unwindStop := "Waiting for sample"
  error := none

/-- A thread that is sampled.  The accepted samples, with the mappings that they were accepted under, are a
record that nothing reads. -/
structure Thread where
  startTime : UInt64
  event : Option PerfEventReader
  switchEvent : Option PerfEventReader
  setupError : Option String
  ptraceError : Option String
  latest : LiveSample
  sampledNs : Option UInt64
  codePacMask : Option UInt64
  accepted : List (RawSample × List MemoryMap)

/-- The threads by their numbers, the time of the next ptrace snapshot, and the current mappings. -/
structure Sampler where
  id : ProcessId
  executableHeader : Option (List.Vector UInt8 20)
  threads : SortedMap ℤ Thread
  nextPtrace : Option ℕ
  context : MappingSnapshot

/-! ## Inputs -/

/-- The bytes in the ring of an event, and the position behind the last record. -/
structure Written where
  ring : ℕ → UInt8
  head : UInt64

/-- The clocks when a sample is taken over, and what can be read of the memory of the process. -/
structure Moment where
  monotonicNs : UInt64
  timestampMs : UInt64
  memory : UInt64 → ℕ → Except String (List UInt8)

/-- What is found of a thread that is listed: the start time, if its file can be read, and its events. -/
structure Found where
  tid : Int32
  startTime : Option UInt64
  opened : Except String PerfEventReader
  switchOpened : Except String PerfEventReader
  written : Written
  switchWritten : Written
  moment : Moment

/-- What ptrace gives: the time, the registers and the stack. -/
structure Capture where
  timeNs : UInt64
  registers : RegisterSet
  stack : List UInt8

/-- A round of ptrace snapshots: what each thread gives, when it is done, and whether the process is still
the same. -/
structure PtraceRound where
  capture : ℤ → Except String Capture
  moment : ℤ → Moment
  completed : ℕ
  identity : Except String Unit

/-- What a poll meets. -/
structure PollInput where
  identity : Except String Unit
  threads : Except String (List Found)
  now : ℕ
  ptrace : PtraceRound
  identityAfter : Except String Unit

/-! ## Samples -/

/-- At most so many bytes of instructions. -/
def maxBytes : ℕ := 256

/-- The instructions at an address, as far as they can be read. -/
def captureInstructions (memory : UInt64 → ℕ → Except String (List UInt8)) (pc : UInt64)
    (maps : List MemoryMap) : InstructionBytes :=
  match maps.find? (·.contains pc) with
  | none => ⟨pc, [], some "PC is outside the memory mappings."⟩
  | some map =>
    let length := min (map.stop - pc).toNat maxBytes
    match memory pc length with
    | .ok bytes =>
      ⟨pc, bytes, if bytes.length < length then
        some ("Only some instruction bytes were read (" ++ toString bytes.length ++ " / " ++
          toString length ++ " bytes).") else none⟩
    | .error e => ⟨pc, [], some ("Could not read instruction bytes: " ++ e)⟩

/-- `RegisterSet::pc` -/
def pc [Target] (r : RegisterSet) : UInt64 := r.values.getD (if Target.aarch64 then 32 else 8) 0

/-- `RegisterSet::sp` -/
def sp [Target] (r : RegisterSet) : UInt64 := r.values.getD (if Target.aarch64 then 31 else 7) 0

/-- `RegisterSet::fp` -/
def fp [Target] (r : RegisterSet) : UInt64 := r.values.getD (if Target.aarch64 then 29 else 6) 0

/-- `RegisterSet::lr` -/
def lr [Target] (r : RegisterSet) : UInt64 := if Target.aarch64 then r.values.getD 30 0 else 0

/-- Takes over a sample that is newer than the retained one. -/
def processSample [Target] (moment : Moment) (thread : Thread) (sample : RawSample)
    (maps : List MemoryMap) (context : MappingSnapshot) : Thread :=
  if thread.sampledNs.any fun time => sample.timeNs ≤ time then thread
  else
    let codePacMask := sample.registers.codePacMask.or thread.codePacMask
    let registers := { sample.registers with codePacMask := codePacMask }
    let age := saturatingSub moment.monotonicNs sample.timeNs / 1000000
    { thread with
      codePacMask := codePacMask
      sampledNs := some sample.timeNs
      accepted := thread.accepted ++ [(sample, maps)]
      latest := {
        tid := sample.tid
        executableHeader := thread.latest.executableHeader
        sampledAt := some (saturatingSub moment.timestampMs age)
        sampleTimeNs := some sample.timeNs
        sampleAgeMs := some age
        cpu := sample.cpu
        lostSamples := thread.latest.lostSamples
        registers := []
        rawRegisters := some registers
        stackBytes := sample.stack
        mapEpoch := some context.epoch
        context := some context
        callStack := []
        disassembly := some (captureInstructions moment.memory (pc registers) maps)
        unwindStop := ""
        error := thread.latest.error } }

/-! ## Threads -/

/-- Adds a message to an error that may be there. -/
def joinError (error : Option String) (message : String) : String :=
  match error with
  | some error => error ++ "; " ++ message
  | none => message

/-- A thread that is met for the first time. -/
def openThread (header : Option (List.Vector UInt8 20)) (found : Found) (startTime : UInt64) : Thread :=
  let eventError : Option String :=
    match found.opened with
    | .ok _ => none
    | .error e => some e
  let setupError :=
    match found.switchOpened with
    | .ok _ => eventError
    | .error e => some (joinError eventError ("context-switch perf: " ++ e))
  { startTime := startTime
    event := found.opened.toOption
    switchEvent := found.switchOpened.toOption
    setupError := setupError
    ptraceError := none
    latest := { waiting found.tid header with error := setupError }
    sampledNs := none
    codePacMask := none
    accepted := [] }

/-- What the events of a thread have given: the newest sample, the lost ones, and the error. -/
structure Drained where
  newest : Option RawSample
  lost : UInt64
  error : Option String

/-- Drains an event. -/
def drainEvent [Target] (tid : Int32) (reader : Option PerfEventReader) (written : Written)
    (drained : Drained) : Option PerfEventReader × Drained :=
  match reader with
  | none => (none, drained)
  | some reader =>
    let (reader, result) := reader.drain written.ring written.head
    let drained :=
      match result with
      | .ok (some sample) =>
        if sample.tid = tid ∧ drained.newest.all fun old : RawSample => old.timeNs < sample.timeNs then
          { drained with newest := some sample }
        else drained
      | .ok none => drained
      | .error e => { drained with error := some e }
    (some reader, { drained with lost := saturatingAdd drained.lost reader.lost })

/-- The error of a thread before its events are drained. -/
def standingError (thread : Thread) : Option String :=
  match thread.setupError, thread.ptraceError with
  | some perf, some ptrace => some (perf ++ "; " ++ ptrace)
  | perf, ptrace => perf.or ptrace

/-- Drains the events of a thread, and takes over the newest sample. -/
def drainThread [Target] (found : Found) (maps : List MemoryMap) (context : MappingSnapshot)
    (thread : Thread) : Thread :=
  let (event, drained) := drainEvent found.tid thread.event found.written
    ⟨none, 0, standingError thread⟩
  let (switchEvent, drained) := drainEvent found.tid thread.switchEvent found.switchWritten drained
  let thread := { thread with
    event := event
    switchEvent := switchEvent
    latest := { thread.latest with error := drained.error, lostSamples := drained.lost } }
  match drained.newest with
  | some sample => processSample found.moment thread sample maps context
  | none => thread

namespace Sampler

/-- A sampler that has met no thread. -/
def new (id : ProcessId) (executableHeader : Option (List.Vector UInt8 20)) : Sampler :=
  ⟨id, executableHeader, .empty, none, ⟨0, []⟩⟩

/-- Numbers the mappings anew when they have changed, unless there is no number left. -/
def refreshContext (s : Sampler) (maps : List MemoryMap) : Option Sampler :=
  if s.context.maps = maps then some s
  else if s.context.epoch.toNat + 1 < 2 ^ 64 then
    some { s with context := ⟨s.context.epoch + 1, maps⟩ }
  else none

/-- The thread under a number, unless it has ended and another one has the number now. -/
def threadOf (s : Sampler) (found : Found) (startTime : UInt64) : Thread :=
  match s.threads.get? found.tid.toInt with
  | some thread =>
    if thread.startTime = startTime then thread else openThread s.executableHeader found startTime
  | none => openThread s.executableHeader found startTime

/-- Visits a thread that is listed. -/
def visit [Target] (maps : List MemoryMap) (s : Sampler) (found : Found) : Sampler :=
  match found.startTime with
  | none => s
  | some startTime =>
    let thread := drainThread found maps s.context (s.threadOf found startTime)
    { s with threads := s.threads.insert found.tid.toInt thread }

/-- The threads whose files could be read. -/
def alive (found : List Found) : List ℤ := (found.filter (·.startTime.isSome)).map (·.tid.toInt)

/-- Captures a thread with ptrace. -/
def ptraceThread [Target] (round : PtraceRound) (maps : List MemoryMap) (context : MappingSnapshot)
    (tid : ℤ) (thread : Thread) : Thread :=
  match round.capture tid with
  | .ok c =>
    processSample (round.moment tid)
      { thread with ptraceError := none, latest := { thread.latest with error := thread.setupError } }
      ⟨.ptrace, .ofInt tid, c.timeNs, none, c.registers, c.stack⟩ maps context
  | .error e =>
    let message := "ptrace sampling: " ++ e
    { thread with
      ptraceError := some message
      latest := { thread.latest with error := some (joinError thread.setupError message) } }

/-- Ten seconds between two rounds of ptrace snapshots. -/
def ptraceInterval : ℕ := 10 ^ 10

/-- Captures all threads with ptrace. -/
def capturePtrace [Target] (round : PtraceRound) (maps : List MemoryMap) (s : Sampler) :
    Sampler × Except String Unit :=
  ({ s with
      threads := s.threads.mapEntries fun tid thread => ptraceThread round maps s.context tid thread
      nextPtrace := some (round.completed + ptraceInterval) }, round.identity)

/-- Visits the threads, and captures them with ptrace when it is time for it. -/
def poll [Target] (s : Sampler) (maps : List MemoryMap) (input : PollInput) :
    Option (Sampler × Except String Unit) :=
  match input.identity with
  | .error e => some (s, .error e)
  | .ok () =>
    (s.refreshContext maps).map fun s =>
      match input.threads with
      | .error e => (s, .error e)
      | .ok found =>
        let s := found.foldl (visit maps) s
        let s := { s with threads := s.threads.filter fun tid _ => tid ∈ alive found }
        if s.nextPtrace.any (· ≤ input.now) then
          match s.capturePtrace input.ptrace maps with
          | (s, .error e) => (s, .error e)
          | (s, .ok ()) => (s, input.identityAfter)
        else (s, input.identityAfter)

/-- The first poll, with a round of ptrace snapshots behind it. -/
def bootstrap [Target] (s : Sampler) (maps : List MemoryMap) (input : PollInput) (round : PtraceRound) :
    Option (Sampler × Except String Unit) :=
  (({ s with nextPtrace := none } : Sampler).poll maps input).map fun
    | (s, .error e) => (s, .error e)
    | (s, .ok ()) => s.capturePtrace round maps

/-- Adds the context of a retained sample, unless there is one under its number. -/
def addContext (snapshots : SortedMap ℕ MappingSnapshot) (e : ℤ × Thread) :
    SortedMap ℕ MappingSnapshot :=
  match e.2.latest.context with
  | some context =>
    if (snapshots.get? context.epoch.toNat).isSome then snapshots
    else snapshots.insert context.epoch.toNat context
  | none => snapshots

/-- The contexts of the retained samples, each of them once. -/
def mappingSnapshots (s : Sampler) : List MappingSnapshot :=
  (s.threads.entries.foldl addContext .empty).entries.map Prod.snd

/-- The latest samples, with their ages. -/
def latest (s : Sampler) (now : UInt64) : List LiveSample :=
  s.threads.entries.map fun e => { e.2.latest with
    sampleAgeMs := e.2.sampledNs.map fun time => saturatingSub now time / 1000000 }

/-! ## Runs -/

/-- A call of the sampler. -/
inductive Call
  | bootstrap (maps : List MemoryMap) (input : PollInput) (round : PtraceRound)
  | poll (maps : List MemoryMap) (input : PollInput)

/-- The mappings that are passed to a call. -/
def Call.maps : Call → List MemoryMap
  | bootstrap maps _ _ => maps
  | poll maps _ => maps

/-- What a call leaves, whether it fails or not. -/
def call [Target] (s : Sampler) : Call → Option Sampler
  | .bootstrap maps input round => (s.bootstrap maps input round).map Prod.fst
  | .poll maps input => (s.poll maps input).map Prod.fst

/-- The sampler after some calls. -/
def run [Target] (s : Sampler) (calls : List Call) : Option Sampler := calls.foldlM call s

end Sampler

end Procinsh.Sampling
