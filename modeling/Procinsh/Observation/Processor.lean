import Procinsh.Activity.Processor
import Procinsh.Foundation.Saturating
import Procinsh.Ipc.Request

/-!
# Processing the replies of observation sessions

The server keeps what it needs between the replies of a session: the last sample of a process with
its history, from which the rates of the next one are derived, and the counters behind the activity
of the system (`src/http_server/processing.rs`, `src/http_server/model/process.rs`,
`src/http_server/analysis/history.rs`).  Sessions are closed on two ways
(`src/http_server/client.rs`).

The caches of symbols, of unwinders and of the processes of the last list do not touch these, and are
left out.
-/

namespace Procinsh

open Ipc

deriving instance DecidableEq for ThreadSample, IoStats, ProcessSample

/-! ## Rates -/

/-- Arithmetic on floating point numbers. -/
structure Floats where
  ofU64 : UInt64 → F64
  div : F64 → F64 → F64
  mul : F64 → F64 → F64
  isPositive : F64 → Bool

/-- Arithmetic on the floating point numbers of the language. -/
def Floats.native : Floats where
  ofU64 n := ⟨(Float.ofNat n.toNat).toBits⟩
  div a b := ⟨(Float.ofBits a.bits / Float.ofBits b.bits).toBits⟩
  mul a b := ⟨(Float.ofBits a.bits * Float.ofBits b.bits).toBits⟩
  isPositive a := decide (0 < Float.ofBits a.bits)

/-- No rates. -/
def Ipc.Rates.default : Rates := ⟨none, none, none, none, none, none⟩

def Ipc.ThreadSample.observation (t : ThreadSample) : ThreadObservation where
  tid := t.tid
  name := t.name
  state := t.state
  cpu := t.cpu
  priority := t.priority
  nice := t.nice
  scheduler := t.scheduler
  affinity := t.affinity
  voluntaryContextSwitches := t.voluntaryContextSwitches
  nonvoluntaryContextSwitches := t.nonvoluntaryContextSwitches
  cpuPercent := none

def initialObservation (current : ProcessSample) : ProcessObservation where
  timestamp := current.timestamp
  processId := current.processId
  rssBytes := current.rssBytes
  vmsBytes := current.vmsBytes
  minorFaults := current.minorFaults
  majorFaults := current.majorFaults
  voluntaryContextSwitches := current.voluntaryContextSwitches
  nonvoluntaryContextSwitches := current.nonvoluntaryContextSwitches
  io := current.io
  cpu := current.cpu
  nice := current.nice
  priority := current.priority
  cpuPercent := none
  rates := .default
  threads := current.threads.map ThreadSample.observation

/-- A difference that is not negative. -/
def checkedSub (a b : UInt64) : Option UInt64 := if b ≤ a then some (a - b) else none

section Observations

variable (floats : Floats) (ticksPerSecond : ℕ)

/-- The elapsed time in seconds. -/
def elapsedSeconds (previous current : ProcessSample) : F64 :=
  floats.div (floats.ofU64 (saturatingSub current.measuredAt previous.measuredAt))
    (floats.ofU64 1000000000)

/-- `rate` -/
def rate (elapsed : F64) (a b : UInt64) : Option F64 :=
  (checkedSub a b).map fun d => floats.div (floats.ofU64 d) elapsed

/-- A rate of ticks in percent of a CPU. -/
def cpuPercent (elapsed : F64) (a b : UInt64) : Option F64 :=
  (rate floats elapsed a b).map fun r =>
    floats.mul (floats.div r (floats.ofU64 (.ofNat ticksPerSecond))) (floats.ofU64 100)

/-- The same thread in the sample before. -/
def previousThread (previous : ProcessSample) (t : ThreadSample) : Option ThreadSample :=
  previous.threads.find? fun old => old.tid = t.tid ∧ old.startTime = t.startTime

/-- Adds the context switches of a thread that was there before. -/
def addSwitches (switches : ThreadSample → Option UInt64) (previous : ProcessSample)
    (sum : Option UInt64) (t : ThreadSample) : Option UInt64 :=
  match previousThread previous t with
  | none => sum
  | some old => do
    let a ← sum
    let b ← do
      let new ← switches t
      let old ← switches old
      checkedSub new old
    return a + b

/-- The rates between two samples of a process. -/
def ratesBetween (elapsed : F64) (previous current : ProcessSample) : Rates where
  minorFaults := rate floats elapsed current.minorFaults previous.minorFaults
  majorFaults := rate floats elapsed current.majorFaults previous.majorFaults
  voluntaryContextSwitches :=
    (current.threads.foldl (addSwitches ThreadSample.voluntaryContextSwitches previous)
      (some 0)).map fun v => floats.div (floats.ofU64 v) elapsed
  nonvoluntaryContextSwitches :=
    (current.threads.foldl (addSwitches ThreadSample.nonvoluntaryContextSwitches previous)
      (some 0)).map fun n => floats.div (floats.ofU64 n) elapsed
  readBytes := do rate floats elapsed (← current.io).readBytes (← previous.io).readBytes
  writeBytes := do rate floats elapsed (← current.io).writeBytes (← previous.io).writeBytes

/-- A thread with its CPU use since the sample before. -/
def threadBetween (elapsed : F64) (previous : ProcessSample) (t : ThreadSample) :
    ThreadObservation :=
  { t.observation with
    cpuPercent := (previousThread previous t).bind fun old =>
      cpuPercent floats ticksPerSecond elapsed t.ticks old.ticks }

def nextObservation (previous current : ProcessSample) : ProcessObservation :=
  let elapsed := elapsedSeconds floats previous current
  let derived : Bool := previous.processId = current.processId && floats.isPositive elapsed
  let initial := initialObservation current
  { initial with
    cpuPercent :=
      if derived then cpuPercent floats ticksPerSecond elapsed current.ticks previous.ticks
      else initial.cpuPercent
    rates := if derived then ratesBetween floats elapsed previous current else initial.rates
    threads :=
      if derived then
        current.threads.map (threadBetween floats ticksPerSecond elapsed previous)
      else
        initial.threads }

end Observations

/-! ## Histories -/

/-- Drops points from the front that are too old or too many. -/
def popFront (cutoff : UInt64) : List HistoryPoint → List HistoryPoint
  | [] => []
  | point :: points =>
    if point.timestamp < cutoff ∨ 601 < (point :: points).length then popFront cutoff points
    else point :: points

def appendHistoryObservation (history : List HistoryPoint) (observation : ProcessObservation) :
    List HistoryPoint :=
  popFront (saturatingSub observation.timestamp 60000)
    (history ++ [⟨observation.timestamp, observation.cpuPercent, observation.rssBytes,
      observation.vmsBytes⟩])

structure ProcessHistory where
  sample : ProcessSample
  observation : ProcessObservation
  points : List HistoryPoint

/-! ## Replies -/

/-- What is taken out of the value of a reply: whether it has a summary and is of threads only, the
processes of a snapshot, captured activity, and a sample of a process. -/
structure ObservedValue where
  summary : Bool
  threadsOnly : Bool
  snapshot : Option (List ProcessId)
  rawActivity : Option RawActivity
  processSample : Option ProcessSample

/-- A reply of the helper, as far as it is processed. -/
inductive HelperReply
  | data (value : ObservedValue)
  | started (session : UInt64) (initial : ObservedValue)
  | event (event : Option ObservedValue) (closed : Bool)
  | closed

/-- The value of a reply. -/
def HelperReply.value? : HelperReply → Option ObservedValue
  | .data value | .started _ value => some value
  | .event value _ => value
  | .closed => none

/-- What a sample becomes in a reply. -/
inductive ProcessedSample
  | history (points : List HistoryPoint) (observation : ProcessObservation)
  | observation (observation : ProcessObservation)
  | threads (threads : List ThreadObservation)

/-- What is put into a reply. -/
structure Processed where
  batch : Option ActivityBatch
  sample : Option ProcessedSample

/-- The key of a history. -/
abbrev HistoryKey := UInt64 × ProcessId

/-- What is kept between replies. -/
structure ObservationProcessor where
  histories : OrderedMap HistoryKey ProcessHistory
  activity : OrderedMap UInt64 ActivityProcessor
  known : KnownProcesses

/-- The number of entries at which a map of the processor is full. -/
def maxKept : ℕ := 64

/-- Empties a map that is full, unless it has the key. -/
def makeRoom {κ β : Type} [DecidableEq κ] (m : OrderedMap κ β) (key : κ) : OrderedMap κ β :=
  if maxKept ≤ m.entries.length ∧ (m.get? key).isNone then .empty else m

namespace ObservationProcessor

def default : ObservationProcessor := ⟨.empty, .empty, .empty⟩

def close (self : ObservationProcessor) (session : UInt64) : ObservationProcessor :=
  { self with
    histories := self.histories.eraseAll
      ((self.histories.entries.map Prod.fst).filter fun key => key.1 = session)
    activity := self.activity.erase session }

/-- `snapshot`, as far as it concerns the known processes. -/
def rememberProcesses (self : ObservationProcessor) (value : ObservedValue) :
    ObservationProcessor :=
  match value.snapshot with
  | none => self
  | some processes => { self with known := .ofList (processes.map fun id => (id.pid, id)) }

variable (floats : Floats) (ticksPerSecond : ℕ)

/-- The part of `process` for captured activity. -/
def processActivity (self : ObservationProcessor) (session : Option UInt64)
    (value : ObservedValue) : ObservationProcessor × Option ActivityBatch :=
  match value.rawActivity with
  | none => (self, none)
  | some raw =>
    let session := session.getD 0
    let activity := makeRoom self.activity session
    let (batch, next) :=
      ((activity.get? session).getD .default).process ticksPerSecond raw self.known
    ({ self with activity := activity.set session next }, some batch)

/-- The history of a process with a further sample. -/
def observe (history : Option ProcessHistory) (current : ProcessSample) : ProcessHistory :=
  let history := history.getD ⟨current, initialObservation current, []⟩
  let observed :=
    if history.sample.measuredAt < current.measuredAt then
      nextObservation floats ticksPerSecond history.sample current
    else
      history.observation
  let points :=
    if (history.points.getLast?.all fun point => point.timestamp < current.timestamp) then
      appendHistoryObservation history.points observed
    else
      history.points
  ⟨current, observed, points⟩

/-- The part of `process` for a sample of a process. -/
def processSample (self : ObservationProcessor) (session : Option UInt64)
    (value : ObservedValue) : ObservationProcessor × Option ProcessedSample :=
  match value.processSample with
  | none => (self, none)
  | some current =>
    if value.summary then
      let key := (session.getD 0, current.processId)
      let histories := makeRoom self.histories key
      let history := observe floats ticksPerSecond (histories.get? key) current
      ({ self with histories := histories.set key history },
        some (.history history.points history.observation))
    else
      let observed := initialObservation current
      (self, some (if value.threadsOnly then .threads observed.threads else .observation observed))

def process (self : ObservationProcessor) (session : Option UInt64) (reply : HelperReply) :
    ObservationProcessor × Option Processed :=
  let session :=
    match reply with
    | .started session _ => some session
    | _ => session
  match reply.value? with
  | none => (self, none)
  | some value =>
    let (self, batch) := (self.rememberProcesses value).processActivity ticksPerSecond session value
    let (self, sample) := self.processSample floats ticksPerSecond session value
    (self, some ⟨batch, sample⟩)

end ObservationProcessor

/-! ## The client -/

/-- The session that a request polls. -/
def MonitorRequest.polled? : MonitorRequest → Option UInt64
  | .poll session => some session
  | _ => none

/-- The client of a helper, as far as it processes replies: the processor, and the sessions that were
closed while the processor was in use. -/
structure ReplyClient where
  processor : ObservationProcessor
  closedSessions : List UInt64

namespace ReplyClient

def new : ReplyClient := ⟨.default, []⟩

/-- Forgets the sessions that were closed. -/
def drainClosed (client : ReplyClient) : ReplyClient :=
  ⟨client.closedSessions.foldl ObservationProcessor.close client.processor, []⟩

/-- `MonitorClient::close`; a processor that is in use forgets the session later. -/
def close (client : ReplyClient) (session : UInt64) (inUse : Bool) : ReplyClient :=
  let client := { client with closedSessions := client.closedSessions ++ [session] }
  if inUse then client else client.drainClosed

variable (floats : Floats) (ticksPerSecond : ℕ)

/-- `MonitorClient::request`, from the reply on. -/
def request (client : ReplyClient) (request : MonitorRequest) (reply : HelperReply) :
    ReplyClient × Option Processed :=
  let client := client.drainClosed
  let (processor, processed) :=
    client.processor.process floats ticksPerSecond request.polled? reply
  ({ client with processor := processor }, processed)

end ReplyClient

end Procinsh
