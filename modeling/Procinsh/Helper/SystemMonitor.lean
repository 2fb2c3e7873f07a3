import Procinsh.Foundation.Broadcast
import Procinsh.Foundation.Tasks
import Procinsh.Foundation.Transition

/-!
# The system monitor and its observation sessions

`SystemMonitor` (`src/privileged_helper/system/service.rs`) publishes snapshots and activity through
a broadcast channel and keeps the current snapshot beside it; the helper's dispatcher
(`src/privileged_helper/helper_service.rs`) subscribes and polls.  Three threads interleave: the
snapshot worker, which sends a snapshot before it stores it as the current one, the activity worker,
and the dispatcher, which runs one request at a time.

A snapshot is named by the number of its publication; number 0 is the empty snapshot from before
the first publication.  Both workers ask `active` before they go on, which needs the lock that a
subscription holds from its first to its last step, so each of them sends at most once while a
subscription is under way.
-/

namespace Procinsh

/-- The capacity of the broadcast ring. -/
def ringCapacity : ℕ := 16

/-- The most subscribers. -/
def viewerLimit : ℕ := 32

/-- An event of the system monitoring service. -/
inductive SystemMonitorEvent
  | snapshot (number : ℕ)
  | activity
  deriving DecidableEq, Repr

/-- The publication number of a snapshot event. -/
def SystemMonitorEvent.number? : SystemMonitorEvent → Option ℕ
  | snapshot number => some number
  | activity => none

/-- The publication numbers of the snapshots among the events. -/
def numbers (events : List SystemMonitorEvent) : List ℕ :=
  events.filterMap SystemMonitorEvent.number?

/-- A complete snapshot handed to a session. -/
inductive Delivery
  /-- With the reply that starts the session. -/
  | initial (number : ℕ)
  | snapshot (number : ℕ)
  /-- With a gap: the frames from the position `start` on, `dropped` of them, are missed. -/
  | gap (start dropped number : ℕ)
  deriving DecidableEq, Repr

/-- The publication number of the snapshot. -/
def Delivery.number : Delivery → ℕ
  | initial number | snapshot number | gap _ _ number => number

/-- An observation session of the system. -/
structure SystemSession where
  /-- The cursor of its receiver. -/
  cursor : ℕ
  /-- The complete snapshots handed to it, in order. -/
  handed : List Delivery
  /-- Whether its subscription is still held. -/
  held : Bool
  deriving DecidableEq, Repr

/-- Where the snapshot worker stands. -/
inductive WorkerStage
  | idle
  /-- It has found the monitor active and collects a snapshot. -/
  | collecting
  /-- It has sent the last published snapshot and not stored it yet. -/
  | sent
  deriving DecidableEq, Repr

/-- Where the dispatcher stands. -/
inductive DispatchStage
  | idle
  /-- A subscription holds the lock and is counted. -/
  | entered
  /-- A subscription has its receiver. -/
  | received (cursor : ℕ)
  /-- A subscription has its receiver and its initial snapshot. -/
  | returning
  /-- A poll of the session found its receiver lagged by `dropped` frames from `start` on. -/
  | lagged (session start dropped : ℕ)
  deriving DecidableEq, Repr

/-- The monitor with its workers, the dispatcher and the sessions. -/
structure MonitorState where
  viewers : ℕ
  stopped : Bool
  started : Bool
  /-- The number of the current snapshot. -/
  current : ℕ
  channel : Broadcast SystemMonitorEvent
  /-- The number of the last snapshot sent. -/
  published : ℕ
  worker : WorkerStage
  /-- Whether the activity worker has found the monitor active and not sent yet. -/
  activityReady : Bool
  dispatcher : DispatchStage
  sessions : List SystemSession
  deriving DecidableEq

/-- One step of one thread. -/
inductive MonitorAction
  | subscribe
  | takeReceiver
  | readInitial
  | finishSubscribe
  | poll (session : ℕ)
  /-- A lagged poll reads the current snapshot for its answer. -/
  | readCurrent
  /-- A subscription is dropped. -/
  | drop (session : ℕ)
  | workerCheck
  | workerSend
  | workerStore
  | activityCheck
  | activitySend
  | stop
  deriving DecidableEq, Repr

namespace MonitorState

/-- A monitor without subscribers. -/
def new : MonitorState :=
  ⟨0, false, false, 0, ⟨ringCapacity, []⟩, 0, .idle, false, .idle, []⟩

/-- Whether a subscription holds the viewers lock. -/
def locked (s : MonitorState) : Bool :=
  match s.dispatcher with
  | .entered | .received _ | .returning => true
  | _ => false

/-- `active`, asked while the lock is free. -/
def active (s : MonitorState) : Bool := !s.stopped && 0 < s.viewers

/-- Whether the channel has a receiver; a value sent without one is not kept. -/
def hasReceiver (s : MonitorState) : Bool :=
  (match s.dispatcher with
    | .received _ => true
    | _ => false) || s.sessions.any SystemSession.held

/-- `send` -/
def send (s : MonitorState) (event : SystemMonitorEvent) : MonitorState :=
  if s.hasReceiver then { s with channel := s.channel.send event } else s

/-- The effect of an action, or `none` when the thread that performs it is not at that point. -/
def step (s : MonitorState) : MonitorAction → Option MonitorState
  | .subscribe =>
    if s.dispatcher ≠ .idle then none
    -- `Stopped` and `TooManySubscribers`
    else if s.stopped ∨ s.viewers ≥ viewerLimit then some s
    else some { s with viewers := s.viewers + 1, dispatcher := .entered }
  | .takeReceiver =>
    if s.dispatcher = .entered then
      some { s with dispatcher := .received s.channel.log.length }
    else none
  | .readInitial =>
    match s.dispatcher with
    | .received cursor =>
      some { s with
        sessions := s.sessions ++ [⟨cursor, [.initial s.current], true⟩]
        dispatcher := .returning }
    | _ => none
  | .finishSubscribe =>
    if s.dispatcher = .returning then some { s with started := true, dispatcher := .idle }
    else none
  | .poll k =>
    match s.dispatcher, s.sessions[k]? with
    | .idle, some ⟨cursor, handed, true⟩ =>
      match s.channel.tryRecv cursor with
      | (.value (.snapshot number), cursor') =>
        some { s with sessions := s.sessions.set k ⟨cursor', handed ++ [.snapshot number], true⟩ }
      | (.value .activity, cursor') =>
        some { s with sessions := s.sessions.set k ⟨cursor', handed, true⟩ }
      | (.empty, _) => some s
      | (.lagged dropped, cursor') =>
        some { s with
          sessions := s.sessions.set k ⟨cursor', handed, true⟩
          dispatcher := .lagged k cursor dropped }
    | _, _ => none
  | .readCurrent =>
    match s.dispatcher with
    | .lagged k start dropped => (s.sessions[k]?).map fun session =>
      { s with
        sessions := s.sessions.set k
          { session with handed := session.handed ++ [.gap start dropped s.current] }
        dispatcher := .idle }
    | _ => none
  | .drop k =>
    match s.dispatcher, s.sessions[k]? with
    | .idle, some ⟨cursor, handed, true⟩ =>
      some { s with
        viewers := s.viewers - 1
        sessions := s.sessions.set k ⟨cursor, handed, false⟩ }
    | _, _ => none
  | .workerCheck =>
    if s.started ∧ s.locked = false ∧ s.worker = .idle ∧ s.active then
      some { s with worker := .collecting }
    else none
  | .workerSend =>
    if s.worker = .collecting then
      some { s.send (.snapshot (s.published + 1)) with
        published := s.published + 1
        worker := .sent }
    else none
  | .workerStore =>
    if s.worker = .sent then some { s with current := s.published, worker := .idle } else none
  | .activityCheck =>
    if s.started ∧ s.locked = false ∧ s.activityReady = false ∧ s.active then
      some { s with activityReady := true }
    else none
  | .activitySend =>
    if s.activityReady then some { s.send .activity with activityReady := false } else none
  | .stop => if s.locked then none else some { s with stopped := true }

/-- The snapshot numbers handed to a session, in order. -/
def handedNumbers (session : SystemSession) : List ℕ := session.handed.map Delivery.number

/-- The snapshot numbers that a session can still find in the ring. -/
def unreadNumbers (s : MonitorState) (session : SystemSession) : List ℕ :=
  numbers (s.channel.unread session.cursor)

end MonitorState

end Procinsh
