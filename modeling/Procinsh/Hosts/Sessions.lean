import Procinsh.Foundation.Tasks
import Procinsh.Foundation.Transition
import Procinsh.Helper.Service
import Procinsh.Hosts.Wire

/-!
# Observation sessions of agent links

The agent side of the links of `src/http_server/hosts/connector.rs`: every link records the
observation sessions that it started, and its hub may poll and close only these.  Any number of
links, of tasks that answer their requests and of local viewers share one `MonitorClient`
(`src/http_server/client.rs`), which queues requests for one helper.

An answer task is split where other tasks interleave with it: the check of the recorded sessions,
the offer of the request to the client's queue, the exchange with the helper, and the update of the
recorded sessions.  The `offers` of the client and the finished tasks are kept as a history that no
step reads.
-/

namespace Procinsh

/-- The capacity of the client's request queue. -/
def clientCapacity : ℕ := 64

/-- The error of a request that the queue does not take. -/
def queueError : String := "monitor IPC unavailable or request queue full"

/-- The error of a request for a session that the link did not start. -/
def unknownSession : String := "unknown observation session"

/-! ## The recorded sessions of a link -/

/-- The session that a request uses. -/
def MonitorRequest.session? : MonitorRequest → Option UInt64
  | .poll session | .close session => some session
  | _ => none

/-- Whether a request closes the session that it uses. -/
def MonitorRequest.closing : MonitorRequest → Bool
  | .close _ => true
  | _ => false

/-- Observation sessions a link started. -/
abbrev Sessions := List UInt64

/-- Whether the response ends the session that the request used. -/
def endsSession (closing : Bool) (response : AgentResponse) : Bool :=
  closing ||
    match response with
    | .ok (.event _ true) | .error _ => true
    | _ => false

/-- Records a started session. -/
def Sessions.record (sessions : Sessions) (response : AgentResponse) : Sessions :=
  match response with
  | .ok (.started session _) => List.insert session sessions
  | _ => sessions

/-- Records a started session, and forgets `used` once it is closed or failed. -/
def Sessions.update (sessions : Sessions) (used : Option UInt64) (closing : Bool)
    (response : AgentResponse) : Sessions :=
  let recorded := sessions.record response
  if endsSession closing response then
    match used with
    | some session => List.filter (fun other => other ≠ session) recorded
    | none => recorded
  else recorded

/-- A link: its recorded sessions, the sessions that its end has still to close, and whether it has
ended. -/
structure LinkSessions where
  recorded : Sessions
  draining : Sessions
  ended : Bool
  deriving DecidableEq

/-! ## Tasks and the client -/

/-- Where a task stands. -/
inductive AnswerStage
  | spawned
  /-- It returned `unknownSession` without asking the helper. -/
  | rejected
  /-- Its request may be forwarded. -/
  | allowed
  | queued
  | replied (response : AgentResponse)
  | done (response : AgentResponse)
  deriving DecidableEq

/-- Whether the request of a task has been let through to the helper's client. -/
def AnswerStage.forwarded : AnswerStage → Bool
  | .spawned | .rejected => false
  | _ => true

/-- Whether the request of a task has been offered to the client's queue. -/
def AnswerStage.asked : AnswerStage → Bool
  | .queued | .replied _ | .done _ => true
  | _ => false

/-- What a task of a link sends back to the hub. -/
def AnswerStage.answer? : AnswerStage → Option AgentResponse
  | .rejected => some (.error unknownSession)
  | .done response => some response
  | _ => none

/-- The number of the session that an answer started. -/
def AnswerStage.started? : AnswerStage → Option UInt64
  | .done (.ok (.started session _)) => some session
  | _ => none

/-- Whether the helper reported the session of a poll closed. -/
def AnswerStage.reportsClosed : AnswerStage → Bool
  | .done (.ok (.event _ true)) => true
  | _ => false

/-- What `client.request` returned to a task. -/
def AnswerStage.response? : AnswerStage → Option AgentResponse
  | .replied response | .done response => some response
  | _ => none

/-- A task that uses the client: of a link, or of a local viewer. -/
structure AnswerTask where
  link : Option ℕ
  request : MonitorRequest
  stage : AnswerStage
  deriving DecidableEq

/-- A queued request: of a task, or a session close that nobody waits for. -/
inductive QueueEntry
  | task (k : ℕ)
  | close (session : UInt64)
  deriving DecidableEq

/-- The client of the helper. -/
structure MonitorClient where
  queue : List QueueEntry
  /-- Whether the connection to the helper is up. -/
  alive : Bool
  /-- Every request offered to the queue, and whether the queue took it. -/
  offers : List (MonitorRequest × Bool)
  deriving DecidableEq

namespace MonitorClient

/-- Whether the queue takes a request. -/
def hasRoom (client : MonitorClient) : Bool :=
  client.alive && client.queue.length < clientCapacity

/-- `try_send` on the queue. -/
def trySend (client : MonitorClient) (entry : QueueEntry) (request : MonitorRequest) :
    MonitorClient :=
  { client with
    queue := if client.hasRoom then client.queue ++ [entry] else client.queue
    offers := client.offers ++ [(request, client.hasRoom)] }

end MonitorClient

/-- An agent: its helper, the client, the links and the tasks. -/
structure AgentState where
  helper : HelperService
  client : MonitorClient
  links : List LinkSessions
  tasks : List AnswerTask
  deriving DecidableEq

/-- One step of one party. -/
inductive SessionAction
  /-- A link is made. -/
  | connect
  /-- A link receives a request and spawns a task for it. -/
  | receive (link : ℕ) (request : MonitorRequest)
  /-- A local viewer makes a request. -/
  | localRequest (request : MonitorRequest)
  /-- A local viewer goes away, and its session is closed. -/
  | localClose (session : UInt64)
  | check (task : ℕ)
  | offer (task : ℕ)
  /-- The client's worker has the helper answer the oldest request; the reply may be lost. -/
  | dispatch (input : HelperInput) (failure : Option String)
  /-- A waiting task gives up. -/
  | fail (task : ℕ) (error : String)
  | update (task : ℕ)
  /-- A link ends and takes its recorded sessions out. -/
  | endLink (link : ℕ)
  /-- An ended link closes the next session that it took out. -/
  | closeDrained (link : ℕ)
  /-- The connection to the helper is lost. -/
  | disconnect
  deriving DecidableEq

namespace AgentState

/-- An agent without links and tasks. -/
def new : AgentState := ⟨.new, ⟨[], true, []⟩, [], []⟩

/-- Moves a task to a stage. -/
def setStage (s : AgentState) (k : ℕ) (task : AnswerTask) (stage : AnswerStage) : AgentState :=
  { s with tasks := s.tasks.set k { task with stage := stage } }

/-- The check of `answer_monitor_request`: whether the link recorded the session that the request
uses. -/
def mayForward (link : LinkSessions) (request : MonitorRequest) : Bool :=
  match request.session? with
  | some session => session ∈ link.recorded
  | none => true

/-- The effect of an action, or `none` when it is not possible. -/
def step (s : AgentState) : SessionAction → Option AgentState
  | .connect => some { s with links := s.links ++ [⟨[], [], false⟩] }
  | .receive l request =>
    match s.links[l]? with
    | some ⟨_, _, false⟩ => some { s with tasks := s.tasks ++ [⟨some l, request, .spawned⟩] }
    | _ => none
  | .localRequest request => some { s with tasks := s.tasks ++ [⟨none, request, .allowed⟩] }
  | .localClose session =>
    some { s with client := s.client.trySend (.close session) (.close session) }
  | .check k =>
    match s.tasks[k]? with
    | some ⟨some l, request, .spawned⟩ => (s.links[l]?).map fun link =>
      s.setStage k ⟨some l, request, .spawned⟩
        (if mayForward link request then .allowed else .rejected)
    | _ => none
  | .offer k =>
    match s.tasks[k]? with
    | some ⟨link, request, .allowed⟩ =>
      some { s.setStage k ⟨link, request, .allowed⟩
          (if s.client.hasRoom then .queued else .replied (.error queueError)) with
        client := s.client.trySend (.task k) request }
    | _ => none
  | .dispatch input failure =>
    match s.client.queue with
    | [] => none
    | .close session :: queue =>
      some { s with
        helper := (s.helper.dispatch input (.close session)).1
        client := { s.client with queue := queue } }
    | .task k :: queue =>
      match s.tasks[k]? with
      | some ⟨link, request, .queued⟩ =>
        some { s.setStage k ⟨link, request, .queued⟩ (.replied
            (match failure with
            | some error => .error error
            | none => (s.helper.dispatch input request).2)) with
          helper := (s.helper.dispatch input request).1
          client := { s.client with queue := queue } }
      | some ⟨_, .close session, _⟩ =>
        some { s with
          helper := (s.helper.dispatch input (.close session)).1
          client := { s.client with queue := queue } }
      | _ => some { s with client := { s.client with queue := queue } }
  | .fail k error =>
    match s.tasks[k]? with
    | some ⟨link, request, .queued⟩ =>
      some (s.setStage k ⟨link, request, .queued⟩ (.replied (.error error)))
    | _ => none
  | .update k =>
    match s.tasks[k]? with
    | some ⟨some l, request, .replied response⟩ =>
      some { s.setStage k ⟨some l, request, .replied response⟩ (.done response) with
        links := s.links.modify l fun link =>
          { link with
            recorded := link.recorded.update request.session? request.closing response } }
    | some ⟨none, request, .replied response⟩ =>
      some (s.setStage k ⟨none, request, .replied response⟩ (.done response))
    | _ => none
  | .endLink l =>
    match s.links[l]? with
    | some ⟨recorded, draining, false⟩ =>
      some { s with links := s.links.set l ⟨[], draining ++ recorded, true⟩ }
    | _ => none
  | .closeDrained l =>
    match s.links[l]? with
    | some ⟨recorded, session :: draining, ended⟩ =>
      some { s with
        client := s.client.trySend (.close session) (.close session)
        links := s.links.set l ⟨recorded, draining, ended⟩ }
    | _ => none
  | .disconnect => some { s with client := { s.client with queue := [], alive := false } }

end AgentState

end Procinsh
