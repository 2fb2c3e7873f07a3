import Procinsh.Foundation.Frames
import Procinsh.Foundation.Transition
import Procinsh.Ipc.Acquisition
import Procinsh.Ipc.Request

/-!
# Requests to the helper

`MonitorClient` (`src/http_server/client.rs`) sends requests to the helper over a stream socket, and
`HelperIpcService::serve` (`src/privileged_helper/helper_service.rs`) answers them; both transfer frames
with `src/ipc/transport.rs`.  Frames have no number: one thread of the client sends a request and reads a
frame for it before it takes the next request from a queue.

Callers, the thread and the helper are interleaved in every way.  A read or a write transfers some of the
bytes that are asked for, and may fail at any time, as it does after a timeout.  After a shutdown nothing
is written, but what has been written may still be read.  What the helper answers to a request is a
parameter.
-/

namespace Procinsh.Helper

open Ipc

/-- `MAX_RESPONSE` -/
def maxResponse : ℕ := 2 ^ 30

/-- Requests wait in a queue of bounded length. -/
def queueLimit : ℕ := 64

/-! ## Callers -/

/-- What the thread hands to a caller. -/
inductive Delivery [Target]
  /-- What the helper has answered. -/
  | response (response : WireResponse)
  /-- What the thread says when the connection has failed. -/
  | unavailable (error : String)

/-- Where a call of `exchange` stands. -/
inductive CallPhase [Target]
  /-- It waits for what the thread hands to it. -/
  | waiting (delivered : Option Delivery)
  /-- The future was dropped, or its time has passed, or nobody waits from the start. -/
  | gone
  | done (delivery : Delivery)

/-- A call of `exchange` or of `close`. -/
structure ExchangeCall [Target] where
  request : MonitorRequest
  phase : CallPhase

/-- What a call has been answered. -/
def CallPhase.response? [Target] : CallPhase → Option WireResponse
  | waiting (some (.response response)) => some response
  | done (.response response) => some response
  | _ => none

/-! ## The two ends of the socket -/

/-- The thread of the client. -/
inductive Worker
  | idle
  /-- It writes the request of a call. -/
  | sending (call : ℕ) (rest : List UInt8)
  /-- It reads the answer for a call. -/
  | reading (call : ℕ) (got : List UInt8)
  | ended

/-- The loop of the helper. -/
inductive Serving
  /-- It waits for input, or has read a part of a frame. -/
  | reading (got : List UInt8)
  | writing (rest : List UInt8)
  | ended

/-- `MonitorRequest::Close` -/
def isClose : MonitorRequest → Bool
  | .close _ => true
  | _ => false

/-- What is written for a reply: an error of its own if the reply is too long. -/
def encodeReply [Target] (response : WireResponse) : Option (List UInt8) :=
  match encode response maxResponse with
  | .ok bytes => some bytes
  | .error e =>
    if e = limitExceeded then
      (encode (.error "monitor response exceeds size limit" : WireResponse) maxResponse).toOption
    else none

/-- The connection with its callers.  Which calls have been sent, and what the helper has dispatched with
its answers, are records that nothing reads. -/
structure Exchange [Target] (σ : Type) where
  calls : List ExchangeCall
  queue : List ℕ
  worker : Worker
  toHelper : List UInt8
  toClient : List UInt8
  /-- Whether the client has shut the socket down. -/
  down : Bool
  serving : Serving
  helper : σ
  sent : List ℕ
  dispatched : List (MonitorRequest × WireResponse)

/-- A step of one of the parties. -/
inductive ExchangeAction (ι : Type)
  | exchange (request : MonitorRequest)
  | close (session : UInt64)
  | cancel (call : ℕ)
  | elapse (call : ℕ)
  | resolve (call : ℕ)
  | disconnect (call : ℕ)
  | dequeue
  | clientWrite (n : ℕ)
  | clientRead (n : ℕ)
  | clientFail (error : String)
  | helperRead (n : ℕ) (input : ι)
  | helperWrite (n : ℕ)
  | helperFail

namespace Exchange

variable [Target] {σ ι : Type}

/-- A connection without calls. -/
def new (helper : σ) : Exchange σ := ⟨[], [], .idle, [], [], false, .reading [], helper, [], []⟩

/-- Whether the thread takes requests. -/
def open? (s : Exchange σ) : Bool :=
  match s.worker with
  | .ended => false
  | _ => true

/-- `try_send` of a request with where its call stands then; `none` if it is not taken. -/
def enqueue (s : Exchange σ) (request : MonitorRequest) (phase : CallPhase) : Option (Exchange σ) :=
  if s.open? ∧ s.queue.length < queueLimit then
    some { s with calls := s.calls ++ [⟨request, phase⟩], queue := s.queue ++ [s.calls.length] }
  else none

def setPhase (s : Exchange σ) (k : ℕ) (phase : CallPhase) : Exchange σ :=
  { s with calls := s.calls.modify k fun c => { c with phase := phase } }

def phaseOf (s : Exchange σ) (k : ℕ) : Option CallPhase := (s.calls[k]?).map (·.phase)

/-- Hands something to a call; nothing happens if nobody waits for it. -/
def deliver (s : Exchange σ) (k : ℕ) (delivery : Delivery) : Exchange σ :=
  match s.phaseOf k with
  | some (.waiting none) => s.setPhase k (.waiting (some delivery))
  | _ => s

/-- The end of the thread, which shuts the socket down. -/
def fail (s : Exchange σ) (k : ℕ) (error : String) : Exchange σ :=
  { s.deliver k (.unavailable ("monitor IPC unavailable: " ++ error)) with
    worker := .ended
    queue := []
    down := true }

/-- Whether nobody waits for a call any more. -/
def isGone (s : Exchange σ) (k : ℕ) : Bool :=
  match s.phaseOf k with
  | some .gone => true
  | _ => false

/-- The thread takes a request from the queue and begins to send it, unless nobody waits for it. -/
def takeRequest (s : Exchange σ) (k : ℕ) (queue : List ℕ) (request : MonitorRequest) : Exchange σ :=
  let s := { s with queue := queue }
  if s.isGone k ∧ ¬ isClose request then s
  else
    match encode request maxRequest with
    | .ok bytes => { s with worker := .sending k (frame bytes), sent := s.sent ++ [k] }
    | .error e => s.fail k e

/-- What the thread does with the bytes that it has read of an answer. -/
def receive (s : Exchange σ) (k : ℕ) (got : List UInt8) : Exchange σ :=
  match frameStatus maxResponse got with
  | .lacks _ => { s with worker := .reading k got }
  | .invalid size => s.fail k ("invalid monitor frame length: " ++ toString size)
  | .complete payload =>
    match decode WireResponse payload with
    | .ok response => { s.deliver k (.response response) with worker := .idle }
    | .error e => s.fail k ("invalid monitor IPC message: " ++ e)

/-- The helper dispatches a request and begins to write the answer, if it can be written. -/
def answer (dispatch : σ → MonitorRequest → ι → σ × WireResponse) (s : Exchange σ) (input : ι)
    (request : MonitorRequest) : Exchange σ :=
  let (helper, response) := dispatch s.helper request input
  { s with
    helper := helper
    dispatched := s.dispatched ++ [(request, response)]
    serving :=
      match encodeReply response with
      | some bytes => .writing (frame bytes)
      | none => .ended }

/-- What the helper does with the bytes that it has read of a request. -/
def serve (dispatch : σ → MonitorRequest → ι → σ × WireResponse) (s : Exchange σ) (input : ι)
    (got : List UInt8) : Exchange σ :=
  match frameStatus maxRequest got with
  | .lacks _ => { s with serving := .reading got }
  | .invalid _ => { s with serving := .ended }
  | .complete payload =>
    match decode MonitorRequest payload with
    | .error _ => { s with serving := .ended }
    | .ok request => s.answer dispatch input request

/-- How many bytes may be asked for. -/
def wanted (limit : ℕ) (got : List UInt8) : ℕ :=
  match frameStatus limit got with
  | .lacks n => n
  | _ => 0

/-- The effect of an action, or `none` when the party that performs it is not at that point. -/
def step (dispatch : σ → MonitorRequest → ι → σ × WireResponse) (s : Exchange σ) :
    ExchangeAction ι → Option (Exchange σ)
  | .exchange request =>
    match s.enqueue request (.waiting none) with
    | some s => some s
    | none => some { s with calls := s.calls ++
        [⟨request, .done (.unavailable "monitor IPC unavailable or request queue full")⟩] }
  | .close session => some ((s.enqueue (.close session) .gone).getD s)
  | .cancel k =>
    match s.phaseOf k with
    | some (.waiting _) => some (s.setPhase k .gone)
    | _ => none
  | .elapse k =>
    match s.phaseOf k with
    | some (.waiting _) => some { s.setPhase k .gone with down := true }
    | _ => none
  | .resolve k =>
    match s.phaseOf k with
    | some (.waiting (some delivery)) => some (s.setPhase k (.done delivery))
    | _ => none
  | .disconnect k =>
    match s.worker, s.phaseOf k with
    | .ended, some (.waiting none) =>
      some (s.setPhase k (.done (.unavailable "monitor IPC disconnected")))
    | _, _ => none
  | .dequeue =>
    match s.worker, s.queue with
    | .idle, k :: queue => (s.calls[k]?).map fun c => s.takeRequest k queue c.request
    | _, _ => none
  | .clientWrite n =>
    match s.worker with
    | .sending k rest =>
      if ¬ s.down ∧ 0 < n ∧ n ≤ rest.length then
        some { s with
          toHelper := s.toHelper ++ rest.take n
          worker := if n = rest.length then .reading k [] else .sending k (rest.drop n) }
      else none
    | _ => none
  | .clientRead n =>
    match s.worker with
    | .reading k got =>
      if 0 < n ∧ n ≤ s.toClient.length ∧ n ≤ wanted maxResponse got then
        some (({ s with toClient := s.toClient.drop n } : Exchange σ).receive k
          (got ++ s.toClient.take n))
      else none
    | _ => none
  | .clientFail error =>
    match s.worker with
    | .sending k _ | .reading k _ => some (s.fail k error)
    | _ => none
  | .helperRead n input =>
    match s.serving with
    | .reading got =>
      if 0 < n ∧ n ≤ s.toHelper.length ∧ n ≤ wanted maxRequest got then
        some (({ s with toHelper := s.toHelper.drop n } : Exchange σ).serve dispatch input
          (got ++ s.toHelper.take n))
      else none
    | _ => none
  | .helperWrite n =>
    match s.serving with
    | .writing rest =>
      if ¬ s.down ∧ 0 < n ∧ n ≤ rest.length then
        some { s with
          toClient := s.toClient ++ rest.take n
          serving := if n = rest.length then .reading [] else .writing (rest.drop n) }
      else none
    | _ => none
  | .helperFail => some { s with serving := .ended }

/-! ## What a step can do -/

/-- The steps that are possible, each with what it requires. -/
inductive Stepped (dispatch : σ → MonitorRequest → ι → σ × WireResponse) (s : Exchange σ) :
    Exchange σ → Prop
  /-- A request is queued, whose caller waits unless it closes a session. -/
  | queued {request : MonitorRequest} {phase : CallPhase}
      (hphase : phase = .waiting none ∨ phase = .gone ∧ isClose request = true)
      (hopen : s.worker ≠ .ended) :
      Stepped dispatch s { s with
        calls := s.calls ++ [⟨request, phase⟩], queue := s.queue ++ [s.calls.length] }
  | refused {call : ExchangeCall} {error : String} (hcall : call.phase = .done (.unavailable error)) :
      Stepped dispatch s { s with calls := s.calls ++ [call] }
  | unchanged : Stepped dispatch s s
  /-- A caller takes what it was handed, or learns that it gets nothing, or waits no longer. -/
  | phase {k : ℕ} {delivered : Option Delivery} {new : CallPhase} (down : Bool)
      (hold : s.phaseOf k = some (.waiting delivered))
      (hnew : new = .gone ∨ ∃ delivery, new = .done delivery ∧
        (new.response? = none ∨ delivered = some delivery))
      (hdown : s.down = true → down = true) :
      Stepped dispatch s { s.setPhase k new with down := down }
  | dequeue {k : ℕ} {queue : List ℕ} {request : MonitorRequest} (hworker : s.worker = .idle)
      (hqueue : s.queue = k :: queue) (hrequest : (s.calls[k]?).map (·.request) = some request) :
      Stepped dispatch s (s.takeRequest k queue request)
  | clientWrite {k n : ℕ} {rest : List UInt8} (hworker : s.worker = .sending k rest) (hdown : ¬ s.down)
      (hpos : 0 < n) (hn : n ≤ rest.length) :
      Stepped dispatch s { s with
        toHelper := s.toHelper ++ rest.take n
        worker := if n = rest.length then .reading k [] else .sending k (rest.drop n) }
  | clientRead {k n : ℕ} {got : List UInt8} (hworker : s.worker = .reading k got) (hpos : 0 < n)
      (hn : n ≤ s.toClient.length) :
      Stepped dispatch s (({ s with toClient := s.toClient.drop n } : Exchange σ).receive k
        (got ++ s.toClient.take n))
  | clientFail {k : ℕ} {error : String} (hworker : s.worker ≠ .ended) :
      Stepped dispatch s (s.fail k error)
  | helperRead {n : ℕ} {got : List UInt8} {input : ι} (hserving : s.serving = .reading got)
      (hpos : 0 < n) (hn : n ≤ s.toHelper.length) :
      Stepped dispatch s (({ s with toHelper := s.toHelper.drop n } : Exchange σ).serve dispatch input
        (got ++ s.toHelper.take n))
  | helperWrite {n : ℕ} {rest : List UInt8} (hserving : s.serving = .writing rest) (hdown : ¬ s.down)
      (hpos : 0 < n) (hn : n ≤ rest.length) :
      Stepped dispatch s { s with
        toClient := s.toClient ++ rest.take n
        serving := if n = rest.length then .reading [] else .writing (rest.drop n) }
  | helperFail : Stepped dispatch s { s with serving := .ended }

theorem stepped_of_step {dispatch : σ → MonitorRequest → ι → σ × WireResponse} {s t : Exchange σ}
    {a : ExchangeAction ι} (hstep : s.step dispatch a = some t) : Stepped dispatch s t := by
  have hqueued : ∀ {request phase u}, s.enqueue request phase = some u →
      (phase = .waiting none ∨ phase = .gone ∧ isClose request = true) → Stepped dispatch s u := by
    intro request phase u hqueued hphase
    unfold enqueue at hqueued
    split at hqueued
    · next hopen =>
      cases hqueued
      exact .queued hphase fun hended => by simp [open?, hended] at hopen
    · cases hqueued
  cases a with
  | exchange request =>
    dsimp only [step] at hstep
    split at hstep
    · next u hu =>
      cases hstep
      exact hqueued hu (Or.inl rfl)
    · cases hstep
      exact .refused rfl
  | close session =>
    dsimp only [step] at hstep
    cases hu : s.enqueue (.close session) .gone with
    | some u =>
      rw [hu] at hstep
      cases hstep
      exact hqueued hu (Or.inr ⟨rfl, rfl⟩)
    | none =>
      rw [hu] at hstep
      cases hstep
      exact .unchanged
  | cancel k =>
    dsimp only [step] at hstep
    split at hstep
    · next delivered hphase =>
      cases hstep
      exact .phase s.down hphase (Or.inl rfl) id
    · cases hstep
  | elapse k =>
    dsimp only [step] at hstep
    split at hstep
    · next delivered hphase =>
      cases hstep
      exact .phase true hphase (Or.inl rfl) fun _ => rfl
    · cases hstep
  | resolve k =>
    dsimp only [step] at hstep
    split at hstep
    · next delivery hphase =>
      cases hstep
      exact .phase s.down hphase (Or.inr ⟨delivery, rfl, Or.inr rfl⟩) id
    · cases hstep
  | disconnect k =>
    dsimp only [step] at hstep
    split at hstep
    · next hphase =>
      cases hstep
      exact .phase s.down hphase (Or.inr ⟨_, rfl, Or.inl rfl⟩) id
    · cases hstep
  | dequeue =>
    dsimp only [step] at hstep
    split at hstep
    · next k queue hworker hqueue =>
      obtain ⟨call, hcall, rfl⟩ := Option.map_eq_some_iff.mp hstep
      exact .dequeue hworker hqueue (congrArg (Option.map _) hcall)
    · cases hstep
  | clientWrite n =>
    dsimp only [step] at hstep
    split at hstep
    · next k rest hworker =>
      split at hstep
      · next hn =>
        cases hstep
        exact .clientWrite hworker hn.1 hn.2.1 hn.2.2
      · cases hstep
    · cases hstep
  | clientRead n =>
    dsimp only [step] at hstep
    split at hstep
    · next k got hworker =>
      split at hstep
      · next hn =>
        cases hstep
        exact .clientRead hworker hn.1 hn.2.1
      · cases hstep
    · cases hstep
  | clientFail error =>
    dsimp only [step] at hstep
    split at hstep
    · next hworker =>
      cases hstep
      exact .clientFail fun hended => by cases hworker.symm.trans hended
    · next hworker =>
      cases hstep
      exact .clientFail fun hended => by cases hworker.symm.trans hended
    · cases hstep
  | helperRead n input =>
    dsimp only [step] at hstep
    split at hstep
    · next got hserving =>
      split at hstep
      · next hn =>
        cases hstep
        exact .helperRead hserving hn.1 hn.2.1
      · cases hstep
    · cases hstep
  | helperWrite n =>
    dsimp only [step] at hstep
    split at hstep
    · next rest hserving =>
      split at hstep
      · next hn =>
        cases hstep
        exact .helperWrite hserving hn.1 hn.2.1 hn.2.2
      · cases hstep
    · cases hstep
  | helperFail =>
    cases hstep
    exact .helperFail

end Exchange

end Procinsh.Helper
