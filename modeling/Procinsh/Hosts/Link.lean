import Procinsh.Foundation.SortedMap
import Procinsh.Foundation.Transition
import Procinsh.Hosts.Wire

/-!
# The hub's handle on one connected agent

`src/http_server/hosts/link.rs`: requests go out through a bounded channel, and the responses that
come in are matched to the waiting requests by their ids.

`request` is an asynchronous function that other tasks interleave with at every lock and at every
await, so it is split at these points: a call draws its id, takes the lock to register, sends its
message, waits, and forgets its entry when sending fails or the deadline passes.  `complete` removes
the entry under the lock and hands the response over after the lock is released.  An action of
`LinkAction` is one such piece of one task, and a run of `LinkState.step` is one interleaving of any
number of tasks.

Ids are natural numbers: the `u64` counter of the source does not wrap within the life of a link.
-/

namespace Procinsh

/-- Requests in flight per agent, like the helper's request queue. -/
def PENDING_LIMIT : ℕ := 64

/-- The capacity of the outgoing channel. -/
def outgoingCapacity : ℕ := PENDING_LIMIT + 8

/-! ## The link -/

/-- A link.  An entry of `pending` holds the sending end of the oneshot channel of a call, which is
named by the position of the call in the list of all calls. -/
structure AgentLink where
  /-- The queued messages that the writer has not taken yet. -/
  outgoing : List Message
  /-- Whether the writer still holds the receiving end of the outgoing channel. -/
  receiverAlive : Bool
  /-- `none` once the link has closed. -/
  pending : Option (SortedMap ℕ ℕ)
  next : ℕ

namespace AgentLink

/-- A new link. -/
def new : AgentLink := ⟨[], true, some ∅, 0⟩

/-- Whether the outgoing channel takes a message: its receiver is there and it is not full. -/
def canSend (link : AgentLink) : Bool :=
  link.receiverAlive && link.outgoing.length < outgoingCapacity

/-- `Sender::try_send` on the outgoing channel; `none` when it does not take the message. -/
def trySend (link : AgentLink) (message : Message) : Option AgentLink :=
  if link.canSend then
    some { link with outgoing := link.outgoing ++ [message] }
  else none

/-- The part of `request` under the lock: the entry of a new call, or the text of the error. -/
def register (link : AgentLink) (id call : ℕ) : Except String AgentLink :=
  match link.pending with
  | none => .error "agent link closed"
  | some pending =>
    if pending.size ≥ PENDING_LIMIT then .error "agent link request queue full"
    else .ok { link with pending := some (pending.insert id call) }

/-- `forget` -/
def forget (link : AgentLink) (id : ℕ) : AgentLink :=
  { link with pending := link.pending.map fun pending => pending.erase id }

/-- The call that waits under an id. -/
def waiter (link : AgentLink) (id : ℕ) : Option ℕ :=
  link.pending.bind fun pending => pending.get? id

/-- `close` -/
def close (link : AgentLink) : AgentLink := { link with pending := none }

@[simp] lemma waiter_new (id : ℕ) : new.waiter id = none := rfl

@[simp] lemma waiter_close (link : AgentLink) (id : ℕ) : link.close.waiter id = none := rfl

/-- A forgotten id has no waiter, and the waiters of the other ids stay. -/
lemma waiter_forget (link : AgentLink) (id id' : ℕ) :
    (link.forget id).waiter id' = if id' = id then none else link.waiter id' := by
  unfold waiter forget
  cases link.pending with
  | none => simp
  | some pending => simpa using pending.get?_erase id id'

/-- What a registration does: the link was open, had room, and gained the entry. -/
lemma register_eq_ok {link link' : AgentLink} {id call : ℕ} (h : link.register id call = .ok link') :
    ∃ pending, link.pending = some pending ∧ pending.size < PENDING_LIMIT ∧
      link' = { link with pending := some (pending.insert id call) } := by
  unfold register at h
  split at h
  · cases h
  · next pending hpending =>
    split at h
    · cases h
    · next hroom => exact ⟨pending, hpending, by omega, (Except.ok.inj h).symm⟩

/-- What sending does: the message is queued last and nothing else changes. -/
lemma trySend_eq_some {link link' : AgentLink} {message : Message}
    (h : link.trySend message = some link') :
    link.canSend = true ∧ link' = { link with outgoing := link.outgoing ++ [message] } := by
  unfold trySend at h
  split at h
  · next hroom => exact ⟨hroom, (Option.some.inj h).symm⟩
  · cases h

/-- Sending fails only on a channel that does not take messages. -/
lemma trySend_eq_none {link : AgentLink} {message : Message} :
    link.trySend message = none ↔ link.canSend = false := by
  simp [trySend]

end AgentLink

/-! ## Calls and their interleavings -/

/-- How a call of `request` ends. -/
inductive Outcome
  /-- With the response that arrived on its oneshot channel. -/
  | answered (response : AgentResponse)
  /-- With an error of the link itself. -/
  | failed (error : String)
  deriving DecidableEq

/-- The value that `request` returns. -/
def Outcome.result : Outcome → Except String MonitorResponse
  | answered response => response
  | failed error => .error error

/-- Where a call of `request` stands. -/
inductive Phase
  /-- It has drawn its id. -/
  | drawn
  /-- Its sender is in the pending map. -/
  | registered
  /-- Its message could not be queued; its entry is still to be forgotten. -/
  | unsent
  /-- It waits for the response until the deadline. -/
  | waiting
  /-- The deadline has passed; its entry is still to be forgotten. -/
  | timedOut
  /-- Its future was dropped while it waited. -/
  | abandoned
  | done (outcome : Outcome)
  deriving DecidableEq

/-- The state of a oneshot channel as its receiver sees it. -/
inductive Slot
  | empty
  | filled (response : AgentResponse)
  /-- The sender was dropped without sending. -/
  | dropped
  deriving DecidableEq

/-- A call of `request`. -/
structure Call where
  id : ℕ
  request : MonitorRequest
  phase : Phase
  slot : Slot
  deriving DecidableEq

/-- A link with the tasks that use it. -/
structure LinkState where
  link : AgentLink
  /-- Every call of `request`, in the order of their ids. -/
  calls : List Call
  /-- Calls of `close_session` that have drawn their id and not sent yet. -/
  closing : List (ℕ × UInt64)
  /-- Responses that `complete` took the sender for and has not sent yet. -/
  delivering : List (ℕ × AgentResponse)

/-- One step of one task. -/
inductive LinkAction
  | request (request : MonitorRequest)
  | register (call : ℕ)
  | enqueue (call : ℕ)
  | forgetUnsent (call : ℕ)
  | resolve (call : ℕ)
  | elapse (call : ℕ)
  | forgetTimedOut (call : ℕ)
  | abandon (call : ℕ)
  | complete (id : ℕ) (response : AgentResponse)
  | deliver (delivery : ℕ)
  | closeSession (session : UInt64)
  | enqueueClose (closing : ℕ)
  /-- A message of the link itself, such as a ping. -/
  | send (message : Message)
  /-- The writer takes the oldest queued message. -/
  | takeOutgoing
  /-- The writer ends. -/
  | dropReceiver
  | close
  deriving DecidableEq

namespace LinkState

/-- A new link without calls. -/
def new : LinkState := ⟨.new, [], [], []⟩

/-- The call at a position, when it stands in the given phase. -/
def callAt? (s : LinkState) (k : ℕ) (phase : Phase) : Option Call :=
  (s.calls[k]?).filter fun c => c.phase = phase

/-- Moves a call to a phase. -/
def setPhase (s : LinkState) (k : ℕ) (phase : Phase) : LinkState :=
  { s with calls := s.calls.modify k fun c => { c with phase := phase } }

/-- The send on the oneshot channel of a call; nothing arrives after the channel is used up. -/
def fill (s : LinkState) (k : ℕ) (response : AgentResponse) : LinkState :=
  { s with calls := s.calls.modify k fun c =>
      if c.slot = .empty then { c with slot := .filled response } else c }

/-- Dropping the senders of a pending map. -/
def dropSenders (s : LinkState) : LinkState :=
  { s with calls := s.calls.mapIdx fun k c =>
      if s.link.waiter c.id = some k then { c with slot := .dropped } else c }

/-- The effect of an action, or `none` when the task that performs it is not at that point. -/
def step (s : LinkState) : LinkAction → Option LinkState
  | .request request =>
    some { s with
      link := { s.link with next := s.link.next + 1 }
      calls := s.calls ++ [⟨s.link.next, request, .drawn, .empty⟩] }
  | .register k => (s.callAt? k .drawn).map fun c =>
    match s.link.register c.id k with
    | .ok link => { s.setPhase k .registered with link := link }
    | .error error => s.setPhase k (.done (.failed error))
  | .enqueue k => (s.callAt? k .registered).map fun c =>
    match s.link.trySend (.request c.id c.request) with
    | some link => { s.setPhase k .waiting with link := link }
    | none => s.setPhase k .unsent
  | .forgetUnsent k => (s.callAt? k .unsent).map fun c =>
    { s.setPhase k (.done (.failed "agent link closed or request queue full")) with
      link := s.link.forget c.id }
  | .resolve k => (s.callAt? k .waiting).bind fun c =>
    match c.slot with
    | .empty => none
    | .filled response => some (s.setPhase k (.done (.answered response)))
    | .dropped => some (s.setPhase k (.done (.failed "agent link closed")))
  | .elapse k => (s.callAt? k .waiting).map fun _ => s.setPhase k .timedOut
  | .forgetTimedOut k => (s.callAt? k .timedOut).map fun c =>
    { s.setPhase k (.done (.failed "agent link request timed out")) with
      link := s.link.forget c.id }
  | .abandon k => (s.callAt? k .waiting).map fun _ => s.setPhase k .abandoned
  | .complete id response =>
    match s.link.waiter id with
    | none => some s
    | some k => some { s with
        link := s.link.forget id
        delivering := s.delivering ++ [(k, response)] }
  | .deliver j => (s.delivering[j]?).map fun d =>
    { s.fill d.1 d.2 with delivering := s.delivering.eraseIdx j }
  | .closeSession session =>
    some { s with
      link := { s.link with next := s.link.next + 1 }
      closing := s.closing ++ [(s.link.next, session)] }
  | .enqueueClose j => (s.closing[j]?).map fun c =>
    { s with
      link := (s.link.trySend (.request c.1 (.close c.2))).getD s.link
      closing := s.closing.eraseIdx j }
  | .send message => some { s with link := (s.link.trySend message).getD s.link }
  | .takeOutgoing =>
    match s.link.outgoing with
    | [] => none
    | _ :: outgoing => some { s with link := { s.link with outgoing := outgoing } }
  | .dropReceiver => some { s with link := { s.link with receiverAlive := false, outgoing := [] } }
  | .close => some { s.dropSenders with link := s.link.close }

end LinkState

end Procinsh
