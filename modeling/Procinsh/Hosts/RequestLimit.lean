import Procinsh.Hosts.LinkMatching

/-!
# The request limits of the two ends of an agent link

The hub bounds the entries of its pending map by `PENDING_LIMIT` (`src/http_server/hosts/link.rs`),
the agent answers at most `CONCURRENT_REQUESTS` requests at once and ends the session when one more
arrives (`run_agent_session` in `src/http_server/hosts/connector.rs`).  Here both ends run together
over two channels that keep the order and lose nothing.

The two bounds count different things.  The agent counts permits, which a task gives back only after
its response is queued; the hub forgets an entry when a request times out and never makes one for a
`close_session`.  What decides is the number of request messages that are on the way or hold a
permit: the limit is kept exactly as long as the hub sends only while fewer than 64 are outstanding.
-/

namespace Procinsh

/-- Hub requests answered at once, matching the helper's request queue. -/
def CONCURRENT_REQUESTS : ℕ := 64

/-- The capacity of the agent's outgoing channel. -/
def agentCapacity : ℕ := CONCURRENT_REQUESTS + 8

/-- The error with which the agent ends a session whose hub sends too many requests. -/
def limitError : String := "hub exceeded the request limit"

/-! ## The agent side -/

/-- Where a task that answers a request stands.  The task holds its permit all the time. -/
inductive TaskStage
  | answering
  /-- It has the response and waits for room in the outgoing channel. -/
  | answered (response : AgentResponse)
  /-- Its response is queued; the permit is still to be dropped. -/
  | queued
  deriving DecidableEq

/-- A task that answers a request. -/
structure AgentTask where
  id : ℕ
  request : MonitorRequest
  stage : TaskStage
  deriving DecidableEq

/-- A session of the agent. -/
structure AgentSession where
  /-- The spawned tasks; each holds one of the `CONCURRENT_REQUESTS` permits. -/
  tasks : List AgentTask
  outgoing : List Message
  /-- The error the session loop ended with. -/
  error : Option String

namespace AgentSession

/-- A new session. -/
def new : AgentSession := ⟨[], [], none⟩

/-- `Sender::try_send` on the outgoing channel; a message that finds no room is lost. -/
def trySend (session : AgentSession) (message : Message) : AgentSession :=
  if session.outgoing.length < agentCapacity then
    { session with outgoing := session.outgoing ++ [message] }
  else session

/-- What the session loop does with a message. -/
def receive (session : AgentSession) : Message → AgentSession
  | .request id request =>
    if session.tasks.length < CONCURRENT_REQUESTS then
      { session with tasks := session.tasks ++ [⟨id, request, .answering⟩] }
    else { session with error := some limitError }
  | .ping => session.trySend .pong
  | .pong => session
  | _ => { session with error := some "unexpected message from hub" }

/-- The task at a position. -/
def setStage (session : AgentSession) (k : ℕ) (stage : TaskStage) : AgentSession :=
  { session with tasks := session.tasks.modify k fun task => { task with stage := stage } }

end AgentSession

/-! ## Both ends -/

/-- Both ends of a link and the messages between them. -/
structure LinkedEnds where
  hub : LinkState
  /-- Messages that the hub's writer has written and the agent's loop has not received. -/
  toAgent : List Message
  agent : AgentSession
  /-- Messages that the agent's writer has written and the hub has not received. -/
  toHub : List Message

/-- One step of one party. -/
inductive LimitAction
  /-- A step of a task of the hub that uses the link. -/
  | hub (action : LinkAction)
  /-- The hub's writer writes the oldest queued message. -/
  | transmit
  /-- The agent's loop receives a message. -/
  | receive
  /-- A task of the agent has its response. -/
  | answer (task : ℕ) (response : AgentResponse)
  | enqueueResponse (task : ℕ)
  | dropPermit (task : ℕ)
  /-- The agent's ping timer. -/
  | ping
  /-- The agent's writer writes the oldest queued message. -/
  | reply
  /-- The hub receives a message. -/
  | hubReceive
  deriving DecidableEq

/-- The actions of the hub's own tasks.  Completions come from received responses, messages are
taken by the writer, and the only message that the hub sends by itself is a ping. -/
def LinkAction.isLocal : LinkAction → Bool
  | .takeOutgoing | .complete _ _ => false
  | .send message => message = .ping
  | _ => true

/-- The actions that send a request message. -/
def LinkAction.sendsRequest : LinkAction → Bool
  | .enqueue _ | .enqueueClose _ => true
  | _ => false

/-- Whether a message is a request. -/
def Message.isRequest : Message → Bool
  | .request _ _ => true
  | _ => false

namespace LinkedEnds

/-- A new link. -/
def new : LinkedEnds := ⟨.new, [], .new, []⟩

/-- The effect of an action, or `none` when it is not possible. -/
def step (s : LinkedEnds) : LimitAction → Option LinkedEnds
  | .hub action =>
    if action.isLocal then (s.hub.step action).map fun hub => { s with hub := hub } else none
  | .transmit =>
    match s.hub.link.outgoing with
    | [] => none
    | message :: _ => (s.hub.step .takeOutgoing).map fun hub =>
      { s with hub := hub, toAgent := s.toAgent ++ [message] }
  | .receive =>
    match s.agent.error, s.toAgent with
    | none, message :: toAgent =>
      some { s with agent := s.agent.receive message, toAgent := toAgent }
    | _, _ => none
  | .answer k response =>
    if (s.agent.tasks[k]?).any fun task => task.stage = .answering then
      some { s with agent := s.agent.setStage k (.answered response) }
    else none
  | .enqueueResponse k =>
    match s.agent.tasks[k]? with
    | some ⟨id, _, .answered response⟩ =>
      if s.agent.outgoing.length < agentCapacity then
        some { s with agent := (s.agent.trySend (.response id response)).setStage k .queued }
      else none
    | _ => none
  | .dropPermit k =>
    if (s.agent.tasks[k]?).any fun task => task.stage = .queued then
      some { s with agent := { s.agent with tasks := s.agent.tasks.eraseIdx k } }
    else none
  | .ping => some { s with agent := s.agent.trySend .ping }
  | .reply =>
    match s.agent.outgoing with
    | [] => none
    | message :: outgoing =>
      some { s with agent := { s.agent with outgoing := outgoing }, toHub := s.toHub ++ [message] }
  | .hubReceive =>
    match s.toHub with
    | .response id response :: toHub =>
      (s.hub.step (.complete id response)).map fun hub => { s with hub := hub, toHub := toHub }
    | .ping :: toHub =>
      (s.hub.step (.send .pong)).map fun hub => { s with hub := hub, toHub := toHub }
    | .pong :: toHub => some { s with toHub := toHub }
    | _ => none

/-- The request messages that are on the way to the agent or hold a permit. -/
def outstanding (s : LinkedEnds) : ℕ :=
  s.hub.link.outgoing.countP Message.isRequest + s.toAgent.countP Message.isRequest +
    s.agent.tasks.length

/-- Whether the action puts a request message into the hub's outgoing channel. -/
def queuesRequest (s : LinkedEnds) : LimitAction → Bool
  | .hub action => action.sendsRequest && s.hub.link.canSend
  | _ => false

/-- The hub queues a request message only while fewer than the limit are outstanding. -/
def HasRoom (s : LinkedEnds) (a : LimitAction) : Prop :=
  s.queuesRequest a = true → s.outstanding < CONCURRENT_REQUESTS

instance (s : LinkedEnds) (a : LimitAction) : Decidable (s.HasRoom a) :=
  inferInstanceAs (Decidable (_ → _))

/-! ## What a step does to the messages under way -/

/-- What a step `a` of the hub's tasks does to the outgoing channel. -/
inductive OutgoingStep (s : LinkState) (a : LinkAction) (t : LinkState) : Prop
  | stay (hnone : (a.sendsRequest && s.link.canSend) = false)
    (heq : t.link.outgoing = s.link.outgoing)
  | queue (message : Message) (hrequest : message.isRequest = a.sendsRequest)
    (hkind : message.isRequest = true ∨ message = .ping) (hroom : s.link.canSend = true)
    (heq : t.link.outgoing = s.link.outgoing ++ [message])
  | clear (hnone : a.sendsRequest = false) (heq : t.link.outgoing = [])

/-- A step that does not send leaves the outgoing channel as it was. -/
private lemma outgoingStep_of_eq {s t : LinkState} {a : LinkAction} (hnone : a.sendsRequest = false)
    (heq : t.link.outgoing = s.link.outgoing) : OutgoingStep s a t :=
  .stay (by rw [hnone, Bool.false_and]) heq

/-- A send into the outgoing channel. -/
private lemma outgoingStep_of_trySend {s t : LinkState} {a : LinkAction} {message : Message}
    (hrequest : message.isRequest = a.sendsRequest)
    (hkind : message.isRequest = true ∨ message = .ping)
    (heq : t.link.outgoing = ((s.link.trySend message).getD s.link).outgoing) :
    OutgoingStep s a t := by
  cases hsend : s.link.trySend message with
  | none =>
    rw [hsend, Option.getD_none] at heq
    exact .stay (by rw [AgentLink.trySend_eq_none.mp hsend, Bool.and_false]) heq
  | some link =>
    rw [hsend, Option.getD_some] at heq
    obtain ⟨hroom, rfl⟩ := AgentLink.trySend_eq_some hsend
    exact .queue message hrequest hkind hroom heq

/-- Every step of a task of the hub treats the outgoing channel as `OutgoingStep` says. -/
lemma outgoing_step {s t : LinkState} {a : LinkAction} (hstep : s.step a = some t)
    (hlocal : a.isLocal = true) : OutgoingStep s a t := by
  cases a with
  | request | closeSession =>
    obtain rfl := Option.some.inj hstep
    exact outgoingStep_of_eq rfl rfl
  | register k =>
    obtain ⟨c, -, rfl⟩ := Option.map_eq_some_iff.mp hstep
    cases hreg : s.link.register c.id k with
    | ok link =>
      obtain ⟨pending, -, -, rfl⟩ := AgentLink.register_eq_ok hreg
      exact outgoingStep_of_eq rfl rfl
    | error error => exact outgoingStep_of_eq rfl rfl
  | enqueue k =>
    obtain ⟨c, -, rfl⟩ := Option.map_eq_some_iff.mp hstep
    refine @outgoingStep_of_trySend _ _ _ (.request c.id c.request) rfl (Or.inl rfl) ?_
    cases s.link.trySend (.request c.id c.request) <;> rfl
  | enqueueClose j =>
    obtain ⟨c, -, rfl⟩ := Option.map_eq_some_iff.mp hstep
    exact @outgoingStep_of_trySend _ _ _ (.request c.1 (.close c.2)) rfl (Or.inl rfl) rfl
  | send message =>
    obtain rfl := Option.some.inj hstep
    obtain rfl : message = .ping := by simpa [LinkAction.isLocal] using hlocal
    exact outgoingStep_of_trySend rfl (Or.inr rfl) rfl
  | forgetUnsent | forgetTimedOut | elapse | abandon | deliver =>
    obtain ⟨c, -, rfl⟩ := Option.map_eq_some_iff.mp hstep
    exact outgoingStep_of_eq rfl rfl
  | resolve k =>
    obtain ⟨c, -, hstep⟩ := Option.bind_eq_some_iff.mp hstep
    split at hstep
    · cases hstep
    · obtain rfl := Option.some.inj hstep
      exact outgoingStep_of_eq rfl rfl
    · obtain rfl := Option.some.inj hstep
      exact outgoingStep_of_eq rfl rfl
  | dropReceiver =>
    obtain rfl := Option.some.inj hstep
    exact .clear rfl rfl
  | close =>
    obtain rfl := Option.some.inj hstep
    exact outgoingStep_of_eq rfl rfl
  | takeOutgoing | complete => simp [LinkAction.isLocal] at hlocal

/-- A completion does not touch the outgoing channel. -/
lemma outgoing_complete {s t : LinkState} {id : ℕ} {response : AgentResponse}
    (hstep : s.step (.complete id response) = some t) : t.link.outgoing = s.link.outgoing := by
  simp only [LinkState.step] at hstep
  split at hstep <;> obtain rfl := Option.some.inj hstep <;> rfl

/-- What the session loop does with a request, as far as the permits are concerned. -/
lemma receive_request (session : AgentSession) (id : ℕ) (request : MonitorRequest) :
    session.tasks.length < CONCURRENT_REQUESTS ∧
        (session.receive (.request id request)).tasks.length = session.tasks.length + 1 ∧
        (session.receive (.request id request)).error = session.error ∨
      CONCURRENT_REQUESTS ≤ session.tasks.length ∧
        (session.receive (.request id request)).tasks = session.tasks ∧
        (session.receive (.request id request)).error = some limitError := by
  unfold AgentSession.receive
  by_cases hroom : session.tasks.length < CONCURRENT_REQUESTS
  · exact Or.inl ⟨hroom, by simp [hroom]⟩
  · exact Or.inr ⟨by omega, by simp [hroom]⟩

@[simp] lemma tasks_trySend (session : AgentSession) (message : Message) :
    (session.trySend message).tasks = session.tasks := by
  unfold AgentSession.trySend
  split <;> rfl

@[simp] lemma error_trySend (session : AgentSession) (message : Message) :
    (session.trySend message).error = session.error := by
  unfold AgentSession.trySend
  split <;> rfl

@[simp] lemma length_setStage (session : AgentSession) (k : ℕ) (stage : TaskStage) :
    (session.setStage k stage).tasks.length = session.tasks.length :=
  List.length_modify _ _ _

@[simp] lemma error_setStage (session : AgentSession) (k : ℕ) (stage : TaskStage) :
    (session.setStage k stage).error = session.error := rfl

/-- A message other than a request takes no permit; a ping or a pong does not end the session. -/
lemma receive_other (session : AgentSession) {message : Message} (h : message.isRequest = false) :
    (session.receive message).tasks = session.tasks ∧
      (session.receive message).error ≠ some limitError ∨
      (session.receive message).tasks = session.tasks ∧
        (session.receive message).error = session.error := by
  cases message with
  | request => cases h
  | ping => exact Or.inr ⟨tasks_trySend _ _, error_trySend _ _⟩
  | pong => exact Or.inr ⟨rfl, rfl⟩
  | _ => exact Or.inl ⟨rfl, by simp [AgentSession.receive, limitError]⟩

/-- The messages to the agent that are under way, the oldest first. -/
def underway (s : LinkedEnds) : List Message := s.toAgent ++ s.hub.link.outgoing

/-- The request messages under way and the permits held. -/
lemma outstanding_eq (s : LinkedEnds) :
    s.outstanding = s.underway.countP Message.isRequest + s.agent.tasks.length := by
  rw [outstanding, underway, List.countP_append]
  omega

/-- What a step `a` from `s` to `t` does to the messages for the agent and to its permits. -/
inductive FlowStep (s : LinkedEnds) (a : LimitAction) (t : LinkedEnds) : Prop
  /-- The hub queues a message. -/
  | queue (message : Message) (hrequest : message.isRequest = s.queuesRequest a)
    (hkind : message.isRequest = true ∨ message = .ping ∨ message = .pong)
    (hmessages : t.underway = s.underway ++ [message]) (hagent : t.agent = s.agent)
  /-- The agent receives a message. -/
  | receive (message : Message) (hnone : s.queuesRequest a = false) (hopen : s.agent.error = none)
    (hmessages : s.underway = message :: t.underway)
    (hagent : t.agent = s.agent.receive message)
  /-- Messages stay or are lost with the writer, and tasks go on or finish. -/
  | other (hnone : s.queuesRequest a = false) (hmessages : t.underway.Sublist s.underway)
    (htasks : t.agent.tasks.length ≤ s.agent.tasks.length) (herror : t.agent.error = s.agent.error)

/-- Every step does to the messages and the permits what `FlowStep` says. -/
lemma flow_step {s t : LinkedEnds} {a : LimitAction} (hstep : s.step a = some t) :
    FlowStep s a t := by
  cases a with
  | hub action =>
    simp only [step] at hstep
    split at hstep
    · next hlocal =>
      obtain ⟨hub, hhub, rfl⟩ := Option.map_eq_some_iff.mp hstep
      rcases outgoing_step hhub hlocal with ⟨hnone, heq⟩ | ⟨message, hrequest, hkind, hroom, heq⟩ |
        ⟨hnone, heq⟩
      · refine .other hnone ?_ le_rfl rfl
        rw [underway, underway, heq]
      · refine .queue message ?_ (hkind.imp_right Or.inl) ?_ rfl
        · rw [hrequest, queuesRequest, hroom, Bool.and_true]
        · rw [underway, underway, heq, List.append_assoc]
      · refine .other (by rw [queuesRequest, hnone, Bool.false_and]) ?_ le_rfl rfl
        rw [underway, underway, heq, List.append_nil]
        exact List.sublist_append_left _ _
    · cases hstep
  | transmit =>
    simp only [step] at hstep
    split at hstep
    · cases hstep
    · next message outgoing hout =>
      simp only [LinkState.step, hout, Option.map_some, Option.some.injEq] at hstep
      subst hstep
      refine .other rfl ?_ le_rfl rfl
      simp [underway, hout]
  | receive =>
    simp only [step] at hstep
    split at hstep
    · next message toAgent herror hto =>
      obtain rfl := Option.some.inj hstep
      refine .receive message rfl herror ?_ rfl
      rw [underway, underway, hto, List.cons_append]
    · cases hstep
  | answer k response =>
    simp only [step] at hstep
    split at hstep
    · obtain rfl := Option.some.inj hstep
      exact .other rfl (List.Sublist.refl _) (length_setStage _ _ _).le rfl
    · cases hstep
  | enqueueResponse k =>
    simp only [step] at hstep
    split at hstep
    · split at hstep
      · obtain rfl := Option.some.inj hstep
        exact .other rfl (List.Sublist.refl _) (by simp) (by simp)
      · cases hstep
    · cases hstep
  | dropPermit k =>
    simp only [step] at hstep
    split at hstep
    · obtain rfl := Option.some.inj hstep
      exact .other rfl (List.Sublist.refl _) (List.length_eraseIdx_le _ _) rfl
    · cases hstep
  | ping =>
    obtain rfl := Option.some.inj hstep
    exact .other rfl (List.Sublist.refl _) (by simp) (by simp)
  | reply =>
    simp only [step] at hstep
    split at hstep
    · cases hstep
    · obtain rfl := Option.some.inj hstep
      exact .other rfl (List.Sublist.refl _) le_rfl rfl
  | hubReceive =>
    simp only [step] at hstep
    split at hstep
    · obtain ⟨hub, hhub, rfl⟩ := Option.map_eq_some_iff.mp hstep
      refine .other rfl ?_ le_rfl rfl
      rw [underway, underway, outgoing_complete hhub]
    · obtain ⟨hub, hhub, rfl⟩ := Option.map_eq_some_iff.mp hstep
      obtain rfl := Option.some.inj hhub
      cases hsend : s.hub.link.trySend .pong with
      | none => exact .other rfl (by simp [underway]) le_rfl rfl
      | some link =>
        obtain ⟨-, rfl⟩ := AgentLink.trySend_eq_some hsend
        exact .queue .pong rfl (Or.inr (Or.inr rfl)) (by simp [underway]) rfl
    · obtain rfl := Option.some.inj hstep
      exact .other rfl (List.Sublist.refl _) le_rfl rfl
    · cases hstep

/-- What a link carries: every message to the agent is a request, a ping or a pong, and the tasks
of the agent share its permits. -/
structure WellFormed (s : LinkedEnds) : Prop where
  messages : ∀ message ∈ s.underway,
    message.isRequest = true ∨ message = .ping ∨ message = .pong
  permits : s.agent.tasks.length ≤ CONCURRENT_REQUESTS

lemma wellFormed_new : WellFormed new :=
  ⟨fun message h => by simp [underway, new, LinkState.new, AgentLink.new] at h, Nat.zero_le _⟩

/-- Whatever the session loop receives, it does not hand out more permits than there are. -/
lemma permits_receive {session : AgentSession} (message : Message)
    (h : session.tasks.length ≤ CONCURRENT_REQUESTS) :
    (session.receive message).tasks.length ≤ CONCURRENT_REQUESTS := by
  cases hkind : message.isRequest with
  | false =>
    rcases receive_other session hkind with ⟨htasks, -⟩ | ⟨htasks, -⟩ <;> rw [htasks] <;> exact h
  | true =>
    cases message with
    | request id request =>
      rcases receive_request session id request with ⟨hroom, hlen, -⟩ | ⟨-, htasks, -⟩
      · omega
      · rw [htasks]
        exact h
    | _ => cases hkind

/-- Every step keeps a link well formed. -/
lemma WellFormed.step {s t : LinkedEnds} {a : LimitAction} (h : WellFormed s)
    (hstep : s.step a = some t) : WellFormed t := by
  rcases flow_step hstep with ⟨message, -, hkind, hmessages, hagent⟩ |
    ⟨message, -, -, hmessages, hagent⟩ | ⟨-, hmessages, htasks, -⟩
  · refine ⟨fun m hm => ?_, by rw [hagent]; exact h.permits⟩
    rw [hmessages, List.mem_append, List.mem_singleton] at hm
    rcases hm with hm | rfl
    · exact h.messages m hm
    · exact hkind
  · refine ⟨fun m hm => h.messages m ?_, by rw [hagent]; exact permits_receive message h.permits⟩
    rw [hmessages]
    exact List.mem_cons_of_mem _ hm
  · exact ⟨fun m hm => h.messages m (hmessages.subset hm), htasks.trans h.permits⟩

/-! ## While there is room the limit is kept -/

/-- The limit is kept: no more request messages are outstanding than the agent has permits, and
the session has not ended because of them. -/
def WithinLimit (s : LinkedEnds) : Prop :=
  s.outstanding ≤ CONCURRENT_REQUESTS ∧ s.agent.error ≠ some limitError

/-- A step that is taken with room keeps the limit. -/
lemma WithinLimit.step {s t : LinkedEnds} {a : LimitAction} (h : WithinLimit s)
    (hroom : s.HasRoom a) (hstep : s.step a = some t) : WithinLimit t := by
  obtain ⟨hout, herror⟩ := h
  rw [outstanding_eq] at hout
  rcases flow_step hstep with ⟨message, hrequest, -, hmessages, hagent⟩ |
    ⟨message, -, hopen, hmessages, hagent⟩ | ⟨-, hmessages, htasks, herror'⟩
  · refine ⟨?_, by rw [hagent]; exact herror⟩
    rw [outstanding_eq, hmessages, hagent, List.countP_append, List.countP_singleton, hrequest]
    by_cases hqueues : s.queuesRequest a = true
    · have hlt := hroom hqueues
      rw [outstanding_eq] at hlt
      rw [if_pos hqueues]
      omega
    · rw [if_neg hqueues]
      omega
  · rw [hmessages, List.countP_cons] at hout
    cases hkind : message.isRequest with
    | true =>
      cases message with
      | request id request =>
        rcases receive_request s.agent id request with ⟨-, hlen, herror'⟩ | ⟨hfull, -⟩
        · refine ⟨?_, by rw [hagent, herror']; exact herror⟩
          rw [outstanding_eq, hagent, hlen]
          simp only [hkind, if_true] at hout
          omega
        · -- the message itself was still outstanding, so a permit was free
          simp only [hkind, if_true] at hout
          omega
      | _ => cases hkind
    | false =>
      rw [hkind] at hout
      rcases receive_other s.agent hkind with ⟨htasks, herror'⟩ | ⟨htasks, herror'⟩
      · refine ⟨?_, by rw [hagent]; exact herror'⟩
        rw [outstanding_eq, hagent, htasks]
        simpa using hout
      · refine ⟨?_, by rw [hagent, herror']; exact herror⟩
        rw [outstanding_eq, hagent, htasks]
        simpa using hout
  · refine ⟨?_, by rw [herror']; exact herror⟩
    have hcount := hmessages.countP_le (p := Message.isRequest)
    rw [outstanding_eq]
    omega

/-! ## Without room the agent can be overrun -/

/-- A session that goes on with more outstanding requests than permits can be overrun: the messages
under way have only to arrive before a task finishes. -/
lemma overrun_of_outstanding {s : LinkedEnds} (hwf : WellFormed s) (hopen : s.agent.error = none)
    (hout : CONCURRENT_REQUESTS < s.outstanding) :
    ∃ bs u, run step s bs = some u ∧ u.agent.error = some limitError := by
  -- induction on the messages under way; a message that is not written yet counts twice
  induction hn : 2 * s.hub.link.outgoing.length + s.toAgent.length using Nat.strongRecOn
    generalizing s with
  | _ n ih =>
    cases hto : s.toAgent with
    | cons message toAgent =>
      have hstep : s.step .receive =
          some { s with agent := s.agent.receive message, toAgent := toAgent } := by
        simp only [step, hopen, hto]
      have hunder : s.underway = message :: (toAgent ++ s.hub.link.outgoing) := by
        rw [underway, hto, List.cons_append]
      rw [outstanding_eq, hunder, List.countP_cons] at hout
      cases hkind : message.isRequest with
      | true =>
        cases message with
        | request id request =>
          rcases receive_request s.agent id request with ⟨-, hlen, herror⟩ | ⟨-, -, herror⟩
          · obtain ⟨bs, u, hrun, hu⟩ := ih _ (by rw [← hn, hto]; simp) (hwf.step hstep)
              (herror.trans hopen)
              (by
                rw [outstanding_eq, underway, hlen]
                simp only [hkind, if_true] at hout ⊢
                omega) rfl
            exact ⟨.receive :: bs, u, run_cons_eq_some.mpr ⟨_, hstep, hrun⟩, hu⟩
          · exact ⟨[.receive], _, run_cons_eq_some.mpr ⟨_, hstep, rfl⟩, herror⟩
        | _ => cases hkind
      | false =>
        have hpass : (s.agent.receive message).tasks = s.agent.tasks ∧
            (s.agent.receive message).error = s.agent.error := by
          rcases hwf.messages message (by rw [hunder]; exact List.mem_cons_self) with h | rfl | rfl
          · rw [hkind] at h
            cases h
          · exact ⟨tasks_trySend _ _, error_trySend _ _⟩
          · exact ⟨rfl, rfl⟩
        obtain ⟨bs, u, hrun, hu⟩ := ih _ (by rw [← hn, hto]; simp) (hwf.step hstep)
          (hpass.2.trans hopen)
          (by rw [outstanding_eq, underway, hpass.1]; simpa [hkind] using hout) rfl
        exact ⟨.receive :: bs, u, run_cons_eq_some.mpr ⟨_, hstep, hrun⟩, hu⟩
    | nil =>
      cases hqueue : s.hub.link.outgoing with
      | cons message outgoing =>
        have hstep : s.step .transmit = some { s with
            hub := { s.hub with link := { s.hub.link with outgoing := outgoing } }
            toAgent := s.toAgent ++ [message] } := by
          simp only [step, LinkState.step, hqueue, Option.map_some]
        obtain ⟨bs, u, hrun, hu⟩ := ih _ (by
            rw [← hn, hqueue, hto]
            simp only [List.nil_append, List.length_cons, List.length_nil]
            omega) (hwf.step hstep) hopen
          (by
            rw [outstanding_eq, underway, hqueue] at hout
            rw [outstanding_eq, underway]
            simpa using hout) rfl
        exact ⟨.transmit :: bs, u, run_cons_eq_some.mpr ⟨_, hstep, hrun⟩, hu⟩
      | nil =>
        rw [outstanding_eq, underway, hto, hqueue] at hout
        simp only [List.append_nil, List.countP_nil] at hout
        have hpermits := hwf.permits
        omega

/-- Queueing a request message without room leaves more outstanding than there are permits. -/
lemma outstanding_of_no_room {s t : LinkedEnds} {a : LimitAction} (hroom : ¬ s.HasRoom a)
    (hstep : s.step a = some t) :
    CONCURRENT_REQUESTS < t.outstanding ∧ t.agent = s.agent := by
  obtain ⟨hqueues, hfull⟩ := Classical.not_imp.mp hroom
  rcases flow_step hstep with ⟨message, hrequest, -, hmessages, hagent⟩ | ⟨_, hnone, -⟩ | ⟨hnone, -⟩
  · refine ⟨?_, hagent⟩
    rw [outstanding_eq] at hfull
    rw [outstanding_eq, hmessages, hagent, List.countP_append, List.countP_singleton, hrequest,
      if_pos hqueues]
    omega
  · rw [hqueues] at hnone
    cases hnone
  · rw [hqueues] at hnone
    cases hnone

/-- The agent's request limit is kept exactly by the hubs that leave room.  In a run in which every
request message is queued while fewer than 64 are outstanding, the agent never ends the session
because of the limit and never receives a request without a free permit.  A request message queued
without room in a session that is still open can be followed by steps that end the session. -/
theorem limit_kept_iff_room {as : List LimitAction} (hrun : run step new as = some s) :
    (Guarded HasRoom step new as → s.agent.error ≠ some limitError ∧
      ∀ id request toAgent, s.toAgent = .request id request :: toAgent →
        s.agent.tasks.length < CONCURRENT_REQUESTS) ∧
    (s.agent.error = none → ∀ a t, s.step a = some t → ¬ s.HasRoom a →
      ∃ bs u, run step t bs = some u ∧ u.agent.error = some limitError) := by
  refine ⟨fun hguard => ?_, fun hopen a t hstep hroom => ?_⟩
  · have hnew : WithinLimit new := by
      refine ⟨Nat.zero_le _, ?_⟩
      simp [new, AgentSession.new]
    obtain ⟨hout, herror⟩ := guarded_invariant (I := WithinLimit)
      (fun s a t h hroom hstep => h.step hroom hstep) hnew hguard hrun
    refine ⟨herror, fun id request toAgent hto => ?_⟩
    rw [outstanding_eq, underway, hto, List.cons_append, List.countP_cons] at hout
    simp only [Message.isRequest, if_true] at hout
    omega
  · have hwf : WellFormed s :=
      run_invariant (fun _ _ _ h hstep => h.step hstep) wellFormed_new hrun
    obtain ⟨hout, hagent⟩ := outstanding_of_no_room hroom hstep
    exact overrun_of_outstanding (hwf.step hstep) (by rw [hagent, hopen]) hout

/-- A request that is sent and received. -/
def oneRequest : List LimitAction :=
  [.hub (.request .processes), .hub (.register 0), .hub (.enqueue 0), .transmit, .receive]

/-- The limit is kept when one request is sent and received. -/
theorem limit_kept_of_oneRequest :
    ∃ s, run step new oneRequest = some s ∧ s.agent.error ≠ some limitError := by
  have hguard : Guarded HasRoom step new oneRequest := by decide
  exact ⟨_, rfl, ((limit_kept_iff_room rfl).1 hguard).1⟩

/-- 64 requests that the agent is answering, and the close of an observation session. -/
def closeUnderLoad : List LimitAction :=
  ((List.range 64).flatMap fun k =>
    [.hub (.request .processes), .hub (.register k), .hub (.enqueue k), .transmit, .receive]) ++
  [.hub (.closeSession 7), .hub (.enqueueClose 0), .transmit, .receive]

/-- The close of a session under load overruns the agent. -/
theorem overrun_of_closeUnderLoad :
    ∃ s, run step new closeUnderLoad = some s ∧ s.agent.error = some limitError := by
  have hrun : ((run step new closeUnderLoad).map fun s => s.agent.error) = some (some limitError) := by
    decide +kernel
  exact Option.map_eq_some_iff.mp hrun

end LinkedEnds

end Procinsh
