import Procinsh.Hosts.Sessions

/-!
# A hub touches only the sessions that it opened

What one step can do to a task and to a link is stated once.  From it follow the invariant that the
recorded sessions of a link were started by requests of that link, and that no two requests were
ever answered with one session number, whoever made them.
-/

namespace Procinsh

namespace AgentState

variable {s t : AgentState} {a : SessionAction}

/-! ## What one step does -/

/-- What a step from `s` to `t` can do to the task at position `k`. -/
inductive TaskStep (s t : AgentState) (k : ℕ) (x : AnswerTask) : AnswerTask → Prop
  | stay : TaskStep s t k x x
  | check (l : ℕ) (link : LinkSessions) (hstage : x.stage = .spawned) (howner : x.link = some l)
    (hlink : s.links[l]? = some link) :
    TaskStep s t k x
      { x with stage := if mayForward link x.request then .allowed else .rejected }
  | offer (stage : AnswerStage) (hstage : x.stage = .allowed)
    (hnext : stage = .queued ∨ stage = .replied (.error queueError))
    (hoffer : (x.request, s.client.hasRoom) ∈ t.client.offers) :
    TaskStep s t k x { x with stage := stage }
  | fail (error : String) (hstage : x.stage = .queued) :
    TaskStep s t k x { x with stage := .replied (.error error) }
  | reply (input : HelperInput) (hstage : x.stage = .queued)
    (hhead : s.client.queue.head? = some (.task k))
    (hhelper : t.helper = (s.helper.dispatch input x.request).1) :
    TaskStep s t k x { x with stage := .replied (s.helper.dispatch input x.request).2 }
  | update (response : AgentResponse) (hstage : x.stage = .replied response)
    (hlinks : ∀ l, x.link = some l → t.links = s.links.modify l fun link =>
      { link with recorded := link.recorded.update x.request.session? x.request.closing response }) :
    TaskStep s t k x { x with stage := .done response }

/-- A task stays with its link. -/
lemma TaskStep.link_eq {k : ℕ} {x y : AnswerTask} (h : TaskStep s t k x y) : y.link = x.link := by
  cases h <;> rfl

/-- A new task stands at its beginning; only those of links have a check to pass. -/
def NewTask (s : AgentState) (x : AnswerTask) : Prop :=
  (∃ l link, x.link = some l ∧ s.links[l]? = some link) ∧ x.stage = .spawned ∨
    x.link = none ∧ x.stage = .allowed

/-- What a step from `s` to `t` can do to the link at position `l`. -/
inductive LinkStep (s t : AgentState) (l : ℕ) (x : LinkSessions) : LinkSessions → Prop
  | stay : LinkStep s t l x x
  | update (k : ℕ) (task : AnswerTask) (response : AgentResponse) (htask : s.tasks[k]? = some task)
    (howner : task.link = some l) (hstage : task.stage = .replied response)
    (htask' : t.tasks[k]? = some { task with stage := .done response }) :
    LinkStep s t l x { x with
      recorded := x.recorded.update task.request.session? task.request.closing response }
  | finish (hended : x.ended = false) : LinkStep s t l x ⟨[], x.draining ++ x.recorded, true⟩
  | drain (session : UInt64) (draining : Sessions) (hdraining : x.draining = session :: draining)
    (hoffer : (.close session, s.client.hasRoom) ∈ t.client.offers) :
    LinkStep s t l x { x with draining := draining }

/-- What a step from `s` to `t` does. -/
structure AgentStep (s t : AgentState) : Prop where
  tasks : Evolves (TaskStep s t) (NewTask s) s.tasks t.tasks
  links : Evolves (LinkStep s t) (fun link => link = ⟨[], [], false⟩) s.links t.links
  next_le : s.helper.nextSession.toNat ≤ t.helper.nextSession.toNat
  offers : s.client.offers ⊆ t.client.offers

private lemma tasks_stay : Evolves (TaskStep s t) (NewTask s) s.tasks s.tasks :=
  Evolves.refl fun _ _ => .stay

private lemma links_stay : Evolves (LinkStep s t) (fun link => link = ⟨[], [], false⟩)
    s.links s.links :=
  Evolves.refl fun _ _ => .stay

/-- A task that moves to a stage as `TaskStep` says. -/
private lemma tasks_set {k : ℕ} {x : AnswerTask} {stage : AnswerStage}
    (hx : s.tasks[k]? = some x) (hstep : TaskStep s t k x { x with stage := stage }) :
    Evolves (TaskStep s t) (NewTask s) s.tasks (s.setStage k x stage).tasks :=
  Evolves.set (fun _ _ _ => .stay) hx hstep

/-- An offer to the client's queue is kept. -/
lemma offers_trySend (client : MonitorClient) (entry : QueueEntry) (request : MonitorRequest) :
    client.offers ⊆ (client.trySend entry request).offers ∧
      (request, client.hasRoom) ∈ (client.trySend entry request).offers :=
  ⟨fun _ h => List.mem_append_left _ h, List.mem_append_right _ (List.mem_singleton.mpr rfl)⟩

/-- Every step does what `AgentStep` says. -/
lemma agent_step (hstep : s.step a = some t) : AgentStep s t := by
  cases a with
  | connect =>
    obtain rfl := Option.some.inj hstep
    exact ⟨tasks_stay, Evolves.append (fun _ _ => .stay) rfl, le_rfl, fun _ h => h⟩
  | receive l request =>
    simp only [step] at hstep
    split at hstep
    · next hl =>
      obtain rfl := Option.some.inj hstep
      exact ⟨Evolves.append (fun _ _ => .stay) (Or.inl ⟨⟨l, _, rfl, hl⟩, rfl⟩), links_stay, le_rfl,
        fun _ h => h⟩
    · cases hstep
  | localRequest request =>
    obtain rfl := Option.some.inj hstep
    exact ⟨Evolves.append (fun _ _ => .stay) (Or.inr ⟨rfl, rfl⟩), links_stay, le_rfl, fun _ h => h⟩
  | localClose session =>
    obtain rfl := Option.some.inj hstep
    exact ⟨tasks_stay, links_stay, le_rfl, (offers_trySend _ _ _).1⟩
  | check k =>
    simp only [step] at hstep
    split at hstep
    · next l request hk =>
      obtain ⟨link, hlink, rfl⟩ := Option.map_eq_some_iff.mp hstep
      exact ⟨tasks_set hk (.check l link rfl rfl hlink), links_stay, le_rfl, fun _ h => h⟩
    · cases hstep
  | offer k =>
    simp only [step] at hstep
    split at hstep
    · next link request hk =>
      obtain rfl := Option.some.inj hstep
      refine ⟨tasks_set hk (.offer _ rfl ?_ (offers_trySend _ _ _).2), links_stay, le_rfl,
        (offers_trySend _ _ _).1⟩
      split
      · exact Or.inl rfl
      · exact Or.inr rfl
    · cases hstep
  | dispatch input failure =>
    simp only [step] at hstep
    split at hstep
    · cases hstep
    · obtain rfl := Option.some.inj hstep
      exact ⟨tasks_stay, links_stay, (s.helper.dispatch_numbered input _).next_le, fun _ h => h⟩
    · next k queue hqueue =>
      split at hstep
      · next link request hk =>
        obtain rfl := Option.some.inj hstep
        refine ⟨?_, links_stay, (s.helper.dispatch_numbered input _).next_le, fun _ h => h⟩
        cases failure with
        | some error => exact tasks_set hk (.fail error rfl)
        | none => exact tasks_set hk (.reply input rfl (by rw [hqueue]; rfl) rfl)
      · obtain rfl := Option.some.inj hstep
        exact ⟨tasks_stay, links_stay, (s.helper.dispatch_numbered input _).next_le, fun _ h => h⟩
      · obtain rfl := Option.some.inj hstep
        exact ⟨tasks_stay, links_stay, le_rfl, fun _ h => h⟩
  | fail k error =>
    simp only [step] at hstep
    split at hstep
    · next link request hk =>
      obtain rfl := Option.some.inj hstep
      exact ⟨tasks_set hk (.fail error rfl), links_stay, le_rfl, fun _ h => h⟩
    · cases hstep
  | update k =>
    simp only [step] at hstep
    split at hstep
    · next l request response hk =>
      obtain rfl := Option.some.inj hstep
      refine ⟨tasks_set hk (.update response rfl ?_), ?_, le_rfl, fun _ h => h⟩
      · intro l' hl'
        rw [Option.some.inj hl']
      · refine Evolves.modify (fun _ _ _ => .stay) fun link hlink => ?_
        refine .update k ⟨some l, request, .replied response⟩ response hk rfl rfl ?_
        exact List.getElem?_set_self (List.getElem?_eq_some_iff.mp hk).1
    · next request response hk =>
      obtain rfl := Option.some.inj hstep
      refine ⟨tasks_set hk (.update response rfl ?_), links_stay, le_rfl, fun _ h => h⟩
      intro l hl
      cases hl
    · cases hstep
  | endLink l =>
    simp only [step] at hstep
    split at hstep
    · next recorded draining hl =>
      obtain rfl := Option.some.inj hstep
      exact ⟨tasks_stay, Evolves.set (fun _ _ _ => .stay) hl (.finish rfl), le_rfl, fun _ h => h⟩
    · cases hstep
  | closeDrained l =>
    simp only [step] at hstep
    split at hstep
    · next recorded session draining ended hl =>
      obtain rfl := Option.some.inj hstep
      refine ⟨tasks_stay, ?_, le_rfl, (offers_trySend _ _ _).1⟩
      exact Evolves.set (fun _ _ _ => .stay) hl (.drain session draining rfl (offers_trySend _ _ _).2)
    · cases hstep
  | disconnect =>
    obtain rfl := Option.some.inj hstep
    exact ⟨tasks_stay, links_stay, le_rfl, fun _ h => h⟩

/-! ## Sessions and the requests that started them -/

/-- The request of task `k`, made by `link` or by a local viewer, was answered by the start of the
session. -/
def Started (s : AgentState) (k : ℕ) (link : Option ℕ) (session : UInt64) : Prop :=
  ∃ task initial, s.tasks[k]? = some task ∧ task.link = link ∧
    task.stage.response? = some (.ok (.started session initial))

/-- What is recorded after an update was recorded before it, or is the session that started. -/
lemma mem_update {sessions : Sessions} {used : Option UInt64} {closing : Bool}
    {response : AgentResponse} {session : UInt64}
    (h : session ∈ sessions.update used closing response) :
    session ∈ sessions ∨ ∃ initial, response = .ok (.started session initial) := by
  have hrecorded : session ∈ sessions.record response := by
    unfold Sessions.update at h
    dsimp only at h
    split at h
    · cases used with
      | none => exact h
      | some other => exact (List.mem_filter.mp h).1
    · exact h
  unfold Sessions.record at hrecorded
  split at hrecorded
  · rcases List.mem_insert_iff.mp hrecorded with rfl | hmem
    · exact Or.inr ⟨_, rfl⟩
    · exact Or.inl hmem
  · exact Or.inl hrecorded

/-- A session that started stays started. -/
lemma Started.step {k : ℕ} {link : Option ℕ} {session : UInt64} (h : Started s k link session)
    (hstep : s.step a = some t) : Started t k link session := by
  obtain ⟨task, initial, htask, hlink, hresponse⟩ := h
  obtain ⟨task', htask', hmove⟩ := (agent_step hstep).tasks.old k task htask
  cases hmove with
  | stay => exact ⟨task, initial, htask', hlink, hresponse⟩
  | check l link hstage => simp [hstage, AnswerStage.response?] at hresponse
  | offer stage hstage => simp [hstage, AnswerStage.response?] at hresponse
  | fail error hstage => simp [hstage, AnswerStage.response?] at hresponse
  | reply input hstage => simp [hstage, AnswerStage.response?] at hresponse
  | update response hstage =>
    rw [hstage] at hresponse
    exact ⟨_, initial, htask', hlink, hresponse⟩

/-- A session that has started was started before the step, or by the reply that the client's
worker received in it; then its number is new. -/
lemma Started.inv {k : ℕ} {link : Option ℕ} {session : UInt64} (h : Started t k link session)
    (hstep : s.step a = some t) :
    Started s k link session ∨ s.client.queue.head? = some (.task k) ∧
      s.helper.nextSession.toNat < session.toNat ∧
      session.toNat ≤ t.helper.nextSession.toNat := by
  obtain ⟨task', initial, htask', hlink, hresponse⟩ := h
  rcases (agent_step hstep).tasks.inv htask' with ⟨task, htask, hmove⟩ | ⟨-, hnew⟩
  · cases hmove with
    | stay => exact Or.inl ⟨_, initial, htask, hlink, hresponse⟩
    | check l link hstage =>
      exfalso
      dsimp only at hresponse
      split at hresponse <;> simp [AnswerStage.response?] at hresponse
    | offer stage hstage hnext =>
      rcases hnext with rfl | rfl <;> simp [AnswerStage.response?] at hresponse
    | fail error hstage => simp [AnswerStage.response?] at hresponse
    | reply input hstage hhead hhelper =>
      right
      have hreply : (s.helper.dispatch input task.request).2 = .ok (.started session initial) :=
        Option.some.inj hresponse
      rw [hhelper]
      exact ⟨hhead, (s.helper.dispatch_numbered input task.request).started session initial hreply⟩
    | update response hstage =>
      refine Or.inl ⟨task, initial, htask, hlink, ?_⟩
      rw [hstage]
      exact hresponse
  · rcases hnew with ⟨-, hstage⟩ | ⟨-, hstage⟩ <;> simp [hstage, AnswerStage.response?] at hresponse

/-- How the sessions, the links and the tasks fit together. -/
structure SessionInv (s : AgentState) : Prop where
  le_next : ∀ k link session, Started s k link session →
    session.toNat ≤ s.helper.nextSession.toNat
  /-- No two requests were answered by the start of one session. -/
  inj : ∀ j k link link' session, Started s j link session → Started s k link' session → j = k
  /-- A session that a link holds was started by a request of the link. -/
  held : ∀ l link session, s.links[l]? = some link →
    session ∈ link.recorded ∨ session ∈ link.draining → ∃ k, Started s k (some l) session
  /-- A request of a link that was let through uses a session that the link started. -/
  forwarded : ∀ (k : ℕ) (task : AnswerTask) (l : ℕ) (session : UInt64), s.tasks[k]? = some task →
    task.link = some l → task.request.session? = some session → task.stage.forwarded = true →
    ∃ j, Started s j (some l) session
  asked : ∀ (k : ℕ) (task : AnswerTask), s.tasks[k]? = some task → task.stage.asked = true →
    ∃ accepted, (task.request, accepted) ∈ s.client.offers
  owner : ∀ (k : ℕ) (task : AnswerTask) (l : ℕ), s.tasks[k]? = some task → task.link = some l →
    ∃ link, s.links[l]? = some link

lemma sessionInv_new : SessionInv new := by
  have hstarted : ∀ k link session, ¬ Started new k link session := by
    rintro k link session ⟨task, initial, htask, -⟩
    simp [new] at htask
  exact ⟨fun k link session h => (hstarted k link session h).elim,
    fun j k link link' session h => (hstarted j link session h).elim,
    fun l link session h => by simp [new] at h, fun k task l session h => by simp [new] at h,
    fun k task h => by simp [new] at h, fun k task l h => by simp [new] at h⟩

/-- What a link holds after a step it held before, or its request was answered by the start. -/
lemma held_inv {l : ℕ} {link' : LinkSessions} {session : UInt64} (hstep : s.step a = some t)
    (hlink' : t.links[l]? = some link')
    (hheld : session ∈ link'.recorded ∨ session ∈ link'.draining) :
    (∃ link, s.links[l]? = some link ∧ (session ∈ link.recorded ∨ session ∈ link.draining)) ∨
      ∃ k, Started s k (some l) session := by
  rcases (agent_step hstep).links.inv hlink' with ⟨link, hlink, hmove⟩ | ⟨-, rfl⟩
  · cases hmove with
    | stay => exact Or.inl ⟨_, hlink, hheld⟩
    | update k task response htask howner hstage =>
      rcases hheld with hmem | hmem
      · rcases mem_update hmem with hmem | ⟨initial, hresponse⟩
        · exact Or.inl ⟨link, hlink, Or.inl hmem⟩
        · exact Or.inr ⟨k, task, initial, htask, howner, by rw [hstage, hresponse]; rfl⟩
      · exact Or.inl ⟨link, hlink, Or.inr hmem⟩
    | finish =>
      rcases hheld with hmem | hmem
      · cases hmem
      · exact Or.inl ⟨link, hlink, (List.mem_append.mp hmem).symm⟩
    | drain other draining hdraining =>
      refine Or.inl ⟨link, hlink, hheld.imp_right fun hmem => ?_⟩
      rw [hdraining]
      exact List.mem_cons_of_mem _ hmem
  · simp at hheld

/-- The invariant is kept by every step. -/
lemma SessionInv.step (h : SessionInv s) (hstep : s.step a = some t) : SessionInv t where
  le_next k link session hstarted := by
    rcases hstarted.inv hstep with hstarted | ⟨-, -, hle⟩
    · exact (h.le_next k link session hstarted).trans (agent_step hstep).next_le
    · exact hle
  inj j k link link' session hj hk := by
    rcases hj.inv hstep with hj | ⟨hheadj, hlt, -⟩ <;>
      rcases hk.inv hstep with hk | ⟨hheadk, hlt', -⟩
    · exact h.inj j k link link' session hj hk
    · -- an old session has an older number than the new one
      have hle := h.le_next j link session hj
      omega
    · have hle := h.le_next k link' session hk
      omega
    · rw [hheadj] at hheadk
      exact QueueEntry.task.inj (Option.some.inj hheadk)
  held l link' session hlink' hheld := by
    rcases held_inv hstep hlink' hheld with ⟨link, hlink, hheld⟩ | ⟨k, hstarted⟩
    · obtain ⟨k, hstarted⟩ := h.held l link session hlink hheld
      exact ⟨k, hstarted.step hstep⟩
    · exact ⟨k, hstarted.step hstep⟩
  forwarded k task' l session htask' howner hsession hforwarded := by
    rcases (agent_step hstep).tasks.inv htask' with ⟨task, htask, hmove⟩ | ⟨-, hnew⟩
    · have hold : task.link = some l → task.request.session? = some session →
          task.stage.forwarded = true → ∃ j, Started t j (some l) session := by
        intro howner hsession hforwarded
        obtain ⟨j, hstarted⟩ := h.forwarded k task l session htask howner hsession hforwarded
        exact ⟨j, hstarted.step hstep⟩
      cases hmove with
      | stay => exact hold howner hsession hforwarded
      | check l' link hstage howner' hlink =>
        -- the check let it through because the session is recorded
        obtain rfl : l' = l := Option.some.inj (howner'.symm.trans howner)
        have hmay : mayForward link task.request = true := by
          by_contra hnot
          simp [hnot, AnswerStage.forwarded] at hforwarded
        have hmem : session ∈ link.recorded := by
          simpa [mayForward, show task.request.session? = some session from hsession] using hmay
        obtain ⟨j, hstarted⟩ := h.held l' link session hlink (Or.inl hmem)
        exact ⟨j, hstarted.step hstep⟩
      | offer stage hstage => exact hold howner hsession (by rw [hstage]; rfl)
      | fail error hstage => exact hold howner hsession (by rw [hstage]; rfl)
      | reply input hstage => exact hold howner hsession (by rw [hstage]; rfl)
      | update response hstage => exact hold howner hsession (by rw [hstage]; rfl)
    · rcases hnew with ⟨-, hstage⟩ | ⟨hnone, -⟩
      · simp [hstage, AnswerStage.forwarded] at hforwarded
      · rw [hnone] at howner
        cases howner
  asked k task' htask' hasked := by
    rcases (agent_step hstep).tasks.inv htask' with ⟨task, htask, hmove⟩ | ⟨-, hnew⟩
    · have hold : task.stage.asked = true →
          ∃ accepted, (task.request, accepted) ∈ t.client.offers := by
        intro hasked
        obtain ⟨accepted, hmem⟩ := h.asked k task htask hasked
        exact ⟨accepted, (agent_step hstep).offers hmem⟩
      cases hmove with
      | stay => exact hold hasked
      | check l' link hstage =>
        dsimp only at hasked
        split at hasked <;> simp [AnswerStage.asked] at hasked
      | offer stage hstage hnext hoffer => exact ⟨_, hoffer⟩
      | fail error hstage => exact hold (by rw [hstage]; rfl)
      | reply input hstage => exact hold (by rw [hstage]; rfl)
      | update response hstage => exact hold (by rw [hstage]; rfl)
    · rcases hnew with ⟨-, hstage⟩ | ⟨-, hstage⟩ <;> simp [hstage, AnswerStage.asked] at hasked
  owner k task' l htask' howner := by
    have hlink : ∃ link, s.links[l]? = some link := by
      rcases (agent_step hstep).tasks.inv htask' with ⟨task, htask, hmove⟩ | ⟨-, hnew⟩
      · exact h.owner k task l htask (hmove.link_eq ▸ howner)
      · rcases hnew with ⟨⟨l', link, hl', hlink⟩, -⟩ | ⟨hnone, -⟩
        · obtain rfl : l' = l := Option.some.inj (hl'.symm.trans howner)
          exact ⟨link, hlink⟩
        · rw [hnone] at howner
          cases howner
    obtain ⟨link, hlink⟩ := hlink
    obtain ⟨link', hlink', -⟩ := (agent_step hstep).links.old l link hlink
    exact ⟨link', hlink'⟩

/-- The invariant holds in every reachable state. -/
lemma sessionInv_of_run {as : List SessionAction} (hrun : run step new as = some s) :
    SessionInv s :=
  run_invariant (fun _ _ _ h hstep => h.step hstep) sessionInv_new hrun

/-! ## Isolation -/

/-- What the sessions of the links are worth in the state `s`. -/
structure Isolated (s : AgentState) : Prop where
  /-- A poll or close of a link that was let through to the helper uses a session with which an
  earlier request of the same link was answered. -/
  forwarded_own : ∀ (k : ℕ) (task : AnswerTask) (l : ℕ) (session : UInt64),
    s.tasks[k]? = some task → task.link = some l → task.request.session? = some session →
    task.stage.forwarded = true → ∃ j, Started s j (some l) session
  /-- A poll or close of any other session is answered by an error, and that is all it does: the
  helper, the client and the links stay as they are. -/
  other_rejected : ∀ (k : ℕ) (task : AnswerTask) (l : ℕ) (link : LinkSessions) (session : UInt64),
    s.tasks[k]? = some task → task.link = some l → s.links[l]? = some link →
    task.request.session? = some session → task.stage = .spawned →
    (∀ j, ¬ Started s j (some l) session) →
    ∃ t, s.step (.check k) = some t ∧
      (t.tasks[k]?).bind (fun task => task.stage.answer?) = some (.error unknownSession) ∧
      t.helper = s.helper ∧ t.client = s.client ∧ t.links = s.links
  /-- A session belongs to one request only, so it is never one that another link or a local viewer
  opened. -/
  started_once : ∀ j k link link' session, Started s j link session → Started s k link' session →
    j = k ∧ link = link'

/-- A hub touches only observation sessions that it opened itself: in every state that any
interleaving of links, answer tasks, local viewers and helper replies reaches. -/
theorem sessions_isolated {as : List SessionAction} {s : AgentState}
    (hrun : run step new as = some s) : Isolated s := by
  have hinv := sessionInv_of_run hrun
  refine ⟨hinv.forwarded, ?_, ?_⟩
  · intro k task l link session htask howner hlink hsession hstage hforeign
    have hmem : session ∉ link.recorded := fun hmem => by
      obtain ⟨j, hstarted⟩ := hinv.held l link session hlink (Or.inl hmem)
      exact hforeign j hstarted
    obtain ⟨owner, request, stage⟩ := task
    obtain rfl : owner = some l := howner
    obtain rfl : stage = .spawned := hstage
    have hmay : mayForward link request = false := by
      simpa [mayForward, show request.session? = some session from hsession] using hmem
    refine ⟨s.setStage k ⟨some l, request, .spawned⟩ .rejected, ?_, ?_, rfl, rfl, rfl⟩
    · simp [step, htask, hlink, hmay]
    · have hlt : k < s.tasks.length := (List.getElem?_eq_some_iff.mp htask).1
      simp [setStage, List.getElem?_set_self hlt, AnswerStage.answer?]
  · intro j k link link' session hj hk
    obtain rfl := hinv.inj j k link link' session hj hk
    obtain ⟨task, initial, htask, hlink, -⟩ := hj
    obtain ⟨task', initial', htask', hlink', -⟩ := hk
    obtain rfl : task = task' := Option.some.inj (htask.symm.trans htask')
    exact ⟨rfl, hlink.symm.trans hlink'⟩

/-- A helper input with an observation event for every question. -/
def someInput : HelperInput :=
  ⟨[], false, .ok .null, .ok (.snapshot .null), (some (.snapshot .null), false)⟩

/-- A local viewer and a link start a session each; then the hub polls both. -/
def pollOwnAndForeign : List SessionAction :=
  [.connect, .localRequest .observeSystem, .offer 0, .dispatch someInput none, .update 0,
    .receive 0 .observeSystem, .check 1, .offer 1, .dispatch someInput none, .update 1,
    .receive 0 (.poll 2), .check 2, .offer 2, .receive 0 (.poll 1), .check 3]

/-- The poll of the link's own session is forwarded, the poll of the viewer's session rejected. -/
theorem sessions_isolated_of_polls :
    ∃ s, run step new pollOwnAndForeign = some s ∧
      (s.tasks.map fun task => task.stage.forwarded) = [true, true, true, false] ∧ Isolated s :=
  ⟨(run step new pollOwnAndForeign).get (by decide +kernel), (Option.some_get _).symm,
    by decide +kernel, sessions_isolated (Option.some_get _).symm⟩

end AgentState

end Procinsh
