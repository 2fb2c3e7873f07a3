import Procinsh.Hosts.SessionIsolation

/-!
# What becomes of the sessions of a link that ends

When a link ends, the sessions that it has recorded are taken out and closed one by one.  A session
that was recorded before the end is therefore accounted for afterwards: its close was offered to the
client's queue, or the link had forgotten it before, because the helper reported it closed or
because a poll or close of it failed.  A session whose start is recorded after the end, or that was
forgotten after a failed poll, is left to its lease.
-/

namespace Procinsh

namespace AgentState

variable {s t : AgentState} {a : SessionAction} {l : ℕ} {session : UInt64}

/-- Why a link need not hold a session any more. -/
inductive Accounted (s : AgentState) (l : ℕ) (session : UInt64) : Prop
  /-- A close of the session was queued for the helper. -/
  | sent (hsent : (.close session, true) ∈ s.client.offers)
  /-- A close of the session was offered, and the queue was full or the connection lost. -/
  | refused (hrefused : (.close session, false) ∈ s.client.offers)
  /-- The helper reported the session closed in the answer to a poll of the link. -/
  | reported (k : ℕ) (event : Option MonitorEvent)
    (htask : s.tasks[k]? = some ⟨some l, .poll session, .done (.ok (.event event true))⟩)
  /-- A poll or close of the session by the link was answered by an error. -/
  | failed (k : ℕ) (request : MonitorRequest) (error : String)
    (hrequest : request.session? = some session)
    (htask : s.tasks[k]? = some ⟨some l, request, .done (.error error)⟩)

/-- An offered close accounts for its session. -/
lemma accounted_of_offer {accepted : Bool} (h : (.close session, accepted) ∈ s.client.offers) :
    Accounted s l session := by
  cases accepted with
  | true => exact .sent h
  | false => exact .refused h

/-- A task that has returned stays as it is. -/
lemma done_stable {k : ℕ} {task : AnswerTask} {response : AgentResponse}
    (htask : s.tasks[k]? = some task) (hdone : task.stage = .done response)
    (hstep : s.step a = some t) : t.tasks[k]? = some task := by
  obtain ⟨task', htask', hmove⟩ := (agent_step hstep).tasks.old k task htask
  cases hmove with
  | stay => exact htask'
  | check l link hstage => simp [hdone] at hstage
  | offer stage hstage => simp [hdone] at hstage
  | fail error hstage => simp [hdone] at hstage
  | reply input hstage => simp [hdone] at hstage
  | update response' hstage => simp [hdone] at hstage

/-- A session that is accounted for stays so. -/
lemma Accounted.step (h : Accounted s l session) (hstep : s.step a = some t) :
    Accounted t l session := by
  cases h with
  | sent hsent => exact .sent ((agent_step hstep).offers hsent)
  | refused hrefused => exact .refused ((agent_step hstep).offers hrefused)
  | reported k event htask => exact .reported k event (done_stable htask rfl hstep)
  | failed k request error hrequest htask =>
    exact .failed k request error hrequest (done_stable htask rfl hstep)

/-- What an update keeps: a session that was recorded, or has just started, is recorded after it,
unless the request used the session and ended it. -/
lemma update_keeps {sessions : Sessions} {used : Option UInt64} {closing : Bool}
    {response : AgentResponse}
    (h : session ∈ sessions ∨ ∃ initial, response = .ok (.started session initial)) :
    session ∈ sessions.update used closing response ∨
      endsSession closing response = true ∧ used = some session := by
  have hrecorded : session ∈ sessions.record response := by
    unfold Sessions.record
    rcases h with hmem | ⟨initial, rfl⟩
    · split
      · exact List.mem_insert_of_mem hmem
      · exact hmem
    · exact List.mem_insert_self
  unfold Sessions.update
  dsimp only
  by_cases hends : endsSession closing response = true
  · rw [if_pos hends]
    cases used with
    | none => exact Or.inl hrecorded
    | some other =>
      by_cases hother : other = session
      · exact Or.inr ⟨hends, by rw [hother]⟩
      · exact Or.inl (List.mem_filter.mpr ⟨hrecorded, by simpa using Ne.symm hother⟩)
  · rw [if_neg hends]
    exact Or.inl hrecorded

/-- A session that an update forgets is accounted for. -/
lemma accounted_of_ended {k : ℕ} {task : AnswerTask} {response : AgentResponse}
    (hinv : SessionInv t) (htask : t.tasks[k]? = some { task with stage := .done response })
    (howner : task.link = some l) (hused : task.request.session? = some session)
    (hends : endsSession task.request.closing response = true) : Accounted t l session := by
  obtain ⟨owner, request, stage⟩ := task
  obtain rfl : owner = some l := howner
  cases request with
  | close other =>
    obtain rfl : other = session := Option.some.inj hused
    obtain ⟨accepted, hoffer⟩ := hinv.asked k _ htask rfl
    exact accounted_of_offer hoffer
  | poll other =>
    obtain rfl : other = session := Option.some.inj hused
    unfold endsSession at hends
    simp only [MonitorRequest.closing, Bool.false_or] at hends
    split at hends
    · exact .reported k _ htask
    · exact .failed k _ _ rfl htask
    · cases hends
  | _ => cases hused

/-- A session that a link holds is held after a step, or accounted for. -/
lemma held_step {link : LinkSessions} (hinv : SessionInv t) (hstep : s.step a = some t)
    (hlink : s.links[l]? = some link) (hheld : session ∈ link.recorded ∨ session ∈ link.draining) :
    (∃ link', t.links[l]? = some link' ∧
      (session ∈ link'.recorded ∨ session ∈ link'.draining)) ∨ Accounted t l session := by
  obtain ⟨link', hlink', hmove⟩ := (agent_step hstep).links.old l link hlink
  cases hmove with
  | stay => exact Or.inl ⟨_, hlink', hheld⟩
  | update k task response htask howner hstage htask' =>
    rcases hheld with hmem | hmem
    · rcases update_keeps (Or.inl hmem) with hkept | ⟨hends, hused⟩
      · exact Or.inl ⟨_, hlink', Or.inl hkept⟩
      · exact Or.inr (accounted_of_ended hinv htask' howner hused hends)
    · exact Or.inl ⟨_, hlink', Or.inr hmem⟩
  | finish => exact Or.inl ⟨_, hlink', Or.inr (List.mem_append.mpr hheld.symm)⟩
  | drain other draining hdraining hoffer =>
    rcases hheld with hmem | hmem
    · exact Or.inl ⟨_, hlink', Or.inl hmem⟩
    · rw [hdraining] at hmem
      rcases List.mem_cons.mp hmem with rfl | hmem
      · exact Or.inr (accounted_of_offer hoffer)
      · exact Or.inl ⟨_, hlink', Or.inr hmem⟩

/-- A session that waits to be closed by an ended link waits after a step, or is accounted for. -/
lemma draining_step {link : LinkSessions} (hstep : s.step a = some t)
    (hlink : s.links[l]? = some link) (hmem : session ∈ link.draining) :
    (∃ link', t.links[l]? = some link' ∧ session ∈ link'.draining) ∨ Accounted t l session := by
  obtain ⟨link', hlink', hmove⟩ := (agent_step hstep).links.old l link hlink
  cases hmove with
  | stay => exact Or.inl ⟨_, hlink', hmem⟩
  | update => exact Or.inl ⟨_, hlink', hmem⟩
  | finish => exact Or.inl ⟨_, hlink', List.mem_append_left _ hmem⟩
  | drain other draining hdraining hoffer =>
    rw [hdraining] at hmem
    rcases List.mem_cons.mp hmem with rfl | hmem
    · exact Or.inr (accounted_of_offer hoffer)
    · exact Or.inl ⟨_, hlink', hmem⟩

/-- The update of the request that started a session has run. -/
def Recorded (s : AgentState) (l : ℕ) (session : UInt64) : Prop :=
  ∃ (k : ℕ) (task : AnswerTask) (initial : MonitorEvent), s.tasks[k]? = some task ∧
    task.link = some l ∧ task.stage = .done (.ok (.started session initial))

/-- A link holds a session, or the session is accounted for. -/
def HeldOrAccounted (s : AgentState) (l : ℕ) (session : UInt64) : Prop :=
  (∃ link, s.links[l]? = some link ∧ (session ∈ link.recorded ∨ session ∈ link.draining)) ∨
    Accounted s l session

/-- A recorded session is held by its link or accounted for: every step keeps it so. -/
lemma recorded_step (hinvs : SessionInv s) (hinv : SessionInv t) (hstep : s.step a = some t)
    (h : ∀ l session, Recorded s l session → HeldOrAccounted s l session)
    (hrecorded : Recorded t l session) : HeldOrAccounted t l session := by
  obtain ⟨k, task', initial, htask', howner, hdone⟩ := hrecorded
  have hold : Recorded s l session → HeldOrAccounted t l session := by
    intro hrecorded
    rcases h l session hrecorded with ⟨link, hlink, hheld⟩ | haccounted
    · exact held_step hinv hstep hlink hheld
    · exact Or.inr (haccounted.step hstep)
  rcases (agent_step hstep).tasks.inv htask' with ⟨task, htask, hmove⟩ | ⟨-, hnew⟩
  · cases hmove with
    | stay => exact hold ⟨k, _, initial, htask, howner, hdone⟩
    | check l' link hstage =>
      exfalso
      dsimp only at hdone
      split at hdone <;> cases hdone
    | offer stage hstage hnext => rcases hnext with rfl | rfl <;> cases hdone
    | fail error hstage => cases hdone
    | reply input hstage => cases hdone
    | update response hstage hlinks =>
      obtain rfl : response = .ok (.started session initial) := AnswerStage.done.inj hdone
      obtain ⟨link, hlink⟩ := hinvs.owner k task l htask howner
      have hlink' : t.links[l]? = some { link with
          recorded := link.recorded.update task.request.session? task.request.closing
            (.ok (.started session initial)) } := by
        rw [hlinks l howner, List.getElem?_modify, hlink]
        simp
      rcases update_keeps (Or.inr ⟨initial, rfl⟩) with hkept | ⟨hends, hused⟩
      · exact Or.inl ⟨_, hlink', Or.inl hkept⟩
      · exact Or.inr (accounted_of_ended hinv htask' howner hused hends)
  · rcases hnew with ⟨-, hstage⟩ | ⟨-, hstage⟩ <;> rw [hstage] at hdone <;> cases hdone

/-- In every reachable state a recorded session is held by its link or accounted for. -/
lemma heldOrAccounted_of_run {as : List SessionAction} (hrun : run step new as = some s)
    (hrecorded : Recorded s l session) : HeldOrAccounted s l session := by
  have hboth : SessionInv s ∧ ∀ l session, Recorded s l session → HeldOrAccounted s l session := by
    refine run_invariant (I := fun s => SessionInv s ∧
      ∀ l session, Recorded s l session → HeldOrAccounted s l session)
      (fun s a t h hstep => ?_) ⟨sessionInv_new, ?_⟩ hrun
    · have hinv := h.1.step hstep
      exact ⟨hinv, fun l session => recorded_step h.1 hinv hstep h.2⟩
    · rintro l session ⟨k, task, initial, htask, -⟩
      simp [new] at htask
  exact hboth.2 l session hrecorded

/-- When a link ends, the sessions that it holds wait to be closed. -/
lemma draining_of_endLink {link : LinkSessions} (hstep : s.step (.endLink l) = some t)
    (hlink : s.links[l]? = some link) (hheld : session ∈ link.recorded ∨ session ∈ link.draining) :
    ∃ link', t.links[l]? = some link' ∧ session ∈ link'.draining := by
  simp only [step, hlink] at hstep
  split at hstep
  · next recorded draining hopen =>
    obtain rfl := Option.some.inj hopen
    obtain rfl := Option.some.inj hstep
    refine ⟨⟨[], draining ++ recorded, true⟩, ?_, List.mem_append.mpr hheld.symm⟩
    exact List.getElem?_set_self (List.getElem?_eq_some_iff.mp hlink).1
  · cases hstep

/-- The end of a link accounts for the sessions recorded before it.  Take any run in which the link
`l` ends and that goes on until the link has worked off the sessions that it took out: every session
recorded before the end has been sent a close, unless the client's queue refused the close, the
helper had reported the session closed, or a poll or close of it had failed. -/
theorem ended_link_accounts {as before after : List SessionAction} {s u : AgentState} {l : ℕ}
    {session : UInt64} (hrun : run step new as = some s) (has : as = before ++ .endLink l :: after)
    (hbefore : run step new before = some u) (hrecorded : Recorded u l session)
    (hdrained : ∀ link, s.links[l]? = some link → link.draining = []) : Accounted s l session := by
  rw [has] at hrun
  obtain ⟨v, hv, hrun⟩ := run_append_eq_some.mp hrun
  obtain rfl : v = u := Option.some.inj (hv.symm.trans hbefore)
  obtain ⟨w, hw, hafter⟩ := run_cons_eq_some.mp hrun
  have hstart : (∃ link, w.links[l]? = some link ∧ session ∈ link.draining) ∨
      Accounted w l session := by
    rcases heldOrAccounted_of_run hbefore hrecorded with ⟨link, hlink, hheld⟩ | haccounted
    · exact Or.inl (draining_of_endLink hw hlink hheld)
    · exact Or.inr (haccounted.step hw)
  have hend : (∃ link, s.links[l]? = some link ∧ session ∈ link.draining) ∨
      Accounted s l session := by
    refine run_invariant (I := fun s => (∃ link, s.links[l]? = some link ∧
      session ∈ link.draining) ∨ Accounted s l session) (fun s a t h hstep => ?_) hstart hafter
    rcases h with ⟨link, hlink, hmem⟩ | haccounted
    · exact draining_step hstep hlink hmem
    · exact Or.inr (haccounted.step hstep)
  rcases hend with ⟨link, hlink, hmem⟩ | haccounted
  · rw [hdrained link hlink] at hmem
    cases hmem
  · exact haccounted

/-- A link starts a session and ends. -/
def startAndEnd : List SessionAction :=
  [.connect, .receive 0 .observeSystem, .check 0, .offer 0, .dispatch someInput none, .update 0,
    .endLink 0, .closeDrained 0]

/-- The session of `startAndEnd` is accounted for. -/
theorem ended_link_accounts_of_startAndEnd :
    ∃ s, run step new startAndEnd = some s ∧ Accounted s 0 1 :=
  ⟨(run step new startAndEnd).get (by decide +kernel), (Option.some_get _).symm,
    ended_link_accounts (Option.some_get _).symm
      (show startAndEnd = startAndEnd.take 6 ++ .endLink 0 :: [.closeDrained 0] from rfl)
      (u := (run step new (startAndEnd.take 6)).get (by decide +kernel)) (Option.some_get _).symm
      ⟨0, ⟨some 0, .observeSystem, .done (.ok (.started 1 (.snapshot .null)))⟩, .snapshot .null,
        by decide +kernel, rfl, rfl⟩
      (by decide +kernel)⟩

/-- Every link has ended and every task has returned; a request of a link was answered by the start
of the session, the helper still has it and has not reported any session closed, and no close of it
was ever offered. -/
def Orphaned (s : AgentState) (session : UInt64) : Prop :=
  (∀ link ∈ s.links, link.ended = true ∧ link.draining = []) ∧
    (∀ task ∈ s.tasks, task.stage.answer?.isSome = true ∧ task.stage.reportsClosed = false) ∧
    (∃ task ∈ s.tasks, task.link.isSome = true ∧ task.stage.started? = some session) ∧
    session ∈ s.helper.sessions ∧ ∀ offer ∈ s.client.offers, offer.1 ≠ .close session

instance (s : AgentState) (session : UInt64) : Decidable (Orphaned s session) :=
  inferInstanceAs (Decidable (_ ∧ _ ∧ _ ∧ _ ∧ _))

/-- A link whose only request is still being answered when it ends: the start of session 1 is
recorded after the recorded sessions have been taken out. -/
def lateStart : List SessionAction :=
  [.connect, .receive 0 .observeSystem, .check 0, .offer 0, .dispatch someInput none, .endLink 0,
    .update 0]

/-- A link that polls its session once without success before it ends. -/
def failedPoll : List SessionAction :=
  [.connect, .receive 0 .observeSystem, .check 0, .offer 0, .dispatch someInput none, .update 0,
    .receive 0 (.poll 1), .check 1, .offer 1, .fail 1 "monitor IPC request timed out", .update 1,
    .endLink 0]

/-- A session whose start is recorded after the end of its link is orphaned, and so is a session
that the link forgot after a failed poll. -/
theorem orphaned_of_lateStart_of_failedPoll :
    (∃ s, run step new lateStart = some s ∧ Orphaned s 1) ∧
      ∃ s, run step new failedPoll = some s ∧ Orphaned s 1 :=
  ⟨⟨(run step new lateStart).get (by decide +kernel), (Option.some_get _).symm, by decide +kernel⟩,
    ⟨(run step new failedPoll).get (by decide +kernel), (Option.some_get _).symm,
      by decide +kernel⟩⟩

end AgentState

end Procinsh
