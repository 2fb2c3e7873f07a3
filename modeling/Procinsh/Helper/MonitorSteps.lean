import Mathlib.Order.Nat
import Procinsh.Helper.SystemMonitor

/-!
# What a step of the system monitor can do

One inversion lemma says what a step does to each session and to the channel.  From it come the
invariants that the results about the sessions share: how the current snapshot, the worker and the
ring fit together, and what is known while a lagged poll waits for its answer.
-/

namespace Procinsh

namespace MonitorState

variable {s t : MonitorState} {a : MonitorAction}

/-! ## What one step does -/

/-- What a poll that finds the event hands to the session. -/
def deliveries : SystemMonitorEvent → List Delivery
  | .snapshot number => [.snapshot number]
  | .activity => []

/-- What a step from `s` to `t` can do to the session at position `k`. -/
inductive SessionStep (s : MonitorState) (a : MonitorAction) (t : MonitorState) (k : ℕ)
    (x : SystemSession) : SystemSession → Prop
  | stay (hlagged : ∀ start dropped, t.dispatcher = .lagged k start dropped ↔
      s.dispatcher = .lagged k start dropped) : SessionStep s a t k x x
  /-- A poll finds an event. -/
  | read (event : SystemMonitorEvent) (handed : List Delivery) (hheld : x.held = true)
    (hevent : s.channel.log[x.cursor]? = some event)
    (hunread : s.channel.unread x.cursor = event :: s.channel.unread (x.cursor + 1))
    (hhanded : handed = x.handed ++ deliveries event)
    (hchannel : t.channel = s.channel) (hpublished : t.published = s.published)
    (hdispatcher : s.dispatcher = .idle ∧ t.dispatcher = .idle) :
    SessionStep s a t k x ⟨x.cursor + 1, handed, true⟩
  /-- A poll finds the receiver lagged. -/
  | lag (hheld : x.held = true) (hcursor : x.cursor < s.channel.oldest)
    (hunread : s.channel.unread s.channel.oldest = s.channel.unread x.cursor)
    (hchannel : t.channel = s.channel) (hpublished : t.published = s.published)
    (hdispatcher : s.dispatcher = .idle ∧
      t.dispatcher = .lagged k x.cursor (s.channel.oldest - x.cursor)) :
    SessionStep s a t k x ⟨s.channel.oldest, x.handed, true⟩
  /-- A lagged poll is answered. -/
  | gap (start dropped : ℕ) (haction : a = .readCurrent)
    (hlagged : s.dispatcher = .lagged k start dropped)
    (hchannel : t.channel = s.channel) (hpublished : t.published = s.published)
    (hdispatcher : t.dispatcher = .idle) :
    SessionStep s a t k x { x with handed := x.handed ++ [.gap start dropped s.current] }
  | drop (hchannel : t.channel = s.channel) (hpublished : t.published = s.published)
    (hdispatcher : s.dispatcher = .idle ∧ t.dispatcher = .idle) :
    SessionStep s a t k x ⟨x.cursor, x.handed, false⟩

/-- A new session starts at the cursor of its receiver, with the current snapshot. -/
def NewSession (s : MonitorState) (a : MonitorAction) (t : MonitorState) (x : SystemSession) : Prop :=
  a = .readInitial ∧ s.dispatcher = .received x.cursor ∧ x.handed = [.initial s.current] ∧ x.held = true ∧
    t.channel = s.channel ∧ t.published = s.published ∧ t.dispatcher = .returning

/-- What a step from `s` to `t` can do to the channel. -/
inductive ChannelStep (s t : MonitorState) : Prop
  | stay (hchannel : t.channel = s.channel) (hpublished : t.published = s.published)
  | activity (hchannel : t.channel = s.channel.send .activity)
    (hpublished : t.published = s.published) (hsessions : t.sessions = s.sessions)
    (hdispatcher : t.dispatcher = s.dispatcher)
  | snapshot (hchannel : t.channel = s.channel.send (.snapshot (s.published + 1)))
    (hpublished : t.published = s.published + 1) (hsessions : t.sessions = s.sessions)
    (hdispatcher : t.dispatcher = s.dispatcher)
  /-- A snapshot is sent while nobody has a receiver. -/
  | unheard (hnone : s.hasReceiver = false) (hchannel : t.channel = s.channel)
    (hpublished : t.published = s.published + 1) (hsessions : t.sessions = s.sessions)
    (hdispatcher : t.dispatcher = s.dispatcher)

/-- What a step from `s` to `t` does to the sessions and to the channel. -/
structure MonitorStep (s : MonitorState) (a : MonitorAction) (t : MonitorState) : Prop where
  sessions : Evolves (SessionStep s a t) (NewSession s a t) s.sessions t.sessions
  channel : ChannelStep s t
  /-- Only a session that is there has a lagged poll. -/
  absent : ∀ k, s.sessions[k]? = none → ∀ start dropped,
    t.dispatcher = .lagged k start dropped → s.dispatcher = .lagged k start dropped

/-- Whether the dispatcher is to answer a lagged poll stays, also for one session. -/
private lemma lagged_stay {k : ℕ} (h : t.dispatcher = s.dispatcher) :
    ∀ start dropped, t.dispatcher = .lagged k start dropped ↔
      s.dispatcher = .lagged k start dropped := by
  intro start dropped
  rw [h]

/-- A dispatcher that answers no lagged poll, before and after. -/
private lemma not_lagged {k : ℕ} {d d' : DispatchStage} (hs : s.dispatcher = d)
    (ht : t.dispatcher = d') (hd : ∀ start dropped, d ≠ .lagged k start dropped)
    (hd' : ∀ start dropped, d' ≠ .lagged k start dropped) :
    ∀ start dropped, t.dispatcher = .lagged k start dropped ↔
      s.dispatcher = .lagged k start dropped := by
  intro start dropped
  rw [hs, ht]
  exact iff_of_false (hd' start dropped) (hd start dropped)

/-- A step that leaves the sessions and the channel alone. -/
private lemma monitorStep_of_eq (hsessions : t.sessions = s.sessions)
    (hchannel : t.channel = s.channel) (hpublished : t.published = s.published)
    (hlagged : ∀ k start dropped, t.dispatcher = .lagged k start dropped ↔
      s.dispatcher = .lagged k start dropped) :
    MonitorStep s a t := by
  refine ⟨?_, .stay hchannel hpublished, fun k _ start dropped => (hlagged k start dropped).mp⟩
  rw [hsessions]
  exact Evolves.refl fun k _ => .stay (hlagged k)

/-- What a poll does. -/
private lemma monitorStep_of_poll {k : ℕ} (hstep : s.step (.poll k) = some t) :
    MonitorStep s (.poll k) t := by
  simp only [step] at hstep
  split at hstep
  · next cursor handed hidle hk =>
    rcases s.channel.tryRecv_cases cursor with ⟨event, hrecv, hevent, hunread⟩ | ⟨hrecv, -⟩ |
      ⟨hrecv, hcursor, hunread⟩
    · rw [hrecv] at hstep
      cases event with
      | snapshot number =>
        obtain rfl := Option.some.inj hstep
        refine ⟨Evolves.set (fun _ _ _ => .stay (lagged_stay rfl)) hk ?_, .stay rfl rfl,
          fun _ _ _ _ => id⟩
        exact .read (.snapshot number) _ rfl hevent hunread rfl rfl rfl ⟨hidle, hidle⟩
      | activity =>
        obtain rfl := Option.some.inj hstep
        refine ⟨Evolves.set (fun _ _ _ => .stay (lagged_stay rfl)) hk ?_, .stay rfl rfl,
          fun _ _ _ _ => id⟩
        exact .read .activity _ rfl hevent hunread (List.append_nil _).symm rfl rfl ⟨hidle, hidle⟩
    · rw [hrecv] at hstep
      obtain rfl := Option.some.inj hstep
      exact monitorStep_of_eq rfl rfl rfl fun k => lagged_stay rfl
    · rw [hrecv] at hstep
      obtain rfl := Option.some.inj hstep
      refine ⟨Evolves.set (fun j _ hj => .stay ?_) hk ?_, .stay rfl rfl, ?_⟩
      · refine not_lagged hidle rfl (fun _ _ => nofun) fun start dropped heq => ?_
        exact hj (DispatchStage.lagged.inj heq).1.symm
      · exact .lag rfl hcursor hunread rfl rfl ⟨hidle, rfl⟩
      · intro j hj start dropped heq
        rw [← (DispatchStage.lagged.inj heq).1, hk] at hj
        cases hj
  · cases hstep

/-- What sending through the channel does. -/
private lemma send_cases (s : MonitorState) (event : SystemMonitorEvent) :
    s.hasReceiver = true ∧ s.send event = { s with channel := s.channel.send event } ∨
      s.hasReceiver = false ∧ s.send event = s := by
  unfold send
  cases hreceiver : s.hasReceiver with
  | true => exact Or.inl ⟨rfl, if_pos rfl⟩
  | false => exact Or.inr ⟨rfl, if_neg (by simp)⟩

/-- Every step does what `MonitorStep` says. -/
lemma monitor_step (hstep : s.step a = some t) : MonitorStep s a t := by
  cases a with
  | subscribe =>
    simp only [step] at hstep
    split_ifs at hstep with hidle
    · obtain rfl := Option.some.inj hstep
      exact monitorStep_of_eq rfl rfl rfl fun k => lagged_stay rfl
    · obtain rfl := Option.some.inj hstep
      exact monitorStep_of_eq rfl rfl rfl fun k =>
        not_lagged (not_not.mp hidle) rfl (fun _ _ => nofun) fun _ _ => nofun
  | takeReceiver | finishSubscribe =>
    simp only [step] at hstep
    split_ifs at hstep with hentered
    obtain rfl := Option.some.inj hstep
    exact monitorStep_of_eq rfl rfl rfl fun k =>
      not_lagged hentered rfl (fun _ _ => nofun) fun _ _ => nofun
  | workerCheck | workerStore | activityCheck | stop =>
    simp only [step] at hstep
    split_ifs at hstep
    obtain rfl := Option.some.inj hstep
    exact monitorStep_of_eq rfl rfl rfl fun k => lagged_stay rfl
  | readInitial =>
    simp only [step] at hstep
    split at hstep
    · next cursor hreceived =>
      obtain rfl := Option.some.inj hstep
      refine ⟨Evolves.append (fun k _ => .stay ?_) ⟨rfl, hreceived, rfl, rfl, rfl, rfl, rfl⟩,
        .stay rfl rfl, fun _ _ _ _ => nofun⟩
      exact not_lagged hreceived rfl (fun _ _ => nofun) fun _ _ => nofun
    · cases hstep
  | poll k => exact monitorStep_of_poll hstep
  | readCurrent =>
    simp only [step] at hstep
    split at hstep
    · next k start dropped hlagged =>
      obtain ⟨session, hk, rfl⟩ := Option.map_eq_some_iff.mp hstep
      refine ⟨Evolves.set (fun j _ hj => .stay ?_) hk (.gap start dropped rfl hlagged rfl rfl rfl),
        .stay rfl rfl, fun _ _ _ _ => nofun⟩
      refine not_lagged hlagged rfl (fun start dropped heq => ?_) fun _ _ => nofun
      exact hj (DispatchStage.lagged.inj heq).1.symm
    · cases hstep
  | drop k =>
    simp only [step] at hstep
    split at hstep
    · next cursor handed hidle hk =>
      obtain rfl := Option.some.inj hstep
      exact ⟨Evolves.set (fun _ _ _ => .stay (lagged_stay rfl)) hk (.drop rfl rfl ⟨hidle, hidle⟩),
        .stay rfl rfl, fun _ _ _ _ => id⟩
    · cases hstep
  | workerSend =>
    simp only [step] at hstep
    split_ifs at hstep
    obtain rfl := Option.some.inj hstep
    rcases s.send_cases (.snapshot (s.published + 1)) with ⟨-, hsend⟩ | ⟨hnone, hsend⟩ <;> rw [hsend]
    · exact ⟨Evolves.refl fun _ _ => .stay (lagged_stay rfl), .snapshot rfl rfl rfl rfl,
        fun _ _ _ _ => id⟩
    · exact ⟨Evolves.refl fun _ _ => .stay (lagged_stay rfl), .unheard hnone rfl rfl rfl rfl,
        fun _ _ _ _ => id⟩
  | activitySend =>
    simp only [step] at hstep
    split_ifs at hstep
    obtain rfl := Option.some.inj hstep
    rcases s.send_cases .activity with ⟨-, hsend⟩ | ⟨-, hsend⟩ <;> rw [hsend]
    · exact ⟨Evolves.refl fun _ _ => .stay (lagged_stay rfl), .activity rfl rfl rfl rfl,
        fun _ _ _ _ => id⟩
    · exact monitorStep_of_eq rfl rfl rfl fun k => lagged_stay rfl

/-! ## Publication -/

lemma numbers_append (events events' : List SystemMonitorEvent) :
    numbers (events ++ events') = numbers events ++ numbers events' :=
  List.filterMap_append

/-- The number of an event is the number of what a poll that finds it hands out. -/
lemma numbers_cons (event : SystemMonitorEvent) (events : List SystemMonitorEvent) :
    numbers (event :: events) = (deliveries event).map Delivery.number ++ numbers events := by
  cases event with
  | snapshot number => rfl
  | activity => rfl

/-- One event has at most one number. -/
lemma pairwise_numbers_singleton (event : SystemMonitorEvent) :
    (numbers [event]).Pairwise (· ≤ ·) := by
  cases event with
  | snapshot number => exact List.pairwise_singleton _ _
  | activity => exact List.Pairwise.nil

@[simp] lemma numbers_append_snapshot (events : List SystemMonitorEvent) (number : ℕ) :
    numbers (events ++ [.snapshot number]) = numbers events ++ [number] := by
  simp [numbers, SystemMonitorEvent.number?]

@[simp] lemma numbers_append_activity (events : List SystemMonitorEvent) :
    numbers (events ++ [.activity]) = numbers events := by
  simp [numbers, SystemMonitorEvent.number?]

lemma numbers_sublist {events events' : List SystemMonitorEvent} (h : events.Sublist events') :
    (numbers events).Sublist (numbers events') :=
  h.filterMap _

/-- How the snapshot worker, the current snapshot and the ring fit together. -/
structure PublishInv (s : MonitorState) : Prop where
  /-- The current snapshot is the last one sent, but for the moment before it is stored. -/
  current_eq : s.current + (if s.worker = .sent then 1 else 0) = s.published
  increasing : (numbers s.channel.log).Pairwise (· < ·)
  le_published : ∀ n ∈ numbers s.channel.log, n ≤ s.published
  cursor_le : ∀ cursor, s.dispatcher = .received cursor → cursor ≤ s.channel.log.length
  /-- A worker that is about to send has not sent since the subscription took the lock. -/
  not_sent : ∀ cursor, s.dispatcher = .received cursor → s.worker = .collecting →
    numbers (s.channel.log.drop cursor) = []
  /-- While a subscription has its receiver, only the last snapshot can have been sent to it. -/
  only_last : ∀ cursor, s.dispatcher = .received cursor →
    ∀ n ∈ numbers (s.channel.log.drop cursor), n = s.published

lemma publishInv_new : PublishInv new := by
  refine ⟨rfl, List.Pairwise.nil, fun n h => ?_, fun c h => ?_, fun c h => ?_, fun c h => ?_⟩
  · simp [new, numbers] at h
  · cases h
  · cases h
  · cases h

/-- The invariant is kept when the worker and the channel stay and no receiver is taken. -/
private lemma PublishInv.keep (h : PublishInv s) (hcurrent : t.current = s.current)
    (hworker : t.worker = s.worker) (hchannel : t.channel = s.channel)
    (hpublished : t.published = s.published)
    (hdispatcher : ∀ cursor, t.dispatcher = .received cursor → s.dispatcher = .received cursor) :
    PublishInv t := by
  refine ⟨?_, ?_, ?_, ?_, ?_, ?_⟩
  · rw [hcurrent, hworker, hpublished]
    exact h.current_eq
  · rw [hchannel]
    exact h.increasing
  · rw [hchannel, hpublished]
    exact h.le_published
  · intro cursor hcursor
    rw [hchannel]
    exact h.cursor_le cursor (hdispatcher cursor hcursor)
  · intro cursor hcursor
    rw [hchannel, hworker]
    exact h.not_sent cursor (hdispatcher cursor hcursor)
  · intro cursor hcursor
    rw [hchannel, hpublished]
    exact h.only_last cursor (hdispatcher cursor hcursor)

/-- The invariant is kept by the worker's send. -/
private lemma PublishInv.workerSend (h : PublishInv s) (hstep : s.step .workerSend = some t) :
    PublishInv t := by
  simp only [MonitorState.step] at hstep
  split_ifs at hstep with hcollecting
  obtain rfl := Option.some.inj hstep
  have hcurrent : s.current = s.published := by
    have heq := h.current_eq
    rw [hcollecting] at heq
    simpa using heq
  rcases s.send_cases (.snapshot (s.published + 1)) with ⟨-, hsend⟩ | ⟨hnone, hsend⟩ <;> rw [hsend]
  · refine ⟨by simpa using hcurrent, ?_, ?_, ?_, ?_, ?_⟩
    · simp only [Broadcast.log_send, numbers_append_snapshot, List.pairwise_append]
      refine ⟨h.increasing, List.pairwise_singleton _ _, fun m hm n hn => ?_⟩
      obtain rfl := List.mem_singleton.mp hn
      exact Nat.lt_succ_of_le (h.le_published m hm)
    · intro n hn
      simp only [Broadcast.log_send, numbers_append_snapshot, List.mem_append,
        List.mem_singleton] at hn
      rcases hn with hn | rfl
      · exact (h.le_published n hn).trans (Nat.le_succ _)
      · exact le_rfl
    · intro cursor hcursor
      have hle := h.cursor_le cursor hcursor
      simp only [Broadcast.log_send, List.length_append]
      omega
    · intro cursor _ hworker
      cases hworker
    · intro cursor hcursor n hn
      have hle := h.cursor_le cursor hcursor
      have hnone := h.not_sent cursor hcursor hcollecting
      simp only [Broadcast.log_send, List.drop_append_of_le_length hle, numbers_append_snapshot,
        hnone, List.nil_append, List.mem_singleton] at hn
      exact hn
  · refine ⟨by simpa using hcurrent, h.increasing, ?_, h.cursor_le, ?_, ?_⟩
    · intro n hn
      exact (h.le_published n hn).trans (Nat.le_succ _)
    · intro cursor _ hworker
      cases hworker
    · intro cursor hcursor n hn
      -- the subscription's own receiver would have heard the snapshot
      rw [hasReceiver, show s.dispatcher = _ from hcursor] at hnone
      simp at hnone

/-- The invariant is kept by every step. -/
lemma PublishInv.step (h : PublishInv s) (hstep : s.step a = some t) : PublishInv t := by
  cases a with
  | subscribe =>
    simp only [MonitorState.step] at hstep
    split_ifs at hstep
    · obtain rfl := Option.some.inj hstep
      exact h
    · obtain rfl := Option.some.inj hstep
      exact h.keep rfl rfl rfl rfl fun cursor hcursor => by cases hcursor
  | takeReceiver =>
    simp only [MonitorState.step] at hstep
    split_ifs at hstep
    obtain rfl := Option.some.inj hstep
    refine ⟨h.current_eq, h.increasing, h.le_published, ?_, ?_, ?_⟩
    · intro cursor hcursor
      exact (DispatchStage.received.inj hcursor).ge
    · intro cursor hcursor _
      rw [← DispatchStage.received.inj hcursor, List.drop_length]
      rfl
    · intro cursor hcursor n hn
      rw [← DispatchStage.received.inj hcursor, List.drop_length] at hn
      cases hn
  | readInitial =>
    simp only [MonitorState.step] at hstep
    split at hstep
    · obtain rfl := Option.some.inj hstep
      exact h.keep rfl rfl rfl rfl fun cursor hcursor => by cases hcursor
    · cases hstep
  | finishSubscribe =>
    simp only [MonitorState.step] at hstep
    split_ifs at hstep
    obtain rfl := Option.some.inj hstep
    exact h.keep rfl rfl rfl rfl fun cursor hcursor => by cases hcursor
  | poll k =>
    simp only [MonitorState.step] at hstep
    split at hstep
    · next cursor handed hidle hk =>
      split at hstep <;> obtain rfl := Option.some.inj hstep
      · exact h.keep rfl rfl rfl rfl fun _ hcursor => hcursor
      · exact h.keep rfl rfl rfl rfl fun _ hcursor => hcursor
      · exact h
      · exact h.keep rfl rfl rfl rfl fun _ hcursor => by cases hcursor
    · cases hstep
  | readCurrent =>
    simp only [MonitorState.step] at hstep
    split at hstep
    · obtain ⟨session, -, rfl⟩ := Option.map_eq_some_iff.mp hstep
      exact h.keep rfl rfl rfl rfl fun _ hcursor => by cases hcursor
    · cases hstep
  | drop k =>
    simp only [MonitorState.step] at hstep
    split at hstep
    · obtain rfl := Option.some.inj hstep
      exact h.keep rfl rfl rfl rfl fun _ hcursor => hcursor
    · cases hstep
  | workerCheck =>
    simp only [MonitorState.step] at hstep
    split_ifs at hstep with hcheck
    obtain rfl := Option.some.inj hstep
    obtain ⟨-, hlocked, hidle, -⟩ := hcheck
    have hunlocked : ∀ cursor, s.dispatcher ≠ .received cursor := by
      intro cursor hcursor
      simp [locked, hcursor] at hlocked
    refine ⟨?_, h.increasing, h.le_published, h.cursor_le, ?_, h.only_last⟩
    · have heq := h.current_eq
      rw [hidle] at heq
      exact heq
    · intro cursor hcursor
      exact absurd hcursor (hunlocked cursor)
  | workerSend => exact h.workerSend hstep
  | workerStore =>
    simp only [MonitorState.step] at hstep
    split_ifs at hstep
    obtain rfl := Option.some.inj hstep
    refine ⟨rfl, h.increasing, h.le_published, h.cursor_le, ?_, h.only_last⟩
    intro cursor _ hworker
    cases hworker
  | activityCheck | stop =>
    simp only [MonitorState.step] at hstep
    split_ifs at hstep
    obtain rfl := Option.some.inj hstep
    exact h.keep rfl rfl rfl rfl fun _ hcursor => hcursor
  | activitySend =>
    simp only [MonitorState.step] at hstep
    split_ifs at hstep
    obtain rfl := Option.some.inj hstep
    rcases s.send_cases .activity with ⟨-, hsend⟩ | ⟨-, hsend⟩ <;> rw [hsend]
    · refine ⟨h.current_eq, ?_, ?_, ?_, ?_, ?_⟩
      · simpa using h.increasing
      · simpa using h.le_published
      · intro cursor hcursor
        have hle := h.cursor_le cursor hcursor
        simp only [Broadcast.log_send, List.length_append]
        omega
      · intro cursor hcursor hworker
        have hle := h.cursor_le cursor hcursor
        simpa [List.drop_append_of_le_length hle] using h.not_sent cursor hcursor hworker
      · intro cursor hcursor
        have hle := h.cursor_le cursor hcursor
        simpa [List.drop_append_of_le_length hle] using h.only_last cursor hcursor
    · exact h.keep rfl rfl rfl rfl fun _ hcursor => hcursor

/-- The current snapshot has been published. -/
lemma PublishInv.current_le (h : PublishInv s) : s.current ≤ s.published := by
  have heq := h.current_eq
  omega

/-- What the ring retains has been published. -/
lemma PublishInv.unread_le (h : PublishInv s) (cursor : ℕ) :
    ∀ n ∈ numbers (s.channel.unread cursor), n ≤ s.published := fun n hn =>
  h.le_published n ((numbers_sublist (List.drop_sublist _ _)).subset hn)

/-- While a lagged poll waits for its answer its session is held, and its receiver stands at the
end of the gap. -/
def LaggedInv (s : MonitorState) : Prop :=
  ∀ k start dropped, s.dispatcher = .lagged k start dropped →
    ∃ session, s.sessions[k]? = some session ∧ session.held = true ∧
      session.cursor = start + dropped

lemma laggedInv_new : LaggedInv new := by
  intro k start dropped h
  cases h

/-- The invariant is kept by every step. -/
lemma LaggedInv.step (h : LaggedInv s) (hstep : s.step a = some t) : LaggedInv t := by
  intro k start dropped hlagged
  cases hk : s.sessions[k]? with
  | none =>
    obtain ⟨session, hk', -⟩ := h k start dropped ((monitor_step hstep).absent k hk _ _ hlagged)
    rw [hk] at hk'
    cases hk'
  | some session =>
    obtain ⟨session', hk', hmove⟩ := (monitor_step hstep).sessions.old k session hk
    refine ⟨session', hk', ?_⟩
    cases hmove with
    | stay hsame =>
      obtain ⟨session'', hk'', hinv⟩ := h k start dropped ((hsame start dropped).mp hlagged)
      obtain rfl : session'' = session := Option.some.inj (hk''.symm.trans hk)
      exact hinv
    | read event handed hheld hevent hunread hhanded hchannel hpublished hdispatcher =>
      rw [hdispatcher.2] at hlagged
      cases hlagged
    | lag hheld hcursor hunread hchannel hpublished hdispatcher =>
      rw [hdispatcher.2] at hlagged
      cases hlagged
      exact ⟨rfl, (Nat.add_sub_of_le (Nat.le_of_lt hcursor)).symm⟩
    | gap start' dropped' haction hlagged' hchannel hpublished hdispatcher =>
      rw [hdispatcher] at hlagged
      cases hlagged
    | drop hchannel hpublished hdispatcher =>
      rw [hdispatcher.2] at hlagged
      cases hlagged

end MonitorState

end Procinsh
