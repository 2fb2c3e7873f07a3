import Procinsh.Helper.MonitorSteps

/-!
# No snapshot is skipped

A session is accounted for a snapshot when it has been handed the snapshot, or a gap covers the
position of the snapshot, or the snapshot is still ahead of its receiver.  A subscription takes its
receiver before its initial snapshot, while the worker sends a snapshot before it stores it.  So a
snapshot sent before the receiver was taken and stored after the initial snapshot was read is
neither, and nothing later makes up for it.  That order of the four steps is the only one that skips
a snapshot.
-/

namespace Procinsh

namespace MonitorState

variable {s t : MonitorState} {a : MonitorAction}

/-- What becomes of the event at position `i`, the snapshot `n`, for the session at position `k`. -/
inductive Reaches (s : MonitorState) (k : ℕ) (session : SystemSession) (n i : ℕ) : Prop
  | ahead (h : session.cursor ≤ i)
  | handed (h : .snapshot n ∈ session.handed)
  | missed (start dropped number : ℕ) (h : .gap start dropped number ∈ session.handed)
    (hstart : start ≤ i) (hend : i < start + dropped)
  /-- The gap that covers the position is being answered. -/
  | answering (start dropped : ℕ) (h : s.dispatcher = .lagged k start dropped)
    (hstart : start ≤ i) (hend : i < start + dropped)

/-- The snapshot `n` is handed to the session at position `k`, or reported to it as missed, or
still to come. -/
def Accounted (s : MonitorState) (k : ℕ) (session : SystemSession) (n : ℕ) : Prop :=
  ∃ i, s.channel.log[i]? = some (.snapshot n) ∧ Reaches s k session n i

/-- The snapshot `n` is handed to the session, or a gap handed to it covers its position. -/
def HandedOrMissed (s : MonitorState) (session : SystemSession) (n : ℕ) : Prop :=
  .snapshot n ∈ session.handed ∨
    ∃ i start dropped number, s.channel.log[i]? = some (.snapshot n) ∧
      .gap start dropped number ∈ session.handed ∧ start ≤ i ∧ i < start + dropped

/-- The session has been handed all there is. -/
def CaughtUp (s : MonitorState) (session : SystemSession) : Prop :=
  s.dispatcher = .idle ∧ session.cursor = s.channel.log.length

/-- Every held session is accounted for every snapshot published after its initial one. -/
def NothingSkipped (s : MonitorState) : Prop :=
  ∀ k session, s.sessions[k]? = some session → session.held = true →
    ∀ m, .initial m ∈ session.handed → ∀ n, m < n → n ≤ s.published → Accounted s k session n

/-- The receiver that a subscription has taken. -/
def receivedCursor? (s : MonitorState) : Option ℕ :=
  match s.dispatcher with
  | .received cursor => some cursor
  | _ => none

/-- The initial snapshot that a subscription would read now fits its receiver: the last snapshot
sent is stored, or has been sent to the receiver. -/
def InitialFits (s : MonitorState) : Prop :=
  ∀ cursor ∈ s.receivedCursor?, s.current < s.published →
    s.published ∈ numbers (s.channel.log.drop cursor)

instance (s : MonitorState) : Decidable s.InitialFits :=
  inferInstanceAs (Decidable (∀ cursor ∈ s.receivedCursor?, _))

/-- Subscriptions read only initial snapshots that fit. -/
def InitialsFit (s : MonitorState) (a : MonitorAction) : Prop := a = .readInitial → s.InitialFits

instance (s : MonitorState) (a : MonitorAction) : Decidable (s.InitialsFit a) :=
  inferInstanceAs (Decidable (_ → _))

/-! ## One step -/

/-- A step adds at most the next snapshot or an activity to the log. -/
private lemma log_step (hstep : ChannelStep s t) :
    ∃ events, t.channel.log = s.channel.log ++ events ∧
      ∀ n ≤ s.published, .snapshot n ∉ events := by
  cases hstep with
  | stay hchannel | unheard _ hchannel =>
    exact ⟨[], by rw [hchannel, List.append_nil], fun _ _ h => by cases h⟩
  | activity hchannel =>
    exact ⟨[.activity], by rw [hchannel]; rfl, fun _ _ h => by cases List.mem_singleton.mp h⟩
  | snapshot hchannel =>
    refine ⟨[.snapshot (s.published + 1)], by rw [hchannel]; rfl, fun n hn h => ?_⟩
    have hnumber := SystemMonitorEvent.snapshot.inj (List.mem_singleton.mp h)
    omega

/-- A session that stays where it is and is handed nothing is reached as before. -/
private lemma Reaches.congr {k n i : ℕ} {x y : SystemSession} (h : Reaches s k x n i)
    (hcursor : y.cursor = x.cursor) (hhanded : y.handed = x.handed)
    (hlagged : ∀ start dropped, s.dispatcher = .lagged k start dropped →
      t.dispatcher = .lagged k start dropped) : Reaches t k y n i := by
  rcases h with h | h | ⟨start, dropped, number, h, hstart, hend⟩ |
    ⟨start, dropped, h, hstart, hend⟩
  · exact .ahead (hcursor ▸ h)
  · exact .handed (hhanded ▸ h)
  · exact .missed start dropped number (hhanded ▸ h) hstart hend
  · exact .answering start dropped (hlagged _ _ h) hstart hend

/-- What a session that is handed nothing is accounted for does not depend on later events. -/
private lemma accounted_iff_of_append {k n : ℕ} {x y : SystemSession}
    {events : List SystemMonitorEvent} (hcursor : y.cursor = x.cursor)
    (hhanded : y.handed = x.handed) (hlog : t.channel.log = s.channel.log ++ events)
    (hnew : .snapshot n ∉ events)
    (hlagged : ∀ start dropped, t.dispatcher = .lagged k start dropped ↔
      s.dispatcher = .lagged k start dropped) :
    Accounted t k y n ↔ Accounted s k x n := by
  constructor
  · rintro ⟨i, hi, hreaches⟩
    have hlt : i < s.channel.log.length := by
      by_contra hge
      rw [hlog, List.getElem?_append_right (Nat.le_of_not_lt hge)] at hi
      exact hnew (List.mem_of_getElem? hi)
    rw [hlog, List.getElem?_append_left hlt] at hi
    exact ⟨i, hi, hreaches.congr hcursor.symm hhanded.symm fun _ _ => (hlagged _ _).mp⟩
  · rintro ⟨i, hi, hreaches⟩
    have hlt : i < s.channel.log.length := (List.getElem?_eq_some_iff.mp hi).1
    rw [← List.getElem?_append_left hlt, ← hlog] at hi
    exact ⟨i, hi, hreaches.congr hcursor hhanded fun _ _ => (hlagged _ _).mpr⟩

/-- A poll that finds an event takes it from ahead of the session to what it is handed. -/
private lemma accounted_iff_of_read {k n : ℕ} {x : SystemSession} {event : SystemMonitorEvent}
    {handed : List Delivery} (hevent : s.channel.log[x.cursor]? = some event)
    (hhanded : handed = x.handed ++ deliveries event) (hchannel : t.channel = s.channel)
    (hdispatcher : s.dispatcher = .idle ∧ t.dispatcher = .idle) :
    Accounted t k ⟨x.cursor + 1, handed, true⟩ n ↔ Accounted s k x n := by
  subst hhanded
  unfold Accounted
  rw [hchannel]
  constructor
  · rintro ⟨i, hi, h | h | ⟨start, dropped, number, h, hstart, hend⟩ | ⟨start, dropped, h, -, -⟩⟩
    · exact ⟨i, hi, .ahead (Nat.le_of_succ_le h)⟩
    · rcases List.mem_append.mp h with h | h
      · exact ⟨i, hi, .handed h⟩
      · cases event with
        | snapshot number =>
          obtain rfl := Delivery.snapshot.inj (List.mem_singleton.mp h)
          exact ⟨x.cursor, hevent, .ahead (Nat.le_refl _)⟩
        | activity => cases h
    · rcases List.mem_append.mp h with h | h
      · exact ⟨i, hi, .missed start dropped number h hstart hend⟩
      · cases event with
        | snapshot number => cases List.mem_singleton.mp h
        | activity => cases h
    · rw [hdispatcher.2] at h
      cases h
  · rintro ⟨i, hi, h | h | ⟨start, dropped, number, h, hstart, hend⟩ | ⟨start, dropped, h, -, -⟩⟩
    · rcases Nat.eq_or_lt_of_le h with rfl | hlt
      · obtain rfl := Option.some.inj (hevent.symm.trans hi)
        exact ⟨_, hi, .handed (List.mem_append_right _ (List.mem_singleton.mpr rfl))⟩
      · exact ⟨i, hi, .ahead hlt⟩
    · exact ⟨i, hi, .handed (List.mem_append_left _ h)⟩
    · exact ⟨i, hi, .missed start dropped number (List.mem_append_left _ h) hstart hend⟩
    · rw [hdispatcher.1] at h
      cases h

/-- A poll that finds the receiver lagged moves it to the end of the gap that it will answer. -/
private lemma accounted_iff_of_lag {k n : ℕ} {x : SystemSession}
    (hcursor : x.cursor < s.channel.oldest) (hchannel : t.channel = s.channel)
    (hdispatcher : s.dispatcher = .idle ∧
      t.dispatcher = .lagged k x.cursor (s.channel.oldest - x.cursor)) :
    Accounted t k ⟨s.channel.oldest, x.handed, true⟩ n ↔ Accounted s k x n := by
  unfold Accounted
  rw [hchannel]
  constructor
  · rintro ⟨i, hi, h | h | ⟨start, dropped, number, h, hstart, hend⟩ | ⟨start, dropped, h, hstart, -⟩⟩
    · exact ⟨i, hi, .ahead ((Nat.le_of_lt hcursor).trans h)⟩
    · exact ⟨i, hi, .handed h⟩
    · exact ⟨i, hi, .missed start dropped number h hstart hend⟩
    · obtain ⟨-, rfl, -⟩ := DispatchStage.lagged.inj (hdispatcher.2.symm.trans h)
      exact ⟨i, hi, .ahead hstart⟩
  · rintro ⟨i, hi, h | h | ⟨start, dropped, number, h, hstart, hend⟩ | ⟨start, dropped, h, -, -⟩⟩
    · by_cases hold : s.channel.oldest ≤ i
      · exact ⟨i, hi, .ahead hold⟩
      · exact ⟨i, hi, .answering _ _ hdispatcher.2 h (by omega)⟩
    · exact ⟨i, hi, .handed h⟩
    · exact ⟨i, hi, .missed start dropped number h hstart hend⟩
    · rw [hdispatcher.1] at h
      cases h

/-- The answer to a lagged poll reports the gap. -/
private lemma accounted_iff_of_gap {k n start dropped number : ℕ} {x : SystemSession}
    (hlagged : s.dispatcher = .lagged k start dropped) (hchannel : t.channel = s.channel)
    (hdispatcher : t.dispatcher = .idle) :
    Accounted t k { x with handed := x.handed ++ [.gap start dropped number] } n ↔
      Accounted s k x n := by
  unfold Accounted
  rw [hchannel]
  constructor
  · rintro ⟨i, hi, h | h | ⟨start', dropped', number', h, hstart, hend⟩ | ⟨_, _, h, -, -⟩⟩
    · exact ⟨i, hi, .ahead h⟩
    · rcases List.mem_append.mp h with h | h
      · exact ⟨i, hi, .handed h⟩
      · cases List.mem_singleton.mp h
    · rcases List.mem_append.mp h with h | h
      · exact ⟨i, hi, .missed start' dropped' number' h hstart hend⟩
      · obtain ⟨rfl, rfl, -⟩ := Delivery.gap.inj (List.mem_singleton.mp h)
        exact ⟨i, hi, .answering _ _ hlagged hstart hend⟩
    · rw [hdispatcher] at h
      cases h
  · rintro ⟨i, hi, h | h | ⟨start', dropped', number', h, hstart, hend⟩ | ⟨_, _, h, hstart, hend⟩⟩
    · exact ⟨i, hi, .ahead h⟩
    · exact ⟨i, hi, .handed (List.mem_append_left _ h)⟩
    · exact ⟨i, hi, .missed start' dropped' number' (List.mem_append_left _ h) hstart hend⟩
    · obtain ⟨-, rfl, rfl⟩ := DispatchStage.lagged.inj (hlagged.symm.trans h)
      exact ⟨i, hi, .missed start dropped number
        (List.mem_append_right _ (List.mem_singleton.mpr rfl)) hstart hend⟩

/-- No step changes what a session is accounted for among the snapshots published before it. -/
private lemma accounted_iff {k n : ℕ} {x y : SystemSession} (hchannel : ChannelStep s t)
    (hmove : SessionStep s a t k x y) (hn : n ≤ s.published) :
    Accounted t k y n ↔ Accounted s k x n := by
  cases hmove with
  | stay hlagged =>
    obtain ⟨events, hlog, hnew⟩ := log_step hchannel
    exact accounted_iff_of_append rfl rfl hlog (hnew n hn) hlagged
  | read event handed hheld hevent hunread hhanded hsame hpublished hdispatcher =>
    exact accounted_iff_of_read hevent hhanded hsame hdispatcher
  | lag hheld hcursor hunread hsame hpublished hdispatcher =>
    exact accounted_iff_of_lag hcursor hsame hdispatcher
  | gap start dropped haction hlagged hsame hpublished hdispatcher =>
    exact accounted_iff_of_gap hlagged hsame hdispatcher
  | drop hsame hpublished hdispatcher =>
    refine accounted_iff_of_append rfl rfl ?_ List.not_mem_nil fun start dropped => ?_
    · rw [hsame, List.append_nil]
    · rw [hdispatcher.1, hdispatcher.2]

/-- A step keeps the initial snapshot of a session, and does not take a dropped session up again. -/
private lemma SessionStep.keeps {k : ℕ} {x y : SystemSession} (hmove : SessionStep s a t k x y) :
    (y.held = true → x.held = true) ∧
      ∀ m, .initial m ∈ y.handed → .initial m ∈ x.handed := by
  cases hmove with
  | stay => exact ⟨id, fun m h => h⟩
  | drop => exact ⟨nofun, fun m h => h⟩
  | lag hheld => exact ⟨fun _ => hheld, fun m h => h⟩
  | read event handed hheld hevent hunread hhanded =>
    refine ⟨fun _ => hheld, fun m h => ?_⟩
    subst hhanded
    rcases List.mem_append.mp h with h | h
    · exact h
    · cases event with
      | snapshot number => cases List.mem_singleton.mp h
      | activity => cases h
  | gap start dropped =>
    refine ⟨id, fun m h => ?_⟩
    rcases List.mem_append.mp h with h | h
    · exact h
    · cases List.mem_singleton.mp h

/-! ## Runs -/

/-- Receivers stand inside the log. -/
def CursorInv (s : MonitorState) : Prop :=
  ∀ session ∈ s.sessions, session.cursor ≤ s.channel.log.length

/-- Receivers stay inside the log. -/
private lemma CursorInv.step (h : CursorInv s) (hinv : PublishInv s) (hstep : s.step a = some t) :
    CursorInv t := by
  intro session' hmem'
  obtain ⟨k, hk'⟩ := List.mem_iff_getElem?.mp hmem'
  rcases (monitor_step hstep).sessions.inv hk' with ⟨session, hk, hmove⟩ | ⟨-, hnew⟩
  · have hle := h session (List.mem_of_getElem? hk)
    cases hmove with
    | stay =>
      obtain ⟨events, hlog, -⟩ := log_step (monitor_step hstep).channel
      rw [hlog, List.length_append]
      exact hle.trans (Nat.le_add_right _ _)
    | read event handed hheld hevent hunread hhanded hsame =>
      rw [hsame]
      exact (List.getElem?_eq_some_iff.mp hevent).1
    | lag hheld hcursor hunread hsame =>
      rw [hsame]
      exact Nat.sub_le _ _
    | gap start dropped haction hlagged hsame | drop hsame =>
      rw [hsame]
      exact hle
  · obtain ⟨-, hreceived, -, -, hsame, -⟩ := hnew
    rw [hsame]
    exact hinv.cursor_le _ hreceived

/-- A receiver that is there keeps what is sent. -/
private lemma hasReceiver_of_held {session : SystemSession} (hmem : session ∈ s.sessions)
    (hheld : session.held = true) : s.hasReceiver = true := by
  unfold hasReceiver
  rw [List.any_eq_true.mpr ⟨session, hmem, hheld⟩, Bool.or_true]

/-- The next snapshot is logged ahead of every held session. -/
private lemma accounted_of_published {k n : ℕ} {session : SystemSession} (hcursor : CursorInv s)
    (hchannel : ChannelStep s t) (hk : t.sessions[k]? = some session) (hheld : session.held = true)
    (hlt : s.published < n) (hle : n ≤ t.published) : Accounted t k session n := by
  have hmem : session ∈ t.sessions := List.mem_of_getElem? hk
  cases hchannel with
  | stay _ hpublished | activity _ hpublished => omega
  | snapshot hsent hpublished hsessions =>
    obtain rfl : n = s.published + 1 := by omega
    rw [hsessions] at hmem
    refine ⟨s.channel.log.length, ?_, .ahead (hcursor session hmem)⟩
    rw [hsent, Broadcast.log_send, List.getElem?_concat_length]
  | unheard hnone hsame hpublished hsessions =>
    rw [hsessions] at hmem
    rw [hasReceiver_of_held hmem hheld] at hnone
    cases hnone

/-- A session that starts from an initial snapshot that fits is accounted for the rest. -/
private lemma accounted_of_new {k n : ℕ} {session : SystemSession} (hinv : PublishInv s)
    (hfit : s.InitialFits) (hnew : NewSession s a t session) {m : ℕ}
    (hinitial : .initial m ∈ session.handed) (hlt : m < n) (hle : n ≤ t.published) :
    Accounted t k session n := by
  obtain ⟨-, hreceived, hhanded, -, hchannel, hpublished, -⟩ := hnew
  rw [hhanded] at hinitial
  obtain rfl := Delivery.initial.inj (List.mem_singleton.mp hinitial)
  -- at most the last snapshot is newer than the initial one
  have hn : n = s.published := by
    have heq := hinv.current_eq
    split_ifs at heq <;> omega
  subst hn
  have hmem : s.published ∈ numbers (s.channel.log.drop session.cursor) :=
    hfit session.cursor (by rw [receivedCursor?, hreceived]; rfl) hlt
  obtain ⟨event, hevent, hnumber⟩ := List.mem_filterMap.mp hmem
  obtain rfl : event = .snapshot s.published := by
    cases event with
    | snapshot number => rw [Option.some.inj hnumber]
    | activity => cases hnumber
  obtain ⟨i, hi⟩ := List.mem_iff_getElem?.mp hevent
  rw [List.getElem?_drop] at hi
  exact ⟨session.cursor + i, hchannel ▸ hi, .ahead (Nat.le_add_right _ _)⟩

/-- Nothing is skipped by a step that reads only an initial snapshot that fits. -/
private lemma nothingSkipped_step (hinv : PublishInv s) (hcursor : CursorInv s)
    (hfit : s.InitialsFit a) (hstep : s.step a = some t) (h : NothingSkipped s) :
    NothingSkipped t := by
  intro k session' hk' hheld' m hinitial n hlt hle
  have hmonitor := monitor_step hstep
  rcases hmonitor.sessions.inv hk' with ⟨session, hk, hmove⟩ | ⟨-, hnew⟩
  · have hheld := hmove.keeps.1 hheld'
    by_cases hold : n ≤ s.published
    · exact (accounted_iff hmonitor.channel hmove hold).mpr
        (h k session hk hheld m (hmove.keeps.2 m hinitial) n hlt hold)
    · exact accounted_of_published hcursor hmonitor.channel hk' hheld' (Nat.lt_of_not_le hold) hle
  · exact accounted_of_new hinv (hfit hnew.1) hnew hinitial hlt hle

/-- A snapshot that a session is not accounted for stays so. -/
private lemma skipped_step {k n : ℕ} {session' : SystemSession} (hstep : s.step a = some t)
    (hn : n ≤ s.published) (hk : k < s.sessions.length)
    (h : ∀ session, s.sessions[k]? = some session → ¬ Accounted s k session n)
    (hk' : t.sessions[k]? = some session') : ¬ Accounted t k session' n := by
  have hmonitor := monitor_step hstep
  rcases hmonitor.sessions.inv hk' with ⟨session, hsession, hmove⟩ | ⟨hnone, -⟩
  · rw [accounted_iff hmonitor.channel hmove hn]
    exact h session hsession
  · have hge := List.getElem?_eq_none_iff.mp hnone
    omega

/-- What a session that has been handed all there is is accounted for was handed to it, or reported
to it as missed. -/
private lemma Accounted.caught_up {k n : ℕ} {session : SystemSession}
    (h : Accounted s k session n) (hcaught : CaughtUp s session) : HandedOrMissed s session n := by
  obtain ⟨hidle, hcursor⟩ := hcaught
  obtain ⟨i, hi, h | h | ⟨start, dropped, number, h, hstart, hend⟩ | ⟨start, dropped, h, -, -⟩⟩ := h
  · have hlt := (List.getElem?_eq_some_iff.mp hi).1
    omega
  · exact Or.inl h
  · exact Or.inr ⟨i, start, dropped, number, hi, h, hstart, hend⟩
  · rw [hidle] at h
    cases h

/-- The number of published snapshots only grows, and so does the list of sessions. -/
private lemma grows (hstep : s.step a = some t) :
    s.published ≤ t.published ∧ s.sessions.length ≤ t.sessions.length := by
  have hmonitor := monitor_step hstep
  refine ⟨?_, ?_⟩
  · cases hmonitor.channel with
    | stay _ hpublished | activity _ hpublished => exact hpublished.ge
    | snapshot _ hpublished | unheard _ _ hpublished => omega
  · rcases hmonitor.sessions.new with hlen | ⟨session, hnew, -⟩
    · exact hlen.ge
    · rw [hnew, List.length_append]
      exact Nat.le_add_right _ _

/-- A session that starts from an initial snapshot that does not fit is never accounted for the
last snapshot published before. -/
private lemma skipped_forever {bs : List MonitorAction} {u : MonitorState} (hfit : ¬ s.InitialFits)
    (hstep : s.step .readInitial = some t) (hrun : run step t bs = some u) :
    s.current < s.published ∧ ∀ session, u.sessions[s.sessions.length]? = some session →
      ¬ Accounted u s.sessions.length session s.published := by
  unfold InitialFits at hfit
  push Not at hfit
  obtain ⟨cursor, hcursor, hlt, hmissing⟩ := hfit
  refine ⟨hlt, ?_⟩
  have hreceived : s.dispatcher = .received cursor := by
    unfold receivedCursor? at hcursor
    split at hcursor
    · next hreceived => rw [hreceived, Option.some.inj hcursor]
    · cases hcursor
  simp only [MonitorState.step, hreceived] at hstep
  obtain rfl := Option.some.inj hstep
  let skipped (u : MonitorState) : Prop :=
    s.published ≤ u.published ∧ s.sessions.length < u.sessions.length ∧
      ∀ session, u.sessions[s.sessions.length]? = some session →
        ¬ Accounted u s.sessions.length session s.published
  have hskipped : skipped u := by
    refine run_invariant (I := skipped) (fun v a w hv hstep => ?_) ?_ hrun
    · obtain ⟨hpublished, hlength⟩ := grows hstep
      refine ⟨hv.1.trans hpublished, Nat.lt_of_lt_of_le hv.2.1 hlength, fun session hk => ?_⟩
      exact skipped_step hstep hv.1 hv.2.1 hv.2.2 hk
    · refine ⟨Nat.le_refl _, by simp, fun session hk => ?_⟩
      rw [List.getElem?_concat_length] at hk
      obtain rfl := Option.some.inj hk
      rintro ⟨i, hi, h | h | ⟨start, dropped, number, h, -, -⟩ | ⟨start, dropped, h, -, -⟩⟩
      · -- the snapshot would be among what the receiver still finds
        refine hmissing (List.mem_filterMap.mpr ⟨.snapshot s.published, ?_, rfl⟩)
        refine List.mem_of_getElem? (i := i - cursor) ?_
        rw [List.getElem?_drop, Nat.add_sub_of_le h]
        exact hi
      · cases List.mem_singleton.mp h
      · cases List.mem_singleton.mp h
      · cases h
  exact hskipped.2.2

/-- In every run in which subscriptions read only initial snapshots that fit, every snapshot
published after the initial one of a held session is handed to it, or reported to it as missed, or
still to come, and a session that has been handed all there is has missed only what it was told.
After an initial snapshot that does not fit, the last snapshot published before is none of these,
whatever follows. -/
theorem nothing_skipped_iff_initialsFit {as : List MonitorAction}
    (hrun : run step new as = some s) :
    (Guarded InitialsFit step new as → NothingSkipped s ∧
      ∀ session ∈ s.sessions, session.held = true → CaughtUp s session →
        ∀ m, .initial m ∈ session.handed → ∀ n, m < n → n ≤ s.published →
          HandedOrMissed s session n) ∧
    (¬ s.InitialFits → ∀ t, s.step .readInitial = some t → s.current < s.published ∧
      ∀ bs u, run step t bs = some u →
        ∀ session, u.sessions[s.sessions.length]? = some session →
          ¬ Accounted u s.sessions.length session s.published) := by
  refine ⟨fun hguard => ?_, fun hfit t hstep => ?_⟩
  · have hinv : (PublishInv s ∧ CursorInv s) ∧ NothingSkipped s := by
      refine guarded_invariant (I := fun s => (PublishInv s ∧ CursorInv s) ∧ NothingSkipped s)
        (fun s a t hs hfit hstep => ?_) ?_ hguard hrun
      · exact ⟨⟨hs.1.1.step hstep, hs.1.2.step hs.1.1 hstep⟩,
          nothingSkipped_step hs.1.1 hs.1.2 hfit hstep hs.2⟩
      · refine ⟨⟨publishInv_new, by simp [CursorInv, new]⟩, fun k session hk => ?_⟩
        simp [new] at hk
    refine ⟨hinv.2, fun session hmem hheld hcaught m hinitial n hlt hle => ?_⟩
    obtain ⟨k, hk⟩ := List.mem_iff_getElem?.mp hmem
    exact (hinv.2 k session hk hheld m hinitial n hlt hle).caught_up hcaught
  · refine ⟨?_, fun bs u hrun' => (skipped_forever hfit hstep hrun').2⟩
    exact (skipped_forever hfit hstep (run_nil step t)).1

/-- A session that starts while the worker is idle. -/
def idleStart : List MonitorAction :=
  [.subscribe, .takeReceiver, .readInitial, .finishSubscribe, .workerCheck, .workerSend,
    .workerStore, .poll 0]

/-- A session that starts while the worker is idle misses nothing. -/
theorem nothing_skipped_of_idleStart :
    ∃ s, run step new idleStart = some s ∧
      s.sessions = [⟨1, [.initial 0, .snapshot 1], true⟩] ∧ NothingSkipped s := by
  have hguard : Guarded InitialsFit step new idleStart := by decide
  exact ⟨_, rfl, by decide, ((nothing_skipped_iff_initialsFit rfl).1 hguard).1⟩

/-- A session that starts between the send and the store of a snapshot is neither handed it nor
told. -/
theorem snapshot_skipped_of_startBetweenSendAndStore :
    ∃ s, run step new [.subscribe, .takeReceiver, .readInitial, .finishSubscribe, .workerCheck,
        .workerSend, .subscribe, .takeReceiver, .readInitial, .finishSubscribe, .workerStore,
        .poll 1] = some s ∧
      s.sessions[1]? = some ⟨1, [.initial 0], true⟩ ∧ ¬ NothingSkipped s := by
  refine ⟨_, rfl, rfl, fun h => ?_⟩
  obtain ⟨i, hi, hreaches⟩ :=
    h 1 ⟨1, [.initial 0], true⟩ rfl rfl 0 (by decide) 1 (by decide) (by decide)
  obtain rfl : i = 0 := Nat.lt_one_iff.mp (List.getElem?_eq_some_iff.mp hi).1
  rcases hreaches with h | h | ⟨start, dropped, number, h, -, -⟩ | ⟨start, dropped, h, -, -⟩
  · cases h
  · cases List.mem_singleton.mp h
  · cases List.mem_singleton.mp h
  · cases h

end MonitorState

end Procinsh
